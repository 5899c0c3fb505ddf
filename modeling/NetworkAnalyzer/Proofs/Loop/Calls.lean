import NetworkAnalyzer.Proofs.Loop.Attempts
import NetworkAnalyzer.Proofs.Readout.History

/-!
# The calls that ticks make

A tick makes at most one call of a pass. `MeasurementLoop.calling` is the tick up to the
end of that call, with the call as its answer, and `Ticks` is a run of ticks with the
calls they made. The ticks themselves keep no record of their calls.

**Calls.** A `Call` is all that a call was made with and all that it left: the instrument and the
shared state in which it began, the break flag, the outcome, and the head, the traces and the state
in which it ended. Its mask, its first point and its last one follow from these. `Call.Ran` says
that it ran as `Pass.execute` has it.

**Time.** A call takes time, and what it captures depends on when. `Board.Later` relates two states
if the second follows the first by operations of the board, so "measured by this call" means at a
state between its start and its end.

* `Call.Ran.inv`: a call fails, or it measures its points and stands after them.
* `Call.Advanced.took`: what it leaves at a point of a selected channel: the source was tuned to the
  point, the channels were captured, and the readings corrected with the terms of the point.
* `Call.Advanced.frame`: a channel that is not selected keeps its values.
* `run_called`: a run makes its call between two announcements, or it is refused.
* `Made`, `tick_made`: what a tick does besides making its call. If nobody else writes to the traces
  (`SoleWriter`), readers are shown what the call left.
-/

namespace NetworkAnalyzer

variable {N : Nat} {ε : Type} {board : Board (Shared N ε)} {host : Host N ε}

/-! ## Time -/

/-- One operation of the board, or something done to the capture. -/
inductive Board.Op (board : Board (Shared N ε)) : Shared N ε → Shared N ε → Prop
  | now {w w' : Shared N ε} {t : Instant} : board.now w = .ok (t, w') → Op board w w'
  | relax {w w' : Shared N ε} : board.relax w = .ok ((), w') → Op board w w'
  | tune {w w' : Shared N ε} {f : UInt32} {d : Duration} : board.tune f w = .ok (d, w') →
      Op board w w'
  | select {w w' : Shared N ε} {c : Channel} : board.select c w = .ok ((), w') → Op board w w'
  | takeSettlingCycles {w w' : Shared N ε} {x : UInt8} :
      board.takeSettlingCycles w = .ok (x, w') → Op board w w'
  | inputPending {w w' : Shared N ε} {b : Bool} : board.inputPending w = .ok (b, w') →
      Op board w w'
  | indicate {w w' : Shared N ε} {i : Indication} : board.indicate i w = .ok ((), w') →
      Op board w w'
  | capture {w : Shared N ε} (c : Capture) : Op board w { w with capture := c }

/-- The second state follows the first by operations of the board. -/
abbrev Board.Later (board : Board (Shared N ε)) : Shared N ε → Shared N ε → Prop :=
  Relation.ReflTransGen board.Op

theorem Board.frames_later (board : Board (Shared N ε)) : board.Frames board.Later where
  now _ _ _ h := .single (.now h)
  relax _ _ _ h := .single (.relax h)
  select _ _ _ _ h := .single (.select h)
  takeSettlingCycles _ _ _ h := .single (.takeSettlingCycles h)
  inputPending _ _ _ h := .single (.inputPending h)
  indicate _ _ _ _ h := .single (.indicate h)
  capture _ c := .single (.capture c)

theorem Board.tune_later (board : Board (Shared N ε)) (f : UInt32) :
    Moves board.Later (board.tune f) := fun _ _ _ h => .single (.tune h)

theorem Board.Later.keeps {γ : Type} {g : Shared N ε → γ} (hf : board.Frames (Keeps g))
    (htune : ∀ f, Moves (Keeps g) (board.tune f)) {w w' : Shared N ε} (h : board.Later w w') :
    g w' = g w := by
  induction h with
  | refl => rfl
  | tail _ hop ih =>
    refine Eq.trans ?_ ih
    cases hop with
    | now h => exact hf.now h
    | relax h => exact hf.relax h
    | tune h => exact htune _ h
    | select h => exact hf.select _ h
    | takeSettlingCycles h => exact hf.takeSettlingCycles h
    | inputPending h => exact hf.inputPending h
    | indicate h => exact hf.indicate _ h
    | capture c => exact hf.capture _ c

/-! ## Calls -/

/-- A call of a pass made by a tick. -/
structure Call (N : Nat) (ε : Type) where
  /-- The instrument as the host had served it. -/
  instrument : Instrument N
  breakable : Bool
  /-- The shared state that the call was made in; it holds the traces to be filled. -/
  start : Shared N ε
  outcome : Except Failure Bool
  /-- Traces and head that the call left. -/
  traces : Traces Float32 N
  head : SweepHead
  stop : Shared N ε

namespace Call

def mask (k : Call N ε) : SweepMask := k.instrument.activeMask

def first (k : Call N ε) : Nat := k.instrument.head.startPoint N k.breakable

def last (k : Call N ε) : Nat := (k.head.nextPoint N).toNat

def point (k : Call N ε) (i : Nat) : PointSetup N :=
  Pass.pointOf (some k.instrument.calibration) k.mask k.instrument.head i

/-- The call as the loop makes it. -/
def Ran (board : Board (Shared N ε)) (k : Call N ε) : Prop :=
  Pass.execute board (some k.instrument.calibration) k.breakable k.mask
    ⟨k.instrument.head, k.start.buffers.traces⟩ k.start =
      .ok ((k.outcome, ⟨k.head, k.traces⟩), k.stop)

/-- The points from the first to the last measured. -/
def Advanced (board : Board (Shared N ε)) (k : Call N ε) : Prop :=
  Pass.Stretch board.Later board k.point k.first k.last k.start.buffers.traces k.start k.traces
    k.stop

/-- The call measured point `i` of channel `c`, which left `z` there: the source was tuned to
the point, the selected channels were captured, and the readings corrected with the terms of
the point. -/
def Took (board : Board (Shared N ε)) (k : Call N ε) (c : Channel) (i : Nat)
    (z : Option (Phasor Float32)) : Prop :=
  k.first ≤ i ∧ i < k.last ∧ k.mask.measures c ∧
    ∃ (readings : List (Channel × Phasor Float32)) (terms : Option (Terms Float32))
      (w w₁ v w₂ : Shared N ε), board.Later k.start w ∧ (k.point i).Retuned board w w₁ ∧
      readings.map (·.1) = k.mask.channels ∧
      (∀ m ∈ readings, (k.point i).Captured board.Later board m.1 m.2 w₁ w₂) ∧
      board.Later w₁ v ∧ (k.point i).finalTerms (board.band v) = .ok terms ∧
      board.Later v w₂ ∧ board.Later w₂ k.stop ∧
      ∀ u, ((k.point i).settled terms readings u).entry c i = z

variable {k : Call N ε}

theorem Advanced.frame (h : k.Advanced board) (c : Channel) (j : Nat)
    (hout : ¬(k.mask.measures c ∧ k.first ≤ j ∧ j < k.last)) :
    k.traces.entry c j = k.start.buffers.traces.entry c j :=
  Pass.Stretch.frame board.frames_later (Nat.le_of_lt (k.head.nextPoint N).toNat_lt) h c j hout

theorem Advanced.took (h : k.Advanced board) {c : Channel} (hc : k.mask.measures c) {i : Nat}
    (ha : k.first ≤ i) (hi : i < k.last) : k.Took board c i (k.traces.entry c i) := by
  have hlast : k.last < 65536 := (k.head.nextPoint N).toNat_lt
  obtain ⟨u₀, v₀, u₁, v₁, hmeasure, hentry, hbetween⟩ :=
    Pass.Stretch.measured board.frames_later (Nat.le_of_lt hlast) h ha hi
  obtain ⟨hbefore, hafter⟩ := hbetween board.tune_later
  have hany : (k.point i).mask.measuresAny := SweepMask.measuresAny_iff.mpr ⟨c, hc⟩
  obtain ⟨readings, terms, w₁, v, hretuned, hready, hdone, hchannels, hcaptured, hterms, rfl⟩ :=
    PointSetup.measure_ok board.frames_later hany hmeasure
  have hindex : (k.point i).index.toNat = i := UInt16.toNat_ofNat_of_lt' (Nat.lt_trans hi hlast)
  refine ⟨ha, hi, hc, readings, terms, v₀, w₁, v, v₁, hbefore, hretuned, hchannels, hcaptured,
    hready, hterms, hdone, hafter, fun u => ?_⟩
  have hsettled := @PointSetup.settled_entry _ _ terms _ hchannels u u₀ _ hc
  rw [hindex] at hsettled
  exact hsettled.trans (hentry c).symm

/-- A call fails and stands aborted, or it measures its points and stands after them. -/
theorem Ran.inv (h : k.Ran board) :
    board.Later k.start k.stop ∧ k.head.plan = k.instrument.head.plan ∧
      ((∃ e, k.outcome = .error e ∧ k.head.state = .aborted) ∨
        ∃ all, k.outcome = .ok all ∧ k.Advanced board ∧
          (all = true → k.last = (k.instrument.head.points N).toNat ∧
            k.head.state = .completed) ∧
          (all = false → k.head.startPoint N true = k.last)) := by
  have hf := board.frames_later
  obtain ⟨hplan, -, ⟨-, houtcome, htraces, hnext, hmoved⟩ | ⟨-, b, u, w₁, hstretch, hended⟩⟩ :=
    Pass.execute_inv hf h
  · have htraces' : k.traces = k.start.buffers.traces := htraces
    have hlast : k.last = k.first := hnext
    have hadvanced : k.Advanced board := by
      unfold Advanced
      rw [hlast, htraces']
      exact .nil hmoved
    refine ⟨hmoved, hplan, Or.inr ⟨false, houtcome, hadvanced, fun hall => (by cases hall),
      fun _ => ?_⟩⟩
    exact SweepHead.startPoint_of_nextPoint hplan hlast
  · have hpoints : k.head.points N = k.instrument.head.points N := SweepHead.points_congr hplan
    have hbefore : board.Later k.start w₁ := hstretch.moves hf board.tune_later
    generalize houtcome : k.outcome = r at hended
    cases hended with
    | completed hstate htraces hmoved =>
      have hlast : k.last = (k.instrument.head.points N).toNat := by
        unfold last SweepHead.nextPoint
        rw [show k.head.state = .completed from hstate, ← hpoints]
      refine ⟨hbefore.trans hmoved, hplan, Or.inr ⟨true, rfl, ?_, fun _ => ⟨hlast, hstate⟩,
        fun hall => by cases hall⟩⟩
      unfold Advanced
      rw [hlast, show k.traces = u from htraces]
      exact hstretch.before hmoved
    | yielded hlt hstate htraces hmoved =>
      have hn : (k.instrument.head.points N).toNat < UInt16.size :=
        (k.instrument.head.points N).toNat_lt
      have hlast : k.last = b := by
        unfold last SweepHead.nextPoint
        rw [show k.head.state = .stepping b.toUInt16 from hstate]
        exact UInt16.toNat_ofNat_of_lt' (Nat.lt_trans hlt hn)
      refine ⟨hbefore.trans hmoved, hplan, Or.inr ⟨false, rfl, ?_, fun hall => (by cases hall),
        fun _ => ?_⟩⟩
      · unfold Advanced
        rw [hlast, show k.traces = u from htraces]
        exact hstretch.before hmoved
      · rw [hlast]
        refine SweepHead.startPoint_of_yielded ?_ hstate
        rw [hpoints]
        exact hlt
    | aborted _ hstate hmoved hmeasure hmoved' =>
      have hfailed := PointSetup.measure_moves hf board.tune_later hmeasure
      exact ⟨hbefore.trans (hmoved.trans (hfailed.trans hmoved')), hplan,
        Or.inl ⟨_, rfl, hstate⟩⟩

end Call

/-! ## Ticks -/

namespace MeasurementLoop

/-- The call made on the buffers that were just claimed. -/
def callClaimed (board : Board (Shared N ε)) (host : Host N ε) (breakable : Bool)
    (i : Instrument N) : Run (Shared N ε) (Call N ε) := do
  Shared.setBuffers ((← get).buffers.setPoints (i.head.points N))
  if !(i.head.state matches .stepping _) then
    Shared.publish host.listen (.sweepStarted i.activeMask)
  let start ← get
  let (outcome, traces, served) ← i.execute board breakable i.activeMask start.buffers.traces
  return {
    instrument := i, breakable, start, outcome, traces, head := served.head, stop := ← get }

def callRun (board : Board (Shared N ε)) (host : Host N ε) (breakable : Bool)
    (i : Instrument N) : Run (Shared N ε) (Option (Call N ε)) := do
  match ← Shared.awaitCopyRelease board.toTimebase with
  | .error _ => return none
  | .ok () =>
    match (← get).buffers.begin with
    | .error _ => return none
    | .ok b =>
      Shared.setBuffers b
      return some (← callClaimed board host breakable i)

/-- A tick up to the end of its call, with the call if it comes to one. -/
def calling (board : Board (Shared N ε)) (host : Host N ε) (l : MeasurementLoop N) :
    Run (Shared N ε) (Option (Call N ε)) := do
  let i ← host.service l.instrument
  match ← host.canStart with
  | none => return none
  | some breakable => callRun board host breakable i

/-- The call is made in the state that the announcement of its start left. -/
theorem callClaimed_eq {breakable : Bool} {i : Instrument N} {outcome : Except Failure Bool}
    {p : Pass N} {w w₁ w₂ : Shared N ε}
    (hstarted : Published host (∀ k, i.head.state ≠ .stepping k) (.sweepStarted i.activeMask)
      { w with buffers := w.buffers.setPoints (i.head.points N) } w₁)
    (hexecute : Pass.execute board (some i.calibration) breakable i.activeMask
      ⟨i.head, w₁.buffers.traces⟩ w₁ = .ok ((outcome, p), w₂)) :
    callClaimed board host breakable i w =
      .ok (⟨i, breakable, w₁, outcome, p.traces, p.head, w₂⟩, w₂) := by
  have hset : Shared.setBuffers (w.buffers.setPoints (i.head.points N)) w =
      .ok ((), { w with buffers := w.buffers.setPoints (i.head.points N) }) := rfl
  have hpass : i.execute board breakable i.activeMask w₁.buffers.traces w₁ =
      .ok ((outcome, p.traces, { i with head := p.head }), w₂) := Run.bind_ok _ hexecute
  unfold callClaimed
  rw [Run.get_bind, Run.bind_ok _ hset]
  refine (Run.optional_ok _ (hstarted.congr not_stepping_iff.symm)).trans ?_
  dsimp only
  rw [Run.get_bind, Run.bind_ok _ hpass]
  rfl

variable {l l' : MeasurementLoop N} {w w' : Shared N ε}

/-- The call `k` and what was made of it, from the buffers free in `w` on. -/
structure Attempted (board : Board (Shared N ε)) (host : Host N ε) (l : MeasurementLoop N)
    (w : Shared N ε) (k : Call N ε) (l' : MeasurementLoop N) (w' : Shared N ε) : Prop where
  free : w.buffers.role = .idle
  instrument : k.instrument = l.instrument
  started : Published host (∀ n, l.instrument.head.state ≠ .stepping n) (.sweepStarted k.mask)
    { w with
      buffers := { w.buffers with role := .sweeping }.setPoints (l.instrument.head.points N) }
    k.start
  ran : k.Ran board
  left : l'.instrument = { l.instrument with head := k.head }
  completed : Published host (k.outcome = .ok true) (.sweepCompleted k.mask)
    { k.stop with
      buffers := { k.stop.buffers with
        traces := l.givenBack k.mask k.outcome ⟨k.head, k.traces⟩ }.finish (completes k.outcome) }
    w'

/-- A run makes its call, or it leaves everything as it is because the buffers are held. -/
theorem run_called {R : Shared N ε → Shared N ε → Prop} [IsPreorder (Shared N ε) R]
    (hf : board.Frames R) {breakable : Bool} {outcome : Except Failure Bool}
    (h : l.run board host breakable l.instrument.activeMask w = .ok ((outcome, l'), w')) :
    ∃ called v, callRun board host breakable l.instrument w = .ok (called, v) ∧
      match called with
      | none => (∃ e, outcome = .error e) ∧ l' = l ∧ R w w'
      | some k => k.breakable = breakable ∧ k.outcome = outcome ∧
          ∃ w₀, R w w₀ ∧ Attempted board host l w₀ k l' w' := by
  have hcallRun : callRun board host breakable l.instrument =
      Shared.onClaimed board (fun _ => return none) fun b => do
        Shared.setBuffers b
        return some (← callClaimed board host breakable l.instrument) := rfl
  rw [hcallRun]
  obtain ⟨e, rfl, rfl, hmoved, hrefused⟩ | ⟨w₀, hmoved, hidle, hclaimed, hgranted⟩ := run_inv hf h
  · exact ⟨none, w', hrefused _ _, ⟨e, rfl⟩, rfl, hmoved⟩
  · obtain ⟨w₁, p, w₂, hstarted, hexecute, hleft, hcompleted⟩ := runClaimed_inv hclaimed
    have hcall := callClaimed_eq hstarted hexecute
    refine ⟨some ⟨l.instrument, breakable, w₁, outcome, p.traces, p.head, w₂⟩, w₂, ?_, rfl, rfl,
      w₀, hmoved, hidle, rfl, hstarted, hexecute, hleft, hcompleted⟩
    have hset : Shared.setBuffers { w₀.buffers with role := .sweeping } w₀ =
        .ok ((), { w₀ with buffers := { w₀.buffers with role := .sweeping } }) := rfl
    rw [hgranted, Run.bind_ok _ hset]
    exact Run.bind_ok _ hcall

/-- What readers are shown once the call has given the buffers back. -/
def shownAfter (t : TimeDomain Float32) (k : Call N ε) : Traces Float32 N × UInt32 :=
  match k.outcome with
  | .ok true => ((k.instrument.settings.processing.apply t k.traces (k.head.points N) k.mask).2,
      k.start.shown.2 + 1)
  | _ => (k.traces, k.start.shown.2)

/-- What making the call `k` did to the loop and the shared state. -/
structure Made (board : Board (Shared N ε)) (breakable : Bool) (l : MeasurementLoop N)
    (w : Shared N ε) (k : Call N ε) (outcome : Except Failure Bool) (l' : MeasurementLoop N)
    (w' : Shared N ε) : Prop where
  ran : k.Ran board
  instrument : k.instrument = l.instrument
  breakable : k.breakable = breakable
  outcome : k.outcome = outcome
  start : k.start.shown = w.shown
  left : l'.instrument = { l.instrument with head := k.head }
  shown : w'.shown = shownAfter l.timeDomain k

/-- When nobody else writes to the traces, readers are shown what the call left. -/
theorem Attempted.made (hsole : SoleWriter board host) {k : Call N ε}
    (ha : Attempted board host l w k l' w') :
    Made board k.breakable l w k k.outcome l' w' := by
  have hannounced := ha.started.moves (R := Keeps Shared.shown) (fun _ _ => rfl) hsole.listen
  have hstart : k.start.shown = w.shown := hannounced
  have hgeneration : k.stop.shown.2 = k.start.shown.2 :=
    congrArg Prod.snd (Board.Later.keeps hsole.frames hsole.tune ha.ran.inv.1)
  have hback := ha.completed.moves (R := Keeps Shared.shown) (fun _ _ => rfl) hsole.listen
  refine ⟨ha.ran, ha.instrument, rfl, rfl, hstart, ha.left, Eq.trans hback ?_⟩
  unfold shownAfter givenBack
  rw [ha.instrument]
  rcases k.outcome with e | _ | _
  · exact Prod.ext rfl hgeneration
  · exact Prod.ext rfl hgeneration
  · exact Prod.ext rfl (congrArg (· + 1) hgeneration)

/-- A run makes its call, or it leaves what readers are shown. -/
theorem run_made (hsole : SoleWriter board host) {breakable : Bool}
    {outcome : Except Failure Bool}
    (h : l.run board host breakable l.instrument.activeMask w = .ok ((outcome, l'), w')) :
    ∃ called v, callRun board host breakable l.instrument w = .ok (called, v) ∧
      match called with
      | none => l' = l ∧ w'.shown = w.shown ∧ outcome ≠ .ok true
      | some k => Made board breakable l w k outcome l' w' := by
  obtain ⟨called, v, hcall, hmade⟩ := run_called hsole.frames h
  refine ⟨called, v, hcall, ?_⟩
  cases called with
  | none =>
    obtain ⟨⟨e, rfl⟩, rfl, hkept⟩ := hmade
    exact ⟨rfl, hkept, fun he => by cases he⟩
  | some k =>
    obtain ⟨rfl, rfl, w₀, hkept, hattempted⟩ := hmade
    have hmade := hattempted.made hsole
    exact { hmade with start := hmade.start.trans hkept }

/-- A tick makes its call, or it leaves what readers are shown and completes no pass. -/
theorem tick_made (hsole : SoleWriter board host) {r : Option SweepResult}
    (h : l.tick board host w = .ok ((r, l'), w')) :
    ∃ i w₁ called v, host.service l.instrument w = .ok (i, w₁) ∧
      l.calling board host w = .ok (called, v) ∧
      match called with
      | none => l'.instrument = i ∧ w'.shown = w₁.shown ∧ ∀ mask, r ≠ some ⟨mask, true⟩
      | some k => (∃ w₂, host.canStart w₁ = .ok (some k.breakable, w₂)) ∧
          (∃ all, r = some ⟨k.mask, all⟩ ∧ (all = true ↔ k.outcome = .ok true)) ∧
          Made board k.breakable { l with instrument := i } w₁ k k.outcome l' w' := by
  obtain ⟨i, w₁, allowed, w₂, hservice, hallowed, htick⟩ := tick_inv h
  have hkept₂ : w₂.shown = w₁.shown := hsole.canStart hallowed
  unfold calling
  rw [Run.bind_ok _ hservice, Run.bind_ok _ hallowed]
  cases allowed with
  | none =>
    obtain ⟨rfl, rfl, late, hidle⟩ := htick
    have hkept₃ : w'.shown = w₂.shown :=
      Moves.waitUntil hsole.frames.now hsole.frames.relax (.pure _) hidle
    exact ⟨i, w₁, none, w₂, hservice, rfl, rfl, hkept₃.trans hkept₂, fun mask hr => by cases hr⟩
  | some breakable =>
    obtain ⟨outcome, w₃, hrun, rfl, hresult⟩ := htick
    have hkept₄ : w'.shown = w₃.shown := hsole.handleResult _ hresult
    obtain ⟨called, v, hcall, hmade⟩ := run_made hsole (l := { l with instrument := i }) hrun
    refine ⟨i, w₁, called, v, hservice, hcall, ?_⟩
    cases called with
    | none =>
      obtain ⟨rfl, hkept₃, hnot⟩ := hmade
      refine ⟨rfl, hkept₄.trans (hkept₃.trans hkept₂), fun mask hr => hnot ?_⟩
      rw [Option.some.injEq, SweepResult.mk.injEq] at hr
      exact completed_iff.mp hr.2
    | some k =>
      have hmask : i.activeMask = k.mask := congrArg Instrument.activeMask hmade.instrument.symm
      have hbreakable : host.canStart w₁ = .ok (some k.breakable, w₂) := by
        rw [hmade.breakable]
        exact hallowed
      refine ⟨⟨w₂, hbreakable⟩, ⟨_, congrArg (fun m => some (SweepResult.mk m _)) hmask, ?_⟩,
        { hmade with
          breakable := rfl
          outcome := rfl
          start := hmade.start.trans hkept₂
          shown := hkept₄.trans hmade.shown }⟩
      rw [hmade.outcome]
      exact completed_iff

/-- Ticks in a row, and the calls they made, the latest first. -/
inductive Ticks (board : Board (Shared N ε)) (host : Host N ε) (l₀ : MeasurementLoop N)
    (w₀ : Shared N ε) : List (Call N ε) → MeasurementLoop N → Shared N ε → Prop
  | start : Ticks board host l₀ w₀ [] l₀ w₀
  | tick {calls : List (Call N ε)} {called : Option (Call N ε)} {l l' : MeasurementLoop N}
      {r : Option SweepResult} {w w' v : Shared N ε} : Ticks board host l₀ w₀ calls l w →
      l.calling board host w = .ok (called, v) → l.tick board host w = .ok ((r, l'), w') →
      Ticks board host l₀ w₀ (called.toList ++ calls) l' w'

end MeasurementLoop

end NetworkAnalyzer
