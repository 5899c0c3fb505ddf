import NetworkAnalyzer.Proofs.Bus.Delivery
import NetworkAnalyzer.Proofs.Loop.Attempts
import NetworkAnalyzer.Proofs.Loop.Freshness
import NetworkAnalyzer.Proofs.Sweep.SessionPoints

/-!
# What ticks and sessions report

The loop tells of a pass in four ways: the result it hands to the host, the generation of the
buffers, the role it gives back, and the events it publishes. `Observer` is someone who records
the events and the results; `Gained` is what two moments differ by in its eyes.

**Observers.** The loop has no record of what it published. An observer is a listener of the host
that keeps one, somewhere in the environment. `Watches` says that the board does nothing that would
be recorded, and `Sees` that nothing reaches the observer but what is published and reported, and
all of that does, once.

**Accounts.** `Gained count events results` relates two states by what was counted, announced and
reported between them, and gives the producer's role back. Accounts add up (`Gained.trans`), so the
account of a tick is put together from those of its parts.

**Pairing.** A pass of several calls is announced once and reported by each call. That every
completion is preceded by a start of its own is an invariant of the head as well: a pass in
progress is announced.

**Results.**
* `scan_gained`, `sweep_gained`: a session pass counts a generation exactly if it succeeds, and
  hands over its points only then.
* `tick_announces`: a tick announces what its call does, and nothing else.
* `tick_gained`: a tick counts a generation and announces the completion exactly if it reports
  a completed pass.
* `Announced`: every completion announced so far was preceded by a start of its own, and a pass
  in progress is announced. Ticks, sessions and whatever else the task does keep it.
* `reports`: all of it, for every run of ticks and sessions.
* `reports_sliced`: a pass of two calls is reported twice, announced once and counted once.
-/

namespace NetworkAnalyzer

variable {N : Nat} {ε : Type} {board : Board (Shared N ε)} {host : Host N ε}

/-! ## Announcements -/

def Event.isCompletion : Event → Bool
  | .sweepCompleted _ => true
  | _ => false

/-- A start was announced and no completion since. -/
def Opened (log : List Event) : Prop :=
  ∃ before mask after, log = before ++ .sweepStarted mask :: after ∧
    ∀ e ∈ after, e.isCompletion = false

/-- Before every completion a start was announced, with no other completion in between. -/
def Paired (log : List Event) : Prop :=
  ∀ before mask after, log = before ++ .sweepCompleted mask :: after → Opened before

variable {log : List Event} {mask : SweepMask}

theorem opened_started (log : List Event) (mask : SweepMask) :
    Opened (log ++ [.sweepStarted mask]) :=
  ⟨log, mask, [], rfl, by simp⟩

theorem paired_nil : Paired [] := by
  intro before mask after h
  simp at h

theorem Paired.concat {e : Event} (hlog : Paired log) (he : e.isCompletion = true → Opened log) :
    Paired (log ++ [e]) := by
  intro before mask after h
  obtain rfl | ⟨after, x, rfl⟩ := List.eq_nil_or_concat' after
  · obtain ⟨rfl, he'⟩ := List.append_inj' h rfl
    cases he'
    exact he rfl
  · rw [← List.cons_append, ← List.append_assoc] at h
    exact hlog before mask after (List.append_inj' h rfl).1

def opening (h : SweepHead) (mask : SweepMask) : List Event :=
  match h.state with
  | .stepping _ => []
  | _ => [.sweepStarted mask]

def closing (completed : Bool) (mask : SweepMask) : List Event :=
  if completed then [.sweepCompleted mask] else []

theorem opening_of_stepping {h : SweepHead} {k : UInt16} (hk : h.state = .stepping k) :
    opening h mask = [] := by
  unfold opening
  rw [hk]

theorem opening_of_not_stepping {h : SweepHead} (hs : ∀ k, h.state ≠ .stepping k) :
    opening h mask = [.sweepStarted mask] := by
  unfold opening
  cases hstate : h.state with
  | stepping k => exact absurd hstate (hs k)
  | idle | completed | aborted => rfl

theorem countP_announced (h : SweepHead) (completed : Bool) :
    (opening h mask ++ closing completed mask).countP Event.isCompletion =
      if completed then 1 else 0 := by
  unfold opening closing
  cases h.state <;> cases completed <;> rfl

/-- An attempt from a head whose pass in progress is announced. -/
theorem Paired.attempt {h h' : SweepHead} {completed : Bool} (hlog : Paired log)
    (mask : SweepMask) (hopened : ∀ k, h.state = .stepping k → Opened log)
    (hover : completed = true → ∀ k, h'.state ≠ .stepping k) :
    Paired (log ++ (opening h mask ++ closing completed mask)) ∧
      ∀ k, h'.state = .stepping k → Opened (log ++ (opening h mask ++ closing completed mask)) := by
  have hstarted : Paired (log ++ opening h mask) ∧ Opened (log ++ opening h mask) := by
    by_cases hs : ∃ k, h.state = .stepping k
    · obtain ⟨k, hk⟩ := hs
      rw [opening_of_stepping hk, List.append_nil]
      exact ⟨hlog, hopened k hk⟩
    · rw [opening_of_not_stepping (not_exists.mp hs)]
      exact ⟨hlog.concat (fun he => by cases he), opened_started _ _⟩
  rw [← List.append_assoc]
  cases completed with
  | true => exact ⟨hstarted.1.concat fun _ => hstarted.2, fun k hk => absurd hk (hover rfl k)⟩
  | false =>
    rw [show closing false mask = [] from rfl, List.append_nil]
    exact ⟨hstarted.1, fun _ _ => hstarted.2⟩

/-! ## Observers -/

namespace Buffers

theorem finish_generation (b : Buffers N) (completed : Bool) :
    (b.finish completed).generation = b.generation + if completed then 1 else 0 := by
  cases completed
  · exact (UInt32.add_zero _).symm
  · rfl

theorem finish_role (b : Buffers N) (completed : Bool) : (b.finish completed).role = .idle := by
  cases completed <;> rfl

end Buffers

/-- Someone who records what the loop tells. -/
structure Observer (N : Nat) (ε : Type) where
  /-- Starts and completions published so far. -/
  announced : Shared N ε → List Event
  /-- Results handed to the host so far. -/
  reported : Shared N ε → List SweepResult
  /-- Events that are published now are recorded. -/
  connected : Shared N ε → Prop

namespace Observer

variable {o : Observer N ε} {w w' v : Shared N ε}

/-- What two moments differ by. -/
structure Gained (o : Observer N ε) (count : UInt32) (events : List Event)
    (results : List SweepResult) (w w' : Shared N ε) : Prop where
  generation : w'.buffers.generation = w.buffers.generation + count
  sweeping : w'.buffers.isSweeping = w.buffers.isSweeping
  announced : o.announced w' = o.announced w ++ events
  reported : o.reported w' = o.reported w ++ results
  connected : o.connected w → o.connected w'

theorem Gained.trans {count count' : UInt32} {events events' : List Event}
    {results results' : List SweepResult} (h : o.Gained count events results w v)
    (h' : o.Gained count' events' results' v w') :
    o.Gained (count + count') (events ++ events') (results ++ results') w w' where
  generation := by rw [h'.generation, h.generation, UInt32.add_assoc]
  sweeping := h'.sweeping.trans h.sweeping
  announced := by rw [h'.announced, h.announced, List.append_assoc]
  reported := by rw [h'.reported, h.reported, List.append_assoc]
  connected hw := h'.connected (h.connected hw)

instance : IsPreorder (Shared N ε) (o.Gained 0 [] []) where
  refl _ := ⟨(UInt32.add_zero _).symm, rfl, (List.append_nil _).symm, (List.append_nil _).symm, id⟩
  trans _ _ _ := Gained.trans

/-- The board does nothing that the observer would record, and changes of the buffers are not
recorded. -/
structure Watches (o : Observer N ε) (board : Board (Shared N ε)) : Prop where
  frames : board.Frames (o.Gained 0 [] [])
  tune : ∀ f, Moves (o.Gained 0 [] []) (board.tune f)
  buffers : ∀ w b, o.announced { w with buffers := b } = o.announced w ∧
    o.reported { w with buffers := b } = o.reported w ∧
      (o.connected w → o.connected { w with buffers := b })

/-- Buffers that were claimed from idle and given back. -/
theorem Watches.held (ho : o.Watches board) {count : UInt32} {events : List Event}
    {results : List SweepResult} {b b' : Buffers N} (hidle : w.buffers.role = .idle)
    (hb : b.generation = w.buffers.generation)
    (h : o.Gained 0 events results { w with buffers := b } v)
    (hb' : b'.generation = v.buffers.generation + count) (hrole : b'.role = .idle) :
    o.Gained count events results w { v with buffers := b' } := by
  obtain ⟨hgeneration, -, hannounced, hreported, hconnected⟩ := h
  obtain ⟨ha, hr, hc⟩ := ho.buffers w b
  obtain ⟨ha', hr', hc'⟩ := ho.buffers v b'
  refine ⟨?_, ?_, ?_, ?_, fun hw => hc' (hconnected (hc hw))⟩
  · rw [UInt32.add_zero] at hgeneration
    exact hb'.trans (by rw [hgeneration, hb])
  · simp [Buffers.isSweeping, hidle, hrole]
  · rw [ha', hannounced, ha]
  · rw [hr', hreported, hr]

theorem Gained.after {count : UInt32} {events : List Event} {results : List SweepResult}
    (h : o.Gained 0 [] [] w v) (h' : o.Gained count events results v w') :
    o.Gained count events results w w' := by
  simpa using h.trans h'

theorem Gained.before {count : UInt32} {events : List Event} {results : List SweepResult}
    (h : o.Gained count events results w v) (h' : o.Gained 0 [] [] v w') :
    o.Gained count events results w w' := by
  simpa using h.trans h'

end Observer

/-! ## Passes of a session -/

namespace SweepHead

variable {o : Observer N ε} {h h' : SweepHead} {calibration : Option (Calibration Float32 N)}
  {c : Channel} {w w' : Shared N ε}

/-- The pass in progress stands where it stood, or is over. -/
def Kept (h h' : SweepHead) : Prop := h'.state = h.state ∨ ∀ k, h'.state ≠ .stepping k

theorem Kept.trans {h'' : SweepHead} (hkept : h.Kept h') (hkept' : h'.Kept h'') : h.Kept h'' := by
  obtain hstate | hover := hkept'
  · rw [Kept, hstate]
    exact hkept
  · exact Or.inr hover

theorem sessionOutcome_isOk {α : Type} (outcome : Except Failure Bool) (t : α) :
    ((sessionOutcome outcome).map fun _ => t).isOk = (outcome matches .ok true) := by
  rcases outcome with e | _ | _ <;> rfl

theorem scan_gained (ho : o.Watches board) {r : Except Failure (Traces Float32 N)}
    (hscan : h.scan board calibration mask w = .ok ((r, h'), w')) :
    h.Kept h' ∧ o.Gained (if r.isOk then 1 else 0) [] [] w w' := by
  obtain ⟨rfl, ⟨e, rfl⟩, hmoved⟩ | ⟨w₀, outcome, u', w₁, hw₀, hidle, hexecute, rfl, rfl⟩ :=
    scan_inv ho.frames hscan
  · exact ⟨Or.inl rfl, hmoved⟩
  · have hpass := Pass.execute_moves ho.frames ho.tune hexecute
    refine ⟨Or.inr (execute_over ho.frames hexecute), hw₀.after ?_⟩
    rw [sessionOutcome_isOk]
    exact ho.held (b := { w₀.buffers with role := .sweeping, points := h.points N }) hidle rfl
      hpass (Buffers.finish_generation _ _) (Buffers.finish_role _ _)

/-- A pass of a session counts a generation and hands over all its points, in order, or it fails
and does neither. -/
theorem sweep_gained (ho : o.Watches board) {d : Delivery Float32}
    (hsweep : (sweeper board).sweep mask c (h, w) = .ok (d, (h', w'))) :
    h.Kept h' ∧ o.Gained (if d.outcome.isOk then 1 else 0) [] [] w w' ∧
      d.values.map (·.1) = if d.outcome.isOk then List.range (h.points N).toNat else [] := by
  obtain ⟨r, hscan, hdelivered⟩ := sweep_scan hsweep
  obtain ⟨hkept, hgained⟩ := scan_gained ho hscan
  obtain ⟨e, rfl, rfl⟩ | ⟨t, rfl, rfl⟩ := hdelivered
  · exact ⟨hkept, hgained, rfl⟩
  · have hpoints : h'.points N = h.points N := points_congr (scan_plan hscan)
    refine ⟨hkept, hgained, ?_⟩
    rw [← hpoints]
    exact handOver_indices h' t c

end SweepHead

/-! ## Attempts -/

theorem Pass.execute_completed {calibration : Option (Calibration Float32 N)} {breakable : Bool}
    {p p' : Pass N} {w w' : Shared N ε}
    (h : p.execute board calibration breakable mask w = .ok ((.ok true, p'), w')) :
    p'.head.state = .completed := by
  obtain ⟨-, -, ⟨-, hr, -⟩ | ⟨-, b, u, w₁, -, hended⟩⟩ := execute_inv board.frames_true h
  · cases hr
  · cases hended with
    | completed hstate => exact hstate

namespace Observer

variable {o : Observer N ε} {s s' : SweepHead × Shared N ε}

/-- Nothing that the observer records, and no pass moved along. -/
structure Quiet (o : Observer N ε) (s s' : SweepHead × Shared N ε) : Prop where
  kept : s.1.Kept s'.1
  announced : o.announced s'.2 = o.announced s.2
  reported : o.reported s'.2 = o.reported s.2
  connected : o.connected s.2 → o.connected s'.2

theorem Gained.quiet {count : UInt32} (hg : o.Gained count [] [] s.2 s'.2)
    (hkept : s.1.Kept s'.1) : o.Quiet s s' where
  kept := hkept
  announced := by rw [hg.announced, List.append_nil]
  reported := by rw [hg.reported, List.append_nil]
  connected := hg.connected

instance : IsPreorder (SweepHead × Shared N ε) o.Quiet where
  refl _ := ⟨Or.inl rfl, rfl, rfl, id⟩
  trans _ _ _ h h' :=
    ⟨h.kept.trans h'.kept, h'.announced.trans h.announced, h'.reported.trans h.reported,
      fun hs => h'.connected (h.connected hs)⟩

/-- One thing that happens to the head and the shared state besides ticks. -/
inductive Between (o : Observer N ε) (board : Board (Shared N ε)) :
    SweepHead × Shared N ε → SweepHead × Shared N ε → Prop
  | scan {calibration : Option (Calibration Float32 N)} {mask : SweepMask} {h h' : SweepHead}
      {r : Except Failure (Traces Float32 N)} {w w' : Shared N ε} :
      h.scan board calibration mask w = .ok ((r, h'), w') → Between o board (h, w) (h', w')
  | sweep {mask : SweepMask} {c : Channel} {d : Delivery Float32} {h h' : SweepHead}
      {w w' : Shared N ε} :
      (SweepHead.sweeper board).sweep mask c (h, w) = .ok (d, (h', w')) →
      Between o board (h, w) (h', w')
  | aside {s s' : SweepHead × Shared N ε} : o.Quiet s s' → Between o board s s'

theorem Watches.between (ho : o.Watches board) (h : o.Between board s s') : o.Quiet s s' := by
  cases h with
  | scan h =>
    obtain ⟨hkept, hgained⟩ := SweepHead.scan_gained ho h
    exact hgained.quiet hkept
  | sweep h =>
    obtain ⟨hkept, hgained, -⟩ := SweepHead.sweep_gained ho h
    exact hgained.quiet hkept
  | aside h => exact h

/-- The observer records what is published and reported, once and in order. -/
structure Sees (o : Observer N ε) (board : Board (Shared N ε)) (host : Host N ε) : Prop extends
    o.Watches board where
  started : ∀ {mask w w'}, o.connected w →
    Shared.publish host.listen (.sweepStarted mask) w = .ok ((), w') →
    o.Gained 0 [.sweepStarted mask] [] w w'
  completed : ∀ {mask w w'}, o.connected w →
    Shared.publish host.listen (.sweepCompleted mask) w = .ok ((), w') →
    o.Gained 0 [.sweepCompleted mask] [] w w'
  canStart : Moves (o.Gained 0 [] []) host.canStart
  handleResult : ∀ {r w w'}, host.handleResult r w = .ok ((), w') → o.Gained 0 [] [r] w w'
  service : ∀ {i i' w w'}, host.service i w = .ok (i', w') →
    Relation.ReflTransGen (o.Between board) (i.head, w) (i'.head, w')

theorem Sees.served (ho : o.Sees board host) {i i' : Instrument N} {w w' : Shared N ε}
    (h : host.service i w = .ok (i', w')) : o.Quiet (i.head, w) (i'.head, w') := by
  have hle : o.Between board ≤ o.Quiet := fun _ _ => ho.between
  exact Relation.reflTransGen_le_of_le hle _ _ (ho.service h)

end Observer

namespace MeasurementLoop

variable {o : Observer N ε} {l l' l₀ : MeasurementLoop N} {breakable : Bool}
  {outcome : Except Failure Bool} {r : Option SweepResult} {w w' w₀ : Shared N ε}

theorem started_gained (ho : o.Sees board host) {h : SweepHead} (hconnected : o.connected w)
    (hp : Published host (∀ k, h.state ≠ .stepping k) (.sweepStarted mask) w w') :
    o.Gained 0 (opening h mask) [] w w' := by
  obtain ⟨hstepping, rfl⟩ | ⟨hover, hpublished⟩ := hp
  · obtain ⟨k, hk⟩ := not_forall_not.mp hstepping
    rw [opening_of_stepping hk]
    exact refl_of (o.Gained 0 [] []) _
  · rw [opening_of_not_stepping hover]
    exact ho.started hconnected hpublished

theorem completed_gained (ho : o.Sees board host) (hconnected : o.connected w)
    (hp : Published host (outcome = .ok true) (.sweepCompleted mask) w w') :
    o.Gained 0 (closing (completes outcome) mask) [] w w' := by
  obtain ⟨hnot, rfl⟩ | ⟨rfl, hpublished⟩ := hp
  · rw [show completes outcome = false from Bool.eq_false_iff.mpr (mt completed_iff.mp hnot)]
    exact refl_of (o.Gained 0 [] []) _
  · exact ho.completed hconnected hpublished

/-! ## Ticks -/

/-- The observer listens; every completion it heard was started, and so is the pass in
progress. -/
structure Announced (o : Observer N ε) (h : SweepHead) (w : Shared N ε) : Prop where
  connected : o.connected w
  paired : Paired (o.announced w)
  opened : ∀ k, h.state = .stepping k → Opened (o.announced w)

theorem Announced.quiet {s s' : SweepHead × Shared N ε} (ha : Announced o s.1 s.2)
    (hq : o.Quiet s s') : Announced o s'.1 s'.2 where
  connected := hq.connected ha.connected
  paired := hq.announced ▸ ha.paired
  opened k hk := by
    rw [hq.announced]
    obtain hstate | hover := hq.kept
    · exact ha.opened k (hstate.symm.trans hk)
    · exact absurd hk (hover k)

theorem Announced.gained {h : SweepHead} (ha : Announced o h w) {count : UInt32}
    {results : List SweepResult} (hg : o.Gained count [] results w w') : Announced o h w' where
  connected := hg.connected ha.connected
  paired := by simpa [hg.announced] using ha.paired
  opened := by simpa [hg.announced] using ha.opened

def callEvents (k : Call N ε) : List Event :=
  opening k.instrument.head k.mask ++ closing (completes k.outcome) k.mask

/-- What a tick announces that made this call, or none. -/
def tickEvents : Option (Call N ε) → List Event
  | none => []
  | some k => callEvents k

/-- A call counts a generation exactly if it completes its pass. -/
theorem Attempted.gained (ho : o.Sees board host) (hconnected : o.connected w) {k : Call N ε}
    (ha : Attempted board host l w k l' w') :
    o.Gained (if completes k.outcome then 1 else 0) (callEvents k) [] w w' := by
  let b : Buffers N := { w.buffers with role := .sweeping, points := l.instrument.head.points N }
  have hclaim : o.connected { w with buffers := b } := (ho.buffers w b).2.2 hconnected
  have hstarted := started_gained ho hclaim ha.started
  have hpass := hstarted.before (Pass.execute_moves ho.frames ho.tune ha.ran)
  -- the generation is counted and the role given back before the completion is announced
  have hheld := ho.held (b := b) ha.free rfl hpass
    (Buffers.finish_generation
      { k.stop.buffers with traces := l.givenBack k.mask k.outcome ⟨k.head, k.traces⟩ }
      (completes k.outcome))
    (Buffers.finish_role _ _)
  have hgained := hheld.trans (completed_gained ho (hheld.connected hconnected) ha.completed)
  rw [UInt32.add_zero, ← ha.instrument] at hgained
  exact hgained

theorem run_gained (ho : o.Sees board host) (hconnected : o.connected w)
    (h : l.run board host breakable l.instrument.activeMask w = .ok ((outcome, l'), w')) :
    ∃ called v, callRun board host breakable l.instrument w = .ok (called, v) ∧
      o.Gained (if completes outcome then 1 else 0) (tickEvents called) [] w w' ∧
      match called with
      | none => completes outcome = false ∧ l' = l
      | some k => k.Ran board ∧ k.instrument = l.instrument ∧ k.breakable = breakable ∧
          k.outcome = outcome ∧ l'.instrument = { l.instrument with head := k.head } := by
  obtain ⟨called, v, hcall, hmade⟩ := run_called ho.frames h
  refine ⟨called, v, hcall, ?_⟩
  cases called with
  | none =>
    obtain ⟨⟨e, rfl⟩, rfl, hmoved⟩ := hmade
    exact ⟨hmoved, rfl, rfl⟩
  | some k =>
    obtain ⟨rfl, rfl, w₀, hmoved, ha⟩ := hmade
    exact ⟨hmoved.after (ha.gained ho (hmoved.connected hconnected)), ha.ran, ha.instrument, rfl,
      rfl, ha.left⟩

/-- A tick reports its attempt once, and announces what its call does. -/
theorem tick_announces (ho : o.Sees board host) (hconnected : o.connected w)
    (h : l.tick board host w = .ok ((r, l'), w')) :
    ∃ i w₁ allowed w₂ called v, host.service l.instrument w = .ok (i, w₁) ∧
      host.canStart w₁ = .ok (allowed, w₂) ∧ l.calling board host w = .ok (called, v) ∧
      r.isSome = allowed.isSome ∧ o.Quiet (l.instrument.head, w) (i.head, w₁) ∧
      o.Gained (if r.any (·.completed) then 1 else 0) (tickEvents called) r.toList w₁ w' ∧
      match called with
      | none => r.any (·.completed) = false ∧ l'.instrument = i
      | some k => k.Ran board ∧ k.instrument = i ∧ allowed = some k.breakable ∧
          r = some ⟨k.mask, completes k.outcome⟩ ∧ l'.instrument = { i with head := k.head } := by
  obtain ⟨i, w₁, allowed, w₂, hservice, hallowed, htick⟩ := tick_inv h
  have hquiet := ho.served hservice
  have hasked := ho.canStart hallowed
  unfold calling
  rw [Run.bind_ok _ hservice, Run.bind_ok _ hallowed]
  cases allowed with
  | none =>
    obtain ⟨rfl, rfl, late, hidle⟩ := htick
    have hwaited := hasked.after (Moves.waitUntil ho.frames.now ho.frames.relax (.pure _) hidle)
    exact ⟨i, w₁, none, w₂, none, w₂, hservice, hallowed, rfl, rfl, hquiet, hwaited, rfl, rfl⟩
  | some breakable =>
    obtain ⟨outcome, w₃, hrun, rfl, hresult⟩ := htick
    have hready : o.connected w₂ := hasked.connected (hquiet.connected hconnected)
    obtain ⟨called, v, hcall, hgained, hcalled⟩ :=
      run_gained ho (l := { l with instrument := i }) hready hrun
    have hall := (hasked.after hgained).trans (ho.handleResult hresult)
    rw [UInt32.add_zero, List.append_nil] at hall
    refine ⟨i, w₁, some breakable, w₂, called, v, hservice, hallowed, hcall, rfl, hquiet, hall, ?_⟩
    cases called with
    | none =>
      obtain ⟨hnot, rfl⟩ := hcalled
      exact ⟨hnot, rfl⟩
    | some k =>
      obtain ⟨hran, hinstrument, rfl, rfl, hleft⟩ := hcalled
      have hmask : i.activeMask = k.mask := congrArg Instrument.activeMask hinstrument.symm
      exact ⟨hran, hinstrument, rfl, by rw [hmask], hleft⟩

/-- A call announces its pass before it can leave one in progress. -/
theorem Announced.called {h : SweepHead} (ha : Announced o h w) {k : Call N ε} {count : UInt32}
    {results : List SweepResult} (hran : k.Ran board) (hhead : k.instrument.head = h)
    (hg : o.Gained count (callEvents k) results w w') : Announced o k.head w' := by
  have hover : completes k.outcome = true → ∀ n, k.head.state ≠ .stepping n := by
    intro hdone n hn
    have hcompleted : k.outcome = .ok true := completed_iff.mp hdone
    rw [Call.Ran, hcompleted] at hran
    cases hn.symm.trans (Pass.execute_completed hran)
  subst hhead
  obtain ⟨hpaired, hopened⟩ := ha.paired.attempt k.mask ha.opened hover
  refine ⟨hg.connected ha.connected, ?_, ?_⟩
  · rw [hg.announced]
    exact hpaired
  · rw [hg.announced]
    exact hopened

/-- A tick reports its attempt once, and counts a generation and announces one completion
exactly if it reports a completed pass. -/
theorem tick_gained (ho : o.Sees board host) (ha : Announced o l.instrument.head w)
    (h : l.tick board host w = .ok ((r, l'), w')) :
    ∃ i w₁ allowed w₂ events, host.service l.instrument w = .ok (i, w₁) ∧
      host.canStart w₁ = .ok (allowed, w₂) ∧ r.isSome = allowed.isSome ∧
      o.Quiet (l.instrument.head, w) (i.head, w₁) ∧
      o.Gained (if r.any (·.completed) then 1 else 0) events r.toList w₁ w' ∧
      events.countP Event.isCompletion = (if r.any (·.completed) then 1 else 0) ∧
      Announced o l'.instrument.head w' := by
  obtain ⟨i, w₁, allowed, w₂, called, v, hservice, hallowed, -, hsome, hquiet, hgained, hcalled⟩ :=
    tick_announces ho ha.connected h
  have hserved := ha.quiet hquiet
  refine ⟨i, w₁, allowed, w₂, _, hservice, hallowed, hsome, hquiet, hgained, ?_⟩
  cases called with
  | none =>
    obtain ⟨hnot, rfl⟩ := hcalled
    rw [hnot]
    exact ⟨rfl, hserved.gained hgained⟩
  | some k =>
    obtain ⟨hran, hinstrument, -, rfl, hleft⟩ := hcalled
    rw [hleft]
    exact ⟨countP_announced _ _, hserved.called hran (congrArg Instrument.head hinstrument) hgained⟩

/-! ## Runs -/

/-- A tick, or anything else that happens between ticks. -/
inductive Turn (o : Observer N ε) (board : Board (Shared N ε)) (host : Host N ε) :
    MeasurementLoop N × Shared N ε → MeasurementLoop N × Shared N ε → Prop
  | tick {l l' : MeasurementLoop N} {r : Option SweepResult} {w w' : Shared N ε} :
      l.tick board host w = .ok ((r, l'), w') → Turn o board host (l, w) (l', w')
  | between {l l' : MeasurementLoop N} {w w' : Shared N ε} :
      o.Between board (l.instrument.head, w) (l'.instrument.head, w') →
      Turn o board host (l, w) (l', w')

theorem Announced.turns (ho : o.Sees board host) (ha : Announced o l₀.instrument.head w₀)
    (hrun : Relation.ReflTransGen (Turn o board host) (l₀, w₀) (l, w)) :
    Announced o l.instrument.head w := by
  generalize hs : (l, w) = s at hrun
  have hinvariant : Announced o s.1.instrument.head s.2 := by
    clear hs
    induction hrun with
    | refl => exact ha
    | tail _ hturn ih =>
      cases hturn with
      | tick h =>
        obtain ⟨-, -, -, -, -, -, -, -, -, -, -, hafter⟩ := tick_gained ho ih h
        exact hafter
      | between h => exact ih.quiet (ho.between h)
  rw [← hs] at hinvariant
  exact hinvariant

theorem counted_iff {x y : UInt32} {c : Bool} (h : y = x + if c then 1 else 0) :
    (c = true ↔ y = x + 1) ∧ (c = false → y = x) := by
  cases c <;> simp_all

/-- What ticks and sessions report, from a start outside of any pass with nothing announced yet.
Every completion was preceded by a start since the completion before it. A tick reports its
attempt once; it reports a completed pass exactly if it counted a generation since the host
served the instrument, and exactly if it announced one completion. A pass of a session succeeds
exactly if it counted a generation and handed over all points in order, and otherwise hands over
none. The producer's role is given back whenever it was taken. -/
theorem reports (ho : o.Sees board host) (hover : ∀ k, l₀.instrument.head.state ≠ .stepping k)
    (hconnected : o.connected w₀) (hsilent : o.announced w₀ = [])
    (hrun : Relation.ReflTransGen (Turn o board host) (l₀, w₀) (l, w)) :
    Paired (o.announced w) ∧
    (∀ r l' w', l.tick board host w = .ok ((r, l'), w') →
      ∃ i w₁ allowed w₂ events, host.service l.instrument w = .ok (i, w₁) ∧
        host.canStart w₁ = .ok (allowed, w₂) ∧ r.isSome = allowed.isSome ∧
        w'.buffers.isSweeping = w₁.buffers.isSweeping ∧
        o.reported w' = o.reported w ++ r.toList ∧ o.announced w' = o.announced w ++ events ∧
        (r = none → w'.buffers.generation = w₁.buffers.generation ∧
          events.countP Event.isCompletion = 0) ∧
        ∀ mask completed, r = some ⟨mask, completed⟩ →
          (completed = true ↔ w'.buffers.generation = w₁.buffers.generation + 1) ∧
          (completed = true ↔ events.countP Event.isCompletion = 1) ∧
          (completed = false → w'.buffers.generation = w₁.buffers.generation ∧
            events.countP Event.isCompletion = 0)) ∧
    (∀ h v calibration mask r h' v', SweepHead.scan board calibration mask h v =
        .ok ((r, h'), v') →
      v'.buffers.isSweeping = v.buffers.isSweeping ∧ o.announced v' = o.announced v ∧
        (r.isOk = true ↔ v'.buffers.generation = v.buffers.generation + 1) ∧
        (r.isOk = false → v'.buffers.generation = v.buffers.generation)) ∧
    ∀ h v mask c d h' v', (SweepHead.sweeper board).sweep mask c (h, v) = .ok (d, (h', v')) →
      v'.buffers.isSweeping = v.buffers.isSweeping ∧ o.announced v' = o.announced v ∧
        (d.outcome.isOk = true ↔ v'.buffers.generation = v.buffers.generation + 1 ∧
          d.values.map (·.1) = List.range (h.points N).toNat) ∧
        (d.outcome.isOk = false → v'.buffers.generation = v.buffers.generation ∧
          d.values = []) := by
  have hstart : Announced o l₀.instrument.head w₀ :=
    ⟨hconnected, hsilent ▸ paired_nil, fun k hk => absurd hk (hover k)⟩
  have ha := hstart.turns ho hrun
  refine ⟨ha.paired, fun r l' w' h => ?_, fun h v calibration mask r h' v' hscan => ?_,
    fun h v mask c d h' v' hsweep => ?_⟩
  · obtain ⟨i, w₁, allowed, w₂, events, hservice, hallowed, hsome, hquiet, hgained, hcount, -⟩ :=
      tick_gained ho ha h
    refine ⟨i, w₁, allowed, w₂, events, hservice, hallowed, hsome, hgained.sweeping, ?_, ?_, ?_,
      ?_⟩
    · rw [hgained.reported, hquiet.reported]
    · rw [hgained.announced, hquiet.announced]
    · rintro rfl
      exact ⟨(counted_iff hgained.generation).2 rfl, hcount⟩
    · rintro mask completed rfl
      obtain ⟨hiff, hsame⟩ := counted_iff hgained.generation
      refine ⟨hiff, ?_, fun hnot => ⟨hsame hnot, ?_⟩⟩
      · rw [hcount]
        cases completed <;> simp
      · subst hnot
        exact hcount
  · obtain ⟨-, hgained⟩ := SweepHead.scan_gained ho.toWatches hscan
    exact ⟨hgained.sweeping, by rw [hgained.announced, List.append_nil],
      counted_iff hgained.generation⟩
  · obtain ⟨-, hgained, hvalues⟩ := SweepHead.sweep_gained ho.toWatches hsweep
    obtain ⟨hiff, hsame⟩ := counted_iff hgained.generation
    refine ⟨hgained.sweeping, by rw [hgained.announced, List.append_nil], ?_, fun hnot => ?_⟩
    · rw [← hiff]
      refine ⟨fun hok => ⟨hok, ?_⟩, And.left⟩
      rw [hvalues, if_pos hok]
    · rw [hnot] at hvalues
      exact ⟨hsame hnot, List.map_eq_nil_iff.mp hvalues⟩

end MeasurementLoop

/-! ## A listener that keeps what it hears -/

structure Recorder where
  heard : List Event := []
  results : List SweepResult := []

namespace Recorder

/-- Every capture completes at the next interrupt, and user input is always waiting. -/
def prompt : Board (Shared 2 Recorder) where
  now := pure 0
  relax := modify fun w => { w with capture := { w.capture with remaining := 0 } }
  tune _ := pure 0
  band _ _ := 0
  select _ := pure ()
  inputPending := pure true

/-- A host that always lets a breakable pass start, and whose listener is recorded. -/
def recording : Host 2 Recorder where
  canStart := return some true
  handleResult r := modify fun w =>
    { w with environment.results := w.environment.results ++ [r] }
  listen d := modify fun w => { w with environment.heard := w.environment.heard ++ [d.event] }

def bus : EventBus where
  slots := 2
  subscriptions := [(.sweepStarted, 0), (.sweepCompleted, 0)]

def observer : Observer 2 Recorder where
  announced w := w.environment.heard
  reported w := w.environment.results
  connected w := w.bus = some bus

theorem publish_heard {w w' : Shared 2 Recorder} {e : Event} (hb : w.bus = some bus)
    (hone : bus.deliveries e = [⟨0, e⟩])
    (h : Shared.publish recording.listen e w = .ok ((), w')) :
    observer.Gained 0 [e] [] w w' := by
  have hheard : (bus.call (.publish e)).1.heard = [⟨0, e⟩] := hone
  rw [Shared.publish_call hb, hheard] at h
  cases h
  exact ⟨(UInt32.add_zero _).symm, rfl, rfl, (List.append_nil _).symm, fun _ => rfl⟩

theorem capture_quiet (w : Shared 2 Recorder) (c : Capture) :
    observer.Gained 0 [] [] w { w with capture := c } :=
  ⟨(UInt32.add_zero _).symm, rfl, (List.append_nil _).symm, (List.append_nil _).symm, id⟩

theorem observer_sees : observer.Sees prompt recording where
  frames.now := .pure _
  frames.relax := .modify fun w => capture_quiet w _
  frames.select _ := .pure _
  frames.takeSettlingCycles := .pure _
  frames.inputPending := .pure _
  frames.indicate _ := .pure _
  frames.capture := capture_quiet
  tune _ := .pure _
  buffers _ _ := ⟨rfl, rfl, id⟩
  started hb h := publish_heard hb rfl h
  completed hb h := publish_heard hb rfl h
  canStart := .pure _
  handleResult h := by
    cases h
    exact ⟨(UInt32.add_zero _).symm, rfl, (List.append_nil _).symm, rfl, id⟩
  service h := by
    cases h
    exact .refl

def fresh : Shared 2 Recorder where
  bus := some bus
  environment := {}

def handed (r : SweepResult) (w : Shared 2 Recorder) : Shared 2 Recorder :=
  { w with environment.results := w.environment.results ++ [r] }

/-- A recorded host that lets passes start as it is told. -/
def starting (c : Run (Shared 2 Recorder) (Option Bool)) : Host 2 Recorder :=
  { recording with canStart := c }

theorem starting_tick {c : Run (Shared 2 Recorder) (Option Bool)} {l l' : MeasurementLoop 2}
    {w w' : Shared 2 Recorder} {breakable : Bool} {mask : SweepMask}
    {outcome : Except Failure Bool} (hallowed : c w = .ok (some breakable, w))
    (hmask : l.instrument.activeMask = mask)
    (hrun : l.run prompt recording breakable mask w = .ok ((outcome, l'), w')) :
    l.tick prompt (starting c) w = .ok ((some ⟨mask, MeasurementLoop.completes outcome⟩, l'),
      handed ⟨mask, MeasurementLoop.completes outcome⟩ w') := by
  have hserved : (starting c).service l.instrument w = .ok (l.instrument, w) := rfl
  have hrun' : l.run prompt (starting c) breakable mask w = .ok ((outcome, l'), w') := hrun
  rw [MeasurementLoop.tick_eq prompt hserved hallowed hmask]
  exact Run.bind_ok _ hrun'

open TestSet in
/-- The first call yields before point 1 and the second one completes a pass, breakable or not,
whatever the comparisons say. -/
theorem runs_sliced : ∀ later a b c d, meets (reflecting.run prompt recording true
    (flagged a b c d reflecting.instrument) fresh) fun x =>
      x.1.2.instrument.head.state == .stepping 1 && x.1.2.instrument.head.points 2 == 2 &&
        !MeasurementLoop.completes x.1.1 &&
        meets (x.1.2.run prompt recording later (flagged a b c d x.1.2.instrument)
          (handed ⟨flagged a b c d reflecting.instrument, false⟩ x.2)) fun y =>
            MeasurementLoop.completes y.1.1 := by
  decide +kernel

open TestSet in
/-- A breakable tick yields inside its pass, and the next one completes a pass. -/
theorem starting_ticks {c : Run (Shared 2 Recorder) (Option Bool)} {later : Bool}
    (hfirst : c fresh = .ok (some true, fresh))
    (hlater : ∀ r w, c (handed r w) = .ok (some later, handed r w)) :
    ∃ mask head l₁ w₁ mask' l₂ w₂,
      reflecting.tick prompt (starting c) fresh = .ok ((some ⟨mask, false⟩, l₁), w₁) ∧
      l₁.instrument = { reflecting.instrument with head } ∧ head.state = .stepping 1 ∧
      head.points 2 = 2 ∧ c w₁ = .ok (some later, w₁) ∧
      l₁.tick prompt (starting c) w₁ = .ok ((some ⟨mask', true⟩, l₂), w₂) := by
  obtain ⟨a, b, c', d, hmask⟩ := activeMask_flagged
  obtain ⟨⟨⟨r, l₁⟩, w₁⟩, hrun, hyields⟩ := meets_inv (runs_sliced later a b c' d)
  simp only [Bool.and_eq_true, beq_iff_eq, Bool.not_eq_true'] at hyields
  obtain ⟨⟨⟨hstate, hpoints⟩, hyielded⟩, hsecond⟩ := hyields
  obtain ⟨⟨⟨r', l₂⟩, w₂⟩, hrun', hall⟩ := meets_inv hsecond
  obtain ⟨head, hl⟩ := MeasurementLoop.run_instrument hrun
  have hsettings : l₁.instrument.settings.correction = {} := by
    rw [hl]
    rfl
  have htick := starting_tick hfirst (hmask _ rfl) hrun
  have htick' := starting_tick (hlater _ _) (hmask _ hsettings) hrun'
  rw [hyielded] at htick
  rw [show MeasurementLoop.completes r' = true from hall] at htick'
  rw [hl] at hstate hpoints
  exact ⟨_, head, l₁, _, _, l₂, _, htick, hl, hstate, hpoints, hlater _ _, htick'⟩

theorem sliced_ticks : ∃ mask l₁ w₁ mask' l₂ w₂,
    TestSet.reflecting.tick prompt recording fresh = .ok ((some ⟨mask, false⟩, l₁), w₁) ∧
    l₁.tick prompt recording w₁ = .ok ((some ⟨mask', true⟩, l₂), w₂) := by
  obtain ⟨mask, -, l₁, w₁, mask', l₂, w₂, htick, -, -, -, -, htick'⟩ :=
    starting_ticks (c := return some true) rfl fun _ _ => rfl
  exact ⟨mask, l₁, w₁, mask', l₂, w₂, htick, htick'⟩

/-- A pass of two calls is reported twice, announced once and counted once. -/
theorem reports_sliced : ∃ mask l₁ w₁ mask' l₂ w₂ events,
    TestSet.reflecting.tick prompt recording fresh = .ok ((some ⟨mask, false⟩, l₁), w₁) ∧
    l₁.tick prompt recording w₁ = .ok ((some ⟨mask', true⟩, l₂), w₂) ∧
    w₂.environment.results = w₁.environment.results ++ [⟨mask', true⟩] ∧
    w₂.environment.heard = w₁.environment.heard ++ events ∧
    events.countP Event.isCompletion = 1 ∧
    w₂.buffers.generation = w₁.buffers.generation + 1 ∧
    w₂.buffers.isSweeping = w₁.buffers.isSweeping ∧ Paired w₁.environment.heard := by
  obtain ⟨mask, l₁, w₁, mask', l₂, w₂, htick, htick'⟩ := sliced_ticks
  have hover : ∀ k, TestSet.reflecting.instrument.head.state ≠ .stepping k := fun k hk => by
    cases hk
  have hconnected : observer.connected fresh := rfl
  have hsilent : observer.announced fresh = [] := rfl
  obtain ⟨hpaired, hticks, -⟩ := MeasurementLoop.reports observer_sees hover hconnected hsilent
    (.single (.tick htick))
  obtain ⟨i, v, allowed, v', events, hservice, -, -, hreleased, hresults, hheard, -, hdone⟩ :=
    hticks _ _ _ htick'
  cases hservice
  obtain ⟨hcounted, hannounced, -⟩ := hdone _ _ rfl
  exact ⟨mask, l₁, w₁, mask', l₂, w₂, events, htick, htick', hresults, hheard,
    hannounced.mp rfl, hcounted.mp rfl, hreleased, hpaired⟩

end Recorder

end NetworkAnalyzer
