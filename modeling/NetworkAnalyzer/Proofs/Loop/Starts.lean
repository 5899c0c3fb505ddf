import NetworkAnalyzer.Proofs.Loop.Reports

/-!
# Which starts listeners hear

The loop announces a call before it makes it, and decides from the head alone: a head inside a
pass is taken for one that goes on, any other for one that begins. The call itself also looks at
the break flag and at the mask.

| head          | call                            | begins a pass    | announced |
|---------------|---------------------------------|------------------|-----------|
| outside       | not breakable                   | yes              | yes       |
| outside       | breakable, mask not empty       | yes              | yes       |
| outside       | breakable, mask empty           | no (`rests`)     | yes       |
| inside a pass | not breakable                   | yes (`restarts`) | no        |
| inside a pass | breakable, mask empty           | no               | no        |
| inside a pass | breakable, points left          | no               | no        |
| inside a pass | breakable, no point left        | yes (`restarts`) | no        |

A call that is not breakable begins at point 0 even inside a pass, and nobody hears of it; a
breakable one with nothing selected does nothing even outside of one, and is heard as a start.

* `Call.entry`: how a call enters its pass. `Call.Ran.entered`: what it measures accordingly.
* `Call.announced_iff`: the calls for which the announcement and the call agree.
* `tick_starts`: the start that one tick announces.
* `Ticks.starts_heard`: the starts heard over a run are those of the calls made outside a pass.
* `count_begun`: the passes begun, and how many starts too few or too many are heard of them.
* `announced_starts`: all of it, for every run of ticks.
* `restart_unheard`: two passes are begun, and the start of one is heard.
-/

namespace NetworkAnalyzer

variable {N : Nat} {ε : Type} {board : Board (Shared N ε)} {host : Host N ε}

/-! ## How a call enters its pass -/

namespace Call

/-- How a call enters its pass. -/
inductive Entry where
  /-- Nothing is selected, and the call may do without. -/
  | idle
  /-- On from the point the pass stands before. -/
  | resumed (next : UInt16)
  /-- From point 0 on. -/
  | begun
  deriving DecidableEq, Repr

variable {k : Call N ε}

def entry (k : Call N ε) : Entry :=
  if k.breakable && k.mask.isEmpty then .idle
  else match k.instrument.head.state with
    | .stepping p => if k.breakable && p < k.instrument.head.points N then .resumed p else .begun
    | _ => .begun

def inPass (k : Call N ε) : Bool := k.instrument.head.state matches .stepping _

/-- The call starts a new pass, as against resuming one or doing nothing. -/
def begins (k : Call N ε) : Bool := k.entry matches .begun

/-- The call begins a pass in the middle of another. -/
def restarts (k : Call N ε) : Bool := k.inPass && k.begins

/-- The call does nothing, outside of any pass. -/
def rests (k : Call N ε) : Bool := !k.inPass && k.entry matches .idle

/-- The call measured the points from `a` on, in order, and ended. -/
def MeasuredFrom (board : Board (Shared N ε)) (k : Call N ε) (a : Nat) : Prop :=
  ∃ b u v, Pass.Stretch board.Later board k.point a b k.start.buffers.traces k.start u v ∧
    Pass.Ended board.Later board k.point (k.instrument.head.points N).toNat u v b k.outcome
      ⟨k.head, k.traces⟩ k.stop

/-- What a call measures that enters its pass like this. -/
def Entered (board : Board (Shared N ε)) (k : Call N ε) : Entry → Prop
  | .idle => k.outcome = .ok false ∧ k.traces = k.start.buffers.traces ∧ k.last = k.first
  | .resumed next => k.MeasuredFrom board next.toNat
  | .begun => k.MeasuredFrom board 0

theorem Ran.measured (h : k.Ran board) (hselected : (k.breakable && k.mask.isEmpty) = false) :
    k.MeasuredFrom board k.first := by
  obtain ⟨-, -, ⟨hempty, -⟩ | ⟨-, hmeasured⟩⟩ := Pass.execute_inv board.frames_later h
  · rw [hselected] at hempty
    cases hempty
  · exact hmeasured

theorem first_of_resumed {p : UInt16} (hstate : k.instrument.head.state = .stepping p)
    (hbreakable : k.breakable = true) (hp : p < k.instrument.head.points N) :
    k.first = p.toNat := by
  unfold first
  rw [hbreakable]
  refine SweepHead.startPoint_of_yielded (UInt16.lt_iff_toNat_lt.mp hp) ?_
  rw [hstate]
  exact congrArg PassState.stepping UInt16.ofNat_toNat.symm

theorem first_of_restarted {p : UInt16} (hstate : k.instrument.head.state = .stepping p)
    (hover : ¬(k.breakable = true ∧ p < k.instrument.head.points N)) : k.first = 0 := by
  unfold first SweepHead.startPoint
  have hnext : k.instrument.head.nextPoint N = p := by simp [SweepHead.nextPoint, hstate]
  rw [hnext, if_pos]
  cases hbreakable : k.breakable
  · simp
  · simpa [hbreakable] using hover

theorem Ran.entered (h : k.Ran board) : k.Entered board k.entry := by
  unfold entry
  split
  · rename_i hidle
    obtain ⟨-, -, ⟨-, houtcome, htraces, hnext, -⟩ | ⟨hselected, -⟩⟩ :=
      Pass.execute_inv board.frames_later h
    · exact ⟨houtcome, htraces, hnext⟩
    · rw [hidle] at hselected
      cases hselected
  · rename_i hselected
    have hmeasured := h.measured (Bool.eq_false_iff.mpr hselected)
    split
    · rename_i p hstate
      split
      · rename_i hgoes
        simp only [Bool.and_eq_true, decide_eq_true_eq] at hgoes
        rwa [first_of_resumed hstate hgoes.1 hgoes.2] at hmeasured
      · rename_i hover
        simp only [Bool.and_eq_true, decide_eq_true_eq] at hover
        rwa [first_of_restarted hstate hover] at hmeasured
    · rename_i hout
      have hfirst : k.first = 0 := SweepHead.startPoint_of_not_stepping hout _
      rwa [hfirst] at hmeasured

theorem begins_iff : k.begins = true ↔ k.entry = .begun := by
  unfold begins
  cases k.entry <;> simp

/-- Inside a pass, a call begins another unless it is breakable and either has nothing to do or
has a point left. -/
theorem not_restarts_iff : k.restarts = false ↔ ∀ p, k.instrument.head.state = .stepping p →
    k.breakable = true ∧ (k.mask.isEmpty = true ∨ p < k.instrument.head.points N) := by
  unfold restarts inPass begins entry
  cases k.instrument.head.state with
  | stepping p =>
    by_cases hp : p < k.instrument.head.points N <;>
      cases k.breakable <;> cases k.mask.isEmpty <;> simp [hp]
  | idle | completed | aborted => simp

theorem not_rests_iff : k.rests = false ↔
    ((∀ p, k.instrument.head.state ≠ .stepping p) → k.breakable = true →
      k.mask.isEmpty = false) := by
  unfold rests inPass entry
  cases k.instrument.head.state <;> cases k.breakable <;> cases k.mask.isEmpty <;> simp

theorem inPass_of_resumed {p : UInt16} (h : k.entry = .resumed p) : k.inPass = true := by
  unfold entry at h
  unfold inPass
  cases hstate : k.instrument.head.state with
  | stepping q => rfl
  | idle | completed | aborted =>
    rw [hstate] at h
    split at h <;> cases h

/-- The calls made outside a pass are those that begin one, but for the calls that restart and
those that rest. -/
theorem announced_iff : (k.inPass = false ↔ k.begins = true) ↔
    k.restarts = false ∧ k.rests = false := by
  unfold restarts rests begins
  cases hentry : k.entry with
  | idle => cases k.inPass <;> simp
  | resumed p => simp [inPass_of_resumed hentry]
  | begun => cases k.inPass <;> simp

/-- A pass that is begun is announced or restarted; a call that is announced begins a pass or
rests. -/
theorem begun_balance : (if !k.inPass then 1 else 0) + (if k.restarts then 1 else 0) =
    (if k.begins then 1 else 0) + (if k.rests then 1 else 0 : Nat) := by
  unfold restarts rests begins
  cases hentry : k.entry with
  | idle => cases k.inPass <;> rfl
  | resumed p => simp [inPass_of_resumed hentry]
  | begun => cases k.inPass <;> rfl

end Call

/-! ## The starts that are heard -/

def Event.startOf : Event → Option SweepMask
  | .sweepStarted mask => some mask
  | _ => none

def startsIn (log : List Event) : List SweepMask := log.filterMap Event.startOf

theorem startsIn_append (log events : List Event) :
    startsIn (log ++ events) = startsIn log ++ startsIn events := List.filterMap_append

namespace MeasurementLoop

variable {o : Observer N ε} {l l' l₀ : MeasurementLoop N} {r : Option SweepResult}
  {calls : List (Call N ε)} {w w' w₀ : Shared N ε}

/-- A call is announced as the start of a pass exactly if it is made outside of one. -/
theorem startsIn_callEvents (k : Call N ε) :
    startsIn (callEvents k) = if k.inPass then [] else [k.mask] := by
  unfold callEvents opening closing Call.inPass
  cases k.instrument.head.state <;> cases completes k.outcome <;> rfl

theorem startsIn_tickEvents (called : Option (Call N ε)) :
    startsIn (tickEvents called) = (called.toList.filter (!·.inPass)).map Call.mask := by
  cases called with
  | none => rfl
  | some k =>
    rw [tickEvents, startsIn_callEvents]
    cases hk : k.inPass <;> simp [hk]

theorem tick_starts (ho : o.Sees board host) (hconnected : o.connected w)
    (h : l.tick board host w = .ok ((r, l'), w')) :
    ∃ called v, l.calling board host w = .ok (called, v) ∧ o.connected w' ∧
      (∀ k ∈ called, k.Ran board) ∧
      startsIn (o.announced w') = startsIn (o.announced w) ++ startsIn (tickEvents called) := by
  obtain ⟨i, w₁, allowed, w₂, called, v, -, -, hcalling, -, hquiet, hgained, hcalled⟩ :=
    tick_announces ho hconnected h
  refine ⟨called, v, hcalling, hgained.connected (hquiet.connected hconnected), ?_, ?_⟩
  · intro k hk
    obtain rfl : called = some k := hk
    exact hcalled.1
  · rw [hgained.announced, hquiet.announced, startsIn_append]

/-- Over a run, the starts heard are those of the calls made outside a pass. -/
theorem Ticks.starts_heard (ho : o.Sees board host) (hconnected : o.connected w₀)
    (hrun : Ticks board host l₀ w₀ calls l w) :
    o.connected w ∧ (∀ k ∈ calls, k.Ran board) ∧
      startsIn (o.announced w) = startsIn (o.announced w₀) ++
        ((calls.filter (!·.inPass)).map Call.mask).reverse := by
  induction hrun with
  | start => simpa using hconnected
  | @tick calls called l l' r w w' v _ hcalling htick ih =>
    obtain ⟨hconnected', hran, hheard⟩ := ih
    obtain ⟨called', v', hcalling', hafter, hran', hheard'⟩ := tick_starts ho hconnected' htick
    cases hcalling.symm.trans hcalling'
    refine ⟨hafter, ?_, ?_⟩
    · intro k hk
      rw [List.mem_append, Option.mem_toList] at hk
      rcases hk with hk | hk
      · exact hran' k hk
      · exact hran k hk
    · rw [hheard', hheard, startsIn_tickEvents, List.filter_append, List.map_append,
        List.reverse_append, List.append_assoc]
      cases called with
      | none => rfl
      | some k => cases hk : k.inPass <;> simp [hk]

/-- How many passes are begun, and how many starts are heard of them. -/
theorem count_begun (calls : List (Call N ε)) :
    calls.countP (!·.inPass) + calls.countP Call.restarts =
      calls.countP Call.begins + calls.countP Call.rests := by
  induction calls with
  | nil => rfl
  | cons k calls ih =>
    have hk := k.begun_balance
    simp only [List.countP_cons]
    omega

/-- Which starts are heard over any run of ticks. A start is heard of each call made outside a
pass, with the mask of the call, and of no other. That is a start for each pass begun unless
some call restarts or rests: a restarted pass is not announced, a call that rests is. A tick
announces its call exactly if it begins a pass, except if the call begins inside a pass because
it is not breakable or no point is left, or if it is breakable outside of one with nothing
selected. -/
theorem announced_starts (ho : o.Sees board host) (hconnected : o.connected w₀)
    (hrun : Ticks board host l₀ w₀ calls l w) :
    (∀ k ∈ calls, k.Ran board ∧ k.Entered board k.entry) ∧
    startsIn (o.announced w) = startsIn (o.announced w₀) ++
      ((calls.filter (!·.inPass)).map Call.mask).reverse ∧
    calls.countP (!·.inPass) + calls.countP Call.restarts =
      calls.countP Call.begins + calls.countP Call.rests ∧
    ((∀ k ∈ calls, k.restarts = false ∧ k.rests = false) →
      startsIn (o.announced w) = startsIn (o.announced w₀) ++
        ((calls.filter Call.begins).map Call.mask).reverse) ∧
    ∀ r l' w', l.tick board host w = .ok ((r, l'), w') →
      ∃ called v heard, l.calling board host w = .ok (called, v) ∧
        startsIn (o.announced w') = startsIn (o.announced w) ++ heard ∧
        (called = none → heard = []) ∧
        ∀ k, called = some k → k.Ran board ∧ k.Entered board k.entry ∧
          heard = (if k.inPass then [] else [k.mask]) ∧
          ((heard = [k.mask] ↔ k.entry = .begun) ↔
            (∀ p, k.instrument.head.state = .stepping p → k.breakable = true ∧
              (k.mask.isEmpty = true ∨ p < k.instrument.head.points N)) ∧
            ((∀ p, k.instrument.head.state ≠ .stepping p) →
              k.breakable = true → k.mask.isEmpty = false)) := by
  obtain ⟨hconnected', hran, hheard⟩ := hrun.starts_heard ho hconnected
  refine ⟨fun k hk => ⟨hran k hk, (hran k hk).entered⟩, hheard, count_begun calls, ?_, ?_⟩
  · intro hall
    have hsame : ∀ k ∈ calls, (!k.inPass) = k.begins := by
      intro k hk
      have hagree := Call.announced_iff.mpr (hall k hk)
      rw [Bool.eq_iff_iff, Bool.not_eq_true', hagree]
    rw [hheard, List.filter_congr hsame]
  · intro r l' w' htick
    obtain ⟨called, v, hcalling, -, hran', hheard'⟩ := tick_starts ho hconnected' htick
    refine ⟨called, v, _, hcalling, hheard', ?_, ?_⟩
    · rintro rfl
      rfl
    · rintro k rfl
      have hk := hran' k rfl
      refine ⟨hk, hk.entered, startsIn_callEvents k, ?_⟩
      have hheard : startsIn (tickEvents (some k)) = [k.mask] ↔ k.inPass = false := by
        rw [tickEvents, startsIn_callEvents]
        cases k.inPass <;> simp
      rw [hheard, ← Call.begins_iff, Call.announced_iff, Call.not_restarts_iff, Call.not_rests_iff]

end MeasurementLoop

/-! ## A host that changes its mind -/

namespace Recorder

/-- Lets the first pass start breakable, and the later ones as `later` says. -/
def wavers (later : Bool) : Run (Shared 2 Recorder) (Option Bool) := do
  return some ((← get).environment.results.isEmpty || later)

theorem wavers_sees (later : Bool) : observer.Sees prompt (starting (wavers later)) :=
  { observer_sees with canStart := .bind .get fun _ => .pure _ }

theorem wavers_later (later : Bool) (r : SweepResult) (w : Shared 2 Recorder) :
    wavers later (handed r w) = .ok (some later, handed r w) := by
  have hsome : (handed r w).environment.results.isEmpty = false := by simp [handed]
  change (pure (some ((handed r w).environment.results.isEmpty || later)) :
    Run (Shared 2 Recorder) (Option Bool)) (handed r w) = _
  rw [hsome]
  rfl

open TestSet in
theorem flagged_selects : ∀ a b c d, (flagged a b c d reflecting.instrument).isEmpty = false := by
  decide

open TestSet in
theorem reflecting_selects (head : SweepHead) :
    ({ reflecting.instrument with head } : Instrument 2).activeMask.isEmpty = false := by
  obtain ⟨a, b, c, d, hmask⟩ := activeMask_flagged
  rw [hmask _ rfl]
  exact flagged_selects a b c d

open TestSet in
/-- With a channel selected, the head and the break flag decide how a call enters its pass. -/
theorem reflecting_entry {k : Call 2 Recorder} {head : SweepHead}
    (hk : k.instrument = { reflecting.instrument with head }) :
    k.entry = match head.state with
      | .stepping p => if k.breakable && p < head.points 2 then .resumed p else .begun
      | _ => .begun := by
  have hselects : k.mask.isEmpty = false := by
    unfold Call.mask
    rw [hk]
    exact reflecting_selects head
  unfold Call.entry
  rw [hselects, Bool.and_false, hk]
  rfl

open TestSet in
/-- The second call is made inside the pass that the first one began. -/
theorem wavers_calls (later : Bool) : ∃ k₁ l₁ w₁ k₂ v mask l₂ w₂,
    MeasurementLoop.Ticks prompt (starting (wavers later)) reflecting fresh [k₁] l₁ w₁ ∧
    l₁.calling prompt (starting (wavers later)) w₁ = .ok (some k₂, v) ∧
    l₁.tick prompt (starting (wavers later)) w₁ = .ok ((some ⟨mask, true⟩, l₂), w₂) ∧
    k₁.inPass = false ∧ k₁.entry = .begun ∧ k₂.inPass = true ∧
    k₂.entry = if later then .resumed 1 else .begun := by
  obtain ⟨mask, head, l₁, w₁, mask', l₂, w₂, htick, hl, hstate, hpoints, hlater, htick'⟩ :=
    starting_ticks rfl (wavers_later later)
  have hconnected : observer.connected fresh := rfl
  obtain ⟨i, u, allowed, u', called, v, hserved, hallowed, hcalling, -, hquiet, hgained, hcalled⟩ :=
    MeasurementLoop.tick_announces (wavers_sees later) hconnected htick
  cases hserved
  cases called with
  | none =>
    have hhead : reflecting.instrument.head = head :=
      congrArg Instrument.head (hcalled.2.symm.trans hl)
    rw [← hhead] at hstate
    cases hstate
  | some k₁ =>
    have hconnected' := hgained.connected (hquiet.connected hconnected)
    obtain ⟨i, u, allowed', u', called', v', hserved', hallowed', hcalling', -, -, -, hcalled'⟩ :=
      MeasurementLoop.tick_announces (wavers_sees later) hconnected' htick'
    cases hserved'
    cases hlater.symm.trans hallowed'
    cases called' with
    | none => cases hcalled'.1
    | some k₂ =>
      obtain ⟨-, hinstrument, -, -, -⟩ := hcalled
      obtain ⟨-, hinstrument', hbreakable, -, -⟩ := hcalled'
      have hflag : later = k₂.breakable := Option.some.inj hbreakable
      rw [hl] at hinstrument'
      refine ⟨k₁, l₁, w₁, k₂, v', mask', l₂, w₂, .tick .start hcalling htick, hcalling', htick',
        ?_, reflecting_entry hinstrument, ?_, ?_⟩
      · rw [Call.inPass, hinstrument]
        rfl
      · rw [Call.inPass, hinstrument', hstate]
      · rw [reflecting_entry hinstrument', hstate, hpoints, ← hflag]
        cases later <;> rfl

/-- Two passes are begun, and the start of one is heard: the second call begins at point 0 inside
the first pass, and is not announced. -/
theorem restart_unheard : ∃ k₁ l₁ w₁ k₂ v mask l₂ w₂,
    MeasurementLoop.Ticks prompt (starting (wavers false)) TestSet.reflecting fresh [k₁] l₁ w₁ ∧
    l₁.calling prompt (starting (wavers false)) w₁ = .ok (some k₂, v) ∧
    l₁.tick prompt (starting (wavers false)) w₁ = .ok ((some ⟨mask, true⟩, l₂), w₂) ∧
    k₁.entry = .begun ∧ startsIn w₁.environment.heard = [k₁.mask] ∧
    k₂.entry = .begun ∧ k₂.MeasuredFrom prompt 0 ∧ startsIn w₂.environment.heard = [k₁.mask] := by
  obtain ⟨k₁, l₁, w₁, k₂, v, mask, l₂, w₂, hrun, hcalling, htick, houtside, hbegun, hinside,
    hentry⟩ := wavers_calls false
  have hfresh : observer.connected fresh := rfl
  obtain ⟨hconnected, -, hheard⟩ := hrun.starts_heard (wavers_sees false) hfresh
  obtain ⟨called, v', hcalling', -, hran, hheard'⟩ :=
    MeasurementLoop.tick_starts (wavers_sees false) hconnected htick
  cases hcalling.symm.trans hcalling'
  have hone : startsIn w₁.environment.heard = [k₁.mask] := by
    refine Eq.trans hheard ?_
    simp [houtside, startsIn, observer, fresh]
  have hsame : startsIn w₂.environment.heard = startsIn w₁.environment.heard := by
    refine Eq.trans hheard' ?_
    rw [MeasurementLoop.tickEvents, MeasurementLoop.startsIn_callEvents, hinside]
    exact List.append_nil _
  have hmeasured := (hran k₂ rfl).entered
  rw [hentry] at hmeasured
  exact ⟨k₁, l₁, w₁, k₂, v, mask, l₂, w₂, hrun, hcalling, htick, hbegun, hone, hentry, hmeasured,
    hsame.trans hone⟩

/-- A pass of two calls is begun by the first one, which is heard, and resumed by the second. -/
theorem starts_resumed : ∃ k₁ l₁ w₁ k₂ v mask l₂ w₂,
    MeasurementLoop.Ticks prompt (starting (wavers true)) TestSet.reflecting fresh [k₁] l₁ w₁ ∧
    l₁.calling prompt (starting (wavers true)) w₁ = .ok (some k₂, v) ∧
    l₁.tick prompt (starting (wavers true)) w₁ = .ok ((some ⟨mask, true⟩, l₂), w₂) ∧
    k₁.MeasuredFrom prompt 0 ∧ startsIn w₁.environment.heard = [k₁.mask] ∧
    k₂.MeasuredFrom prompt 1 ∧ startsIn w₂.environment.heard = [k₁.mask] := by
  obtain ⟨k₁, l₁, w₁, k₂, v, mask, l₂, w₂, hrun, hcalling, htick, houtside, hbegun, hinside,
    hentry⟩ := wavers_calls true
  have hfresh : observer.connected fresh := rfl
  obtain ⟨hentered, hheard, -, -, hticks⟩ :=
    MeasurementLoop.announced_starts (wavers_sees true) hfresh hrun
  obtain ⟨called, v', heard', hcalling', hheard', -, hsome⟩ := hticks _ _ _ htick
  cases hcalling.symm.trans hcalling'
  obtain ⟨-, hmeasured', hnone, -⟩ := hsome k₂ rfl
  obtain ⟨-, hmeasured⟩ := hentered k₁ List.mem_cons_self
  rw [hbegun] at hmeasured
  rw [hentry] at hmeasured'
  rw [hinside] at hnone
  have hone : startsIn w₁.environment.heard = [k₁.mask] := by
    refine Eq.trans hheard ?_
    simp [houtside, startsIn, observer, fresh]
  have hsame : startsIn w₂.environment.heard = startsIn w₁.environment.heard := by
    refine Eq.trans hheard' ?_
    rw [hnone]
    exact List.append_nil _
  exact ⟨k₁, l₁, w₁, k₂, v, mask, l₂, w₂, hrun, hcalling, htick, hmeasured, hone, hmeasured',
    hsame.trans hone⟩

end Recorder

end NetworkAnalyzer
