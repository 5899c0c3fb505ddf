import NetworkAnalyzer.Proofs.Control.Pausing
import NetworkAnalyzer.Proofs.Loop.Attempts
import NetworkAnalyzer.Proofs.Loop.Freshness

/-!
# What commands make the loop do

A host that obeys its control drains the mailbox when it serves the instrument, lets a pass
start when the control does, and accounts for every attempt (`Obedient`). What such a loop
attempts over any number of ticks is decided by the flags that its first drain leaves, as long as
nobody posts anything.

| flags after the drain        | ticks                                                        |
|------------------------------|--------------------------------------------------------------|
| continuous sweeping on       | every tick attempts a pass, completed or not                 |
| off, a pass owed             | attempts up to the first completed one, then idle            |
| off, none owed               | idle                                                         |

The command for a single pass sets both flags. The first completed pass then discharges the owed
one, and the loop goes on sweeping, as after power-up. Exactly one pass is made if a stop is posted
behind it: the stop leaves the owed pass and clears the other flag.

* `tick_orders`: what one tick does to the flags and the mailbox. This is the step of the three
  runs.
* `ticks_enabled`, `ticks_owed`, `ticks_off`: the three rows, for any number of ticks. They count
  completions only; which points an attempt measured plays no part.
* `single_sweeps_on`: the command for a single pass turns continuous sweeping on, so exactly one
  pass is made only if a stop follows it.
* `single_twice`: a loop at rest is asked for a single pass, and completes two.
-/

namespace NetworkAnalyzer

variable {N : Nat} {ε : Type} {board : Board (Shared N ε)} {host : Host N ε}

namespace Control

variable {c d : Control}

/-- What decides whether a pass may start: continuous sweeping, an owed pass, and the commands
that wait. -/
def orders (c : Control) : Bool × Bool × List Command := (c.isEnabled, c.owes, c.mailbox)

theorem orders_inj : c.orders = d.orders ↔
    c.isEnabled = d.isEnabled ∧ c.owes = d.owes ∧ c.mailbox = d.mailbox := by
  simp [orders]

theorem canStart_congr (h : c.orders = d.orders) : c.canStart = d.canStart := by
  obtain ⟨henabled, howes, -⟩ := orders_inj.mp h
  rw [Bool.eq_iff_iff, canStart_iff, canStart_iff, henabled, howes]

theorem finish_congr (h : c.orders = d.orders) (completed : Bool) :
    (c.finish completed).orders = (d.finish completed).orders := by
  obtain ⟨henabled, howes, hmailbox⟩ := orders_inj.mp h
  simpa [orders_inj] using ⟨henabled, by rw [howes], hmailbox⟩

theorem applyAll_mailbox (c : Control) (ks : List Command) :
    (c.applyAll ks).2.mailbox = c.mailbox := by
  induction ks generalizing c with
  | nil => rfl
  | cons k ks ih => simp only [applyAll, ih, apply_mailbox]

@[simp] theorem drain_mailbox (c : Control) : c.drain.2.mailbox = [] := applyAll_mailbox _ _

theorem drain_of_empty (h : c.mailbox = []) : c.drain.2 = c := by
  obtain ⟨mode, mailbox⟩ := c
  obtain rfl : mailbox = [] := h
  rfl

theorem apply_single_owes (c : Control) : (c.apply .single).owes = true := setMode_once

/-- The command for a single pass turns continuous sweeping on as well. -/
theorem drain_single (mode : SweepMode) :
    (drain ⟨mode, [.single]⟩).2.isEnabled = true ∧ (drain ⟨mode, [.single]⟩).2.owes = true := by
  have hdrain : (drain ⟨mode, [.single]⟩).2 = apply ⟨mode, []⟩ .single := rfl
  rw [hdrain, apply_isEnabled, apply_single_owes]
  exact ⟨rfl, rfl⟩

theorem drain_single_stop (mode : SweepMode) :
    (drain ⟨mode, [.single, .stop]⟩).2.isEnabled = false ∧
      (drain ⟨mode, [.single, .stop]⟩).2.owes = true := by
  have hdrain : (drain ⟨mode, [.single, .stop]⟩).2 =
      (apply ⟨mode, []⟩ .single).apply .stop := rfl
  rw [hdrain, apply_isEnabled, apply_owes rfl, apply_single_owes]
  exact ⟨rfl, rfl⟩

end Control

namespace MeasurementLoop

/-- The host obeys its control, and nobody else touches the orders. -/
structure Obedient (board : Board (Shared N ε)) (host : Host N ε) : Prop where
  frames : board.Frames (Keeps (·.control.orders))
  tune : ∀ f, Moves (Keeps (·.control.orders)) (board.tune f)
  listen : ∀ d, Moves (Keeps (·.control.orders)) (host.listen d)
  /-- Serving the instrument drains the mailbox. -/
  service : ∀ {i i' w w'}, host.service i w = .ok (i', w') →
    w'.control.orders = w.control.drain.2.orders
  /-- A pass may start exactly when the control lets it. -/
  canStart : ∀ {r w w'}, host.canStart w = .ok (r, w') →
    w'.control.orders = w.control.orders ∧ r.isSome = w.control.canStart
  /-- Every attempt is accounted for. -/
  handleResult : ∀ {r w w'}, host.handleResult r w = .ok ((), w') →
    w'.control.orders = (w.control.finish r.completed).orders

/-- Ticks in a row, with what each of them reported. -/
def ticks (board : Board (Shared N ε)) (host : Host N ε) :
    Nat → MeasurementLoop N → Run (Shared N ε) (List (Option SweepResult) × MeasurementLoop N)
  | 0, l => return ([], l)
  | n + 1, l => do
    let (r, l) ← l.tick board host
    let (rs, l) ← ticks board host n l
    return (r :: rs, l)

def discharges (r : Option SweepResult) : Bool := r.any (·.completed)

/-- Attempts that do not complete, then at most one that does, and after it only idling. -/
def OnePass (rs : List (Option SweepResult)) : Prop :=
  ∃ attempts rest, rs = attempts ++ rest ∧
    (∀ r ∈ attempts, r.isSome = true ∧ discharges r = false) ∧
    (rest = [] ∨ ∃ r idle, rest = r :: idle ∧ discharges r = true ∧ ∀ r ∈ idle, r = none)

variable {l l' : MeasurementLoop N} {w w' : Shared N ε} {r : Option SweepResult}
  {rs : List (Option SweepResult)} {n : Nat}

theorem OnePass.idle (h : OnePass (r :: rs)) (hr : discharges r = true) : ∀ q ∈ rs, q = none := by
  obtain ⟨_ | ⟨a, attempts⟩, rest, hsplit, hattempts, hrest⟩ := h
  · rw [List.nil_append] at hsplit
    subst hsplit
    obtain hrest | ⟨q, idle, hrest, -, hidle⟩ := hrest
    · cases hrest
    · cases hrest
      exact hidle
  · -- an attempt before the completed pass does not complete
    cases hsplit
    have ha := (hattempts _ List.mem_cons_self).2
    rw [hr] at ha
    cases ha

theorem ticks_succ (h : ticks board host (n + 1) l w = .ok ((rs, l'), w')) :
    ∃ r l₁ w₁ rest, l.tick board host w = .ok ((r, l₁), w₁) ∧
      ticks board host n l₁ w₁ = .ok ((rest, l'), w') ∧ rs = r :: rest := by
  unfold ticks at h
  obtain ⟨⟨r, l₁⟩, w₁, htick, h⟩ := Run.bind_inv h
  obtain ⟨⟨rest, l₂⟩, w₂, hrest, h⟩ := Run.bind_inv h
  obtain ⟨he, rfl⟩ := Run.pure_inv h
  cases he
  exact ⟨r, l₁, w₁, rest, htick, hrest, rfl⟩

/-- A tick attempts a pass exactly if the drained orders let it, and accounts for it. -/
theorem tick_orders (ho : Obedient board host) (h : l.tick board host w = .ok ((r, l'), w')) :
    r.isSome = w.control.drain.2.canStart ∧
      w'.control.orders = (w.control.drain.2.finish (discharges r)).orders := by
  obtain ⟨i, w₁, allowed, w₂, hservice, hallowed, htick⟩ := tick_inv h
  have hserved := ho.service hservice
  obtain ⟨hkept, hstart⟩ := ho.canStart hallowed
  rw [Control.canStart_congr hserved] at hstart
  cases allowed with
  | none =>
    obtain ⟨rfl, -, late, hidle⟩ := htick
    have hwaited : w'.control.orders = w₂.control.orders :=
      Moves.waitUntil ho.frames.now ho.frames.relax (.pure _) hidle
    exact ⟨hstart, hwaited.trans (hkept.trans hserved)⟩
  | some breakable =>
    obtain ⟨outcome, w₃, hrun, rfl, hresult⟩ := htick
    have hran : w₃.control.orders = w₂.control.orders :=
      run_moves ho.frames ho.tune (fun _ _ => rfl) (fun _ _ => rfl) ho.listen hrun
    exact ⟨hstart, (ho.handleResult hresult).trans
      (Control.finish_congr (hran.trans (hkept.trans hserved)) _)⟩

theorem tick_drained (ho : Obedient board host) (h : l.tick board host w = .ok ((r, l'), w')) :
    w'.control.drain.2.isEnabled = w.control.drain.2.isEnabled ∧
      w'.control.drain.2.owes = (w.control.drain.2.owes && !discharges r) := by
  obtain ⟨-, horders⟩ := tick_orders ho h
  obtain ⟨henabled, howes, hmailbox⟩ := Control.orders_inj.mp horders
  rw [Control.finish_mailbox, Control.drain_mailbox] at hmailbox
  rw [Control.drain_of_empty hmailbox, henabled, howes]
  exact ⟨Control.finish_isEnabled, Control.finish_owes⟩

/-! ## Any number of ticks -/

/-- With continuous sweeping on, every tick attempts a pass. -/
theorem ticks_enabled (ho : Obedient board host) (hon : w.control.drain.2.isEnabled = true)
    (h : ticks board host n l w = .ok ((rs, l'), w')) :
    (∀ r ∈ rs, r.isSome = true) ∧ w'.control.drain.2.isEnabled = true ∧
      w'.control.drain.2.owes = (w.control.drain.2.owes && !rs.any discharges) := by
  induction n generalizing l w rs with
  | zero =>
    obtain ⟨he, rfl⟩ := Run.pure_inv h
    cases he
    simpa using hon
  | succ n ih =>
    obtain ⟨r, l₁, w₁, rest, htick, hrest, rfl⟩ := ticks_succ h
    obtain ⟨henabled, howes⟩ := tick_drained ho htick
    obtain ⟨hattempts, hon', howes'⟩ := ih (henabled.trans hon) hrest
    refine ⟨?_, hon', ?_⟩
    · rw [List.forall_mem_cons, (tick_orders ho htick).1, Control.canStart_iff]
      exact ⟨Or.inl hon, hattempts⟩
    · rw [howes', howes, List.any_cons, Bool.not_or, Bool.and_assoc]

theorem ticks_off (ho : Obedient board host) (hoff : w.control.drain.2.canStart = false)
    (h : ticks board host n l w = .ok ((rs, l'), w')) : ∀ r ∈ rs, r = none := by
  induction n generalizing l w rs with
  | zero =>
    obtain ⟨he, rfl⟩ := Run.pure_inv h
    cases he
    simp
  | succ n ih =>
    obtain ⟨r, l₁, w₁, rest, htick, hrest, rfl⟩ := ticks_succ h
    obtain ⟨henabled, howes⟩ := tick_drained ho htick
    have hr := (tick_orders ho htick).1
    rw [hoff, Option.isSome_eq_false_iff, Option.isNone_iff_eq_none] at hr
    rw [List.forall_mem_cons]
    refine ⟨hr, ih ?_ hrest⟩
    rw [← Bool.not_eq_true, Control.canStart_iff, not_or] at hoff ⊢
    simpa [henabled, howes, hr, discharges] using hoff

/-- With only a pass owed, the loop attempts it until it completes, and then idles. -/
theorem ticks_owed (ho : Obedient board host) (hoff : w.control.drain.2.isEnabled = false)
    (howed : w.control.drain.2.owes = true) (h : ticks board host n l w = .ok ((rs, l'), w')) :
    OnePass rs := by
  induction n generalizing l w rs with
  | zero =>
    obtain ⟨he, rfl⟩ := Run.pure_inv h
    cases he
    exact ⟨[], [], rfl, by simp, Or.inl rfl⟩
  | succ n ih =>
    obtain ⟨r, l₁, w₁, rest, htick, hrest, rfl⟩ := ticks_succ h
    obtain ⟨henabled, howes⟩ := tick_drained ho htick
    have hsome : r.isSome = true := by
      rw [(tick_orders ho htick).1, Control.canStart_iff]
      exact Or.inr howed
    cases hr : discharges r with
    | true =>
      refine ⟨[], r :: rest, rfl, by simp, Or.inr ⟨r, rest, rfl, hr, ticks_off ho ?_ hrest⟩⟩
      rw [← Bool.not_eq_true, Control.canStart_iff, henabled, howes, hr]
      simp [hoff]
    | false =>
      obtain ⟨attempts, idle, rfl, hattempts, hidle⟩ :=
        ih (henabled.trans hoff) (by rw [howes, howed, hr]; rfl) hrest
      refine ⟨r :: attempts, idle, rfl, ?_, hidle⟩
      rw [List.forall_mem_cons]
      exact ⟨⟨hsome, hr⟩, hattempts⟩

/-- What the command for a single pass does, whatever the flags were: it turns continuous
sweeping on besides owing a pass, so every later tick attempts one, and the first completed pass
only discharges the owed one. At most one pass is completed if a stop follows the command. -/
theorem single_sweeps_on (ho : Obedient board host) (hempty : w.control.mailbox = []) :
    ∃ single, w.control.post .single = (.ok (), single) ∧
      (∀ n l rs l' w', ticks board host n l { w with control := single } = .ok ((rs, l'), w') →
        (∀ r ∈ rs, r.isSome = true) ∧ w'.control.drain.2.isEnabled = true ∧
          (w'.control.drain.2.owes = true ↔ ∀ r ∈ rs, discharges r = false)) ∧
      ∃ stopped, single.post .stop = (.ok (), stopped) ∧
        ∀ n l rs l' w', ticks board host n l { w with control := stopped } = .ok ((rs, l'), w') →
          OnePass rs := by
  generalize w.control = c at hempty
  obtain ⟨mode, mailbox⟩ := c
  obtain rfl : mailbox = [] := hempty
  refine ⟨⟨mode, [.single]⟩, rfl, fun n l rs l' w' h => ?_, ⟨mode, [.single, .stop]⟩, rfl,
    fun n l rs l' w' h => ?_⟩
  · obtain ⟨hon, howed⟩ := Control.drain_single mode
    obtain ⟨hattempts, hon', howes⟩ := ticks_enabled ho (by exact hon) h
    refine ⟨hattempts, hon', ?_⟩
    rw [howes]
    simp [howed]
  · obtain ⟨hoff, howed⟩ := Control.drain_single_stop mode
    exact ticks_owed ho (by exact hoff) (by exact howed) h

end MeasurementLoop

/-! ## A single pass that is not the last -/

namespace TestSet

def obedient : Host 2 TestSet where
  service i := do
    modify fun w => { w with control := w.control.drain.2 }
    return i
  canStart := return if (← get).control.canStart then some false else none
  handleResult r := modify fun w => { w with control := w.control.finish r.completed }

theorem obedient_obeys :
    MeasurementLoop.Obedient (source : Board (Shared 2 TestSet)) obedient where
  frames := source_frames (fun _ _ => rfl) fun _ _ => rfl
  tune _ := .bind (.modify fun _ => rfl) fun _ => .pure _
  listen _ := .pure _
  service h := by
    cases h
    rfl
  canStart {r w w'} h := by
    cases h
    cases hstart : w.control.canStart <;> exact ⟨rfl, rfl⟩
  handleResult h := by
    cases h
    rfl

/-- At rest, with a single pass asked for. -/
def singled : Shared 2 TestSet where
  control := ⟨Flags.none, [.single]⟩
  environment := {}

def served (w : Shared 2 TestSet) : Shared 2 TestSet := { w with control := w.control.drain.2 }

/-- Both of the first two ticks complete their pass, whatever the comparisons say. -/
theorem runs_twice : ∀ a b c d, meets (reflecting.run source obedient false
    (flagged a b c d reflecting.instrument) (served singled)) fun x =>
      let w := served { x.2 with control := x.2.control.finish true }
      (x.1.1 matches .ok true) && w.control.canStart &&
        meets (x.1.2.run source obedient false (flagged a b c d x.1.2.instrument) w) fun y =>
          y.1.1 matches .ok true := by
  decide +kernel

theorem obedient_tick {l l' : MeasurementLoop 2} {w w' : Shared 2 TestSet} {mask : SweepMask}
    (hmask : l.instrument.activeMask = mask) (hstart : (served w).control.canStart = true)
    (hrun : l.run source obedient false mask (served w) = .ok ((.ok true, l'), w')) :
    l.tick source obedient w =
      .ok ((some ⟨mask, true⟩, l'), { w' with control := w'.control.finish true }) := by
  have hallowed : obedient.canStart (served w) = .ok (some false, served w) := by
    change (pure (if (served w).control.canStart then some false else none) :
      Run (Shared 2 TestSet) (Option Bool)) (served w) = _
    rw [hstart]
    rfl
  have hserved : obedient.service l.instrument w = .ok (l.instrument, served w) := rfl
  rw [MeasurementLoop.tick_eq source hserved hallowed hmask]
  exact Run.bind_ok _ hrun

theorem singled_ticks : ∃ mask mask' l w, MeasurementLoop.ticks source obedient 2 reflecting
    singled = .ok (([some ⟨mask, true⟩, some ⟨mask', true⟩], l), w) := by
  obtain ⟨a, b, c, d, hmask⟩ := activeMask_flagged
  obtain ⟨⟨⟨r, l₁⟩, w₁⟩, hrun, hfirst⟩ := meets_inv (runs_twice a b c d)
  simp only [Bool.and_eq_true] at hfirst
  obtain ⟨⟨hall, hstart⟩, hsecond⟩ := hfirst
  obtain ⟨⟨⟨r', l₂⟩, w₂⟩, hrun', hall'⟩ := meets_inv hsecond
  obtain rfl : r = .ok true := MeasurementLoop.completed_iff.mp hall
  obtain rfl : r' = .ok true := MeasurementLoop.completed_iff.mp hall'
  have htick := obedient_tick (hmask _ rfl) rfl hrun
  have hsettings : l₁.instrument.settings.correction = {} := by
    obtain ⟨head, hl⟩ := MeasurementLoop.run_instrument hrun
    rw [hl]
    rfl
  have htick' := obedient_tick (hmask _ hsettings) hstart hrun'
  refine ⟨flagged a b c d reflecting.instrument, flagged a b c d l₁.instrument, l₂,
    { w₂ with control := w₂.control.finish true }, ?_⟩
  simp only [MeasurementLoop.ticks]
  rw [Run.bind_ok _ htick]
  dsimp only
  rw [bind_assoc, Run.bind_ok _ htick']
  rfl

/-- A loop at rest is asked for a single pass, and completes two. -/
theorem single_twice : ∃ mask mask' l w,
    Control.canStart ⟨Flags.none, []⟩ = false ∧
    Control.post ⟨Flags.none, []⟩ .single = (.ok (), singled.control) ∧
    MeasurementLoop.ticks source obedient 2 reflecting singled =
      .ok (([some ⟨mask, true⟩, some ⟨mask', true⟩], l), w) ∧
    ¬ MeasurementLoop.OnePass [some ⟨mask, true⟩, some ⟨mask', true⟩] := by
  obtain ⟨mask, mask', l, w, hticks⟩ := singled_ticks
  refine ⟨mask, mask', l, w, by decide, rfl, hticks, fun hone => ?_⟩
  have hidle := hone.idle rfl _ List.mem_cons_self
  cases hidle

/-- The loop that was asked for a single pass keeps sweeping. -/
theorem single_sweeps_on_obedient : ∃ rs l w,
    MeasurementLoop.ticks source obedient 2 reflecting singled = .ok ((rs, l), w) ∧
    rs.length = 2 ∧ (∀ r ∈ rs, r.isSome = true) ∧ w.control.drain.2.isEnabled = true := by
  obtain ⟨mask, mask', l, w, hticks⟩ := singled_ticks
  let resting : Shared 2 TestSet := { control := ⟨Flags.none, []⟩, environment := {} }
  obtain ⟨single, hpost, hsingle, -⟩ :=
    MeasurementLoop.single_sweeps_on obedient_obeys (w := resting) rfl
  cases hpost
  obtain ⟨hattempts, hon, -⟩ := hsingle 2 reflecting _ l w hticks
  exact ⟨_, l, w, hticks, rfl, hattempts, hon⟩

end TestSet

end NetworkAnalyzer
