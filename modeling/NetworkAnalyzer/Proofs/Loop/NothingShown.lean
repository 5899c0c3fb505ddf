import NetworkAnalyzer.Proofs.Instrument.PlanAgreement
import NetworkAnalyzer.Proofs.Loop.OwedPass
import NetworkAnalyzer.Proofs.Loop.Reports
import NetworkAnalyzer.Proofs.Sweep.Latency

/-!
# Ticks with nothing to show

With no trace enabled there is nothing to measure, and a point is measured without touching the
source, the multiplexer or the capture. A breakable call still looks at the whole mask: it goes
through the points of the plan whenever a correction is set, and it returns at once only if none
is. Gone through, the pass counts as completed. It counts a generation, it is announced, and it
discharges the owed pass.

That nothing is touched is stated with a board on which touching faults (`Board.unplugged`): a call
on it is the call on the board itself. This covers every operation at once, and says more than that
the state of the source is the same.

Whether such a call goes through depends on the board as any call does: it yields for user input,
or when a time slice is over. A `Calm` board gives it no reason to.

* `measure_unselected`, `execute_unplugged`: nothing is measured, on any board.
* `execute_unselected`: the traces stay, and a call does not fail.
* `execute_replies`: it returns if the board answers it.
* `execute_calm`: on a calm board a call answers whether the mask holds anything.
* `activeMask_isEmpty`: it does exactly if a channel is shown or a correction set
  (`hasCorrections`).
* `tick_accounted`, `tick_nothingShown`: the generation, the announcements and the owed pass after
  a tick.
* `tick_completes_blank`: at power-up, with no trace enabled, the first breakable tick completes a
  pass.
-/

namespace NetworkAnalyzer

variable {N : Nat} {ε : Type} {board : Board (Shared N ε)} {host : Host N ε}

/-! ## Points with nothing selected -/

/-- The board without its source, its multiplexer and its interrupts: using them faults. A capture
begins with the multiplexer, so none can be taken. -/
def Board.unplugged {σ : Type} (board : Board σ) : Board σ :=
  { board with
    relax := throw .clockStopped
    tune _ := throw .clockStopped
    select _ := throw .clockStopped
    takeSettlingCycles := throw .clockStopped }

theorem Board.indicateAll_unplugged {σ : Type} (board : Board σ) (shown : List Indication) :
    board.unplugged.indicateAll shown = board.indicateAll shown := by
  induction shown with
  | nil => rfl
  | cons i shown ih =>
    unfold indicateAll
    rw [ih]
    rfl

/-- With no channel selected, measuring a point does nothing. -/
theorem PointSetup.measure_unselected {p : PointSetup N} (hnone : p.mask.measuresAny = false)
    (u : Traces Float32 N) : p.measure board u = pure (.ok (), u) := by
  have hchannels : p.mask.channels = [] := by
    refine List.eq_nil_iff_forall_not_mem.mpr fun c hc => ?_
    rw [SweepMask.measuresAny_iff.mpr ⟨c, SweepMask.mem_channels.mp hc⟩] at hnone
    cases hnone
  have hshots : pointShots p.mask.channels 0 (0 : UInt8).toNat = [] := by
    rw [hchannels]
    rfl
  have hreflection : p.mask.measures .s11 = false := (Bool.or_eq_false_iff.mp hnone).1
  unfold measure retune
  rw [hnone, if_neg (by decide), pure_bind]
  dsimp only
  rw [hshots]
  unfold shootAll renormalized
  rw [hreflection, Bool.and_false]
  rfl

namespace Pass

variable {calibration : Option (Calibration Float32 N)} {breakable : Bool} {mask : SweepMask}
  {p p' : Pass N} {r : Except Failure Bool} {w w' : Shared N ε}

theorem showProgress_unplugged (p : Pass N) (step : Progress × List Indication) :
    p.showProgress board.unplugged step = p.showProgress board step := by
  unfold showProgress
  rw [Board.indicateAll_unplugged]

theorem advance_unplugged {c : Setup N} (hnone : c.mask.measuresAny = false) :
    ∀ (left processed : Nat) (p : Pass N),
      p.advance board.unplugged c left processed = p.advance board c left processed := by
  intro left
  induction left with
  | zero =>
    intro processed p
    unfold advance darken
    rw [showProgress_unplugged]
  | succ left ih =>
    intro processed p
    have hpoint : (pointSetup c p.head (c.points - (left + 1).toUInt16)).mask.measuresAny = false :=
      hnone
    unfold advance
    refine congrArg₂ (· >>= ·) rfl (funext fun yields => ite_congr rfl (fun _ => rfl) fun _ => ?_)
    dsimp only
    rw [PointSetup.measure_unselected hpoint, PointSetup.measure_unselected hpoint, pure_bind,
      pure_bind]
    dsimp only
    rw [showProgress_unplugged]
    exact bind_congr fun q => ih _ _

/-- With no channel selected, a call needs neither the source nor the multiplexer, takes no
capture and waits for nothing. -/
theorem execute_unplugged (hnone : mask.measuresAny = false) :
    p.execute board.unplugged calibration breakable mask =
      p.execute board calibration breakable mask := by
  have hrewind : p.rewind board.unplugged breakable = p.rewind board breakable := by
    unfold rewind darken
    rw [showProgress_unplugged]
  have hannounce : ∀ q : Pass N, q.announce board.unplugged = q.announce board := by
    intro q
    unfold announce
    rw [showProgress_unplugged]
  unfold execute
  rw [hrewind]
  refine bind_congr fun q => ite_congr rfl (fun _ => ?_) fun _ => ?_
  · unfold darken
    rw [showProgress_unplugged]
  · refine congrArg₂ (· >>= ·) rfl (funext fun budget => ?_)
    rw [hannounce]
    refine bind_congr fun q' => congrArg₂ (· >>= ·) rfl (funext fun sliceStart => ?_)
    exact advance_unplugged hnone _ _ _

theorem Stretch.unselected {R : Shared N ε → Shared N ε → Prop} {point : Nat → PointSetup N}
    (hnone : ∀ i, (point i).mask.measuresAny = false) {a b : Nat} {u u' : Traces Float32 N}
    (h : Stretch R board point a b u w u' w') : u' = u := by
  induction h with
  | nil => rfl
  | cons _ hmeasure _ ih =>
    rw [PointSetup.measure_unselected (hnone _)] at hmeasure
    obtain ⟨he, -⟩ := Run.pure_inv hmeasure
    cases he
    exact ih

theorem execute_unselected (hnone : mask.measuresAny = false)
    (h : p.execute board calibration breakable mask w = .ok ((r, p'), w')) :
    p'.traces = p.traces ∧ (∃ all, r = .ok all) ∧
      ((breakable && mask.isEmpty) = true → r = .ok false) := by
  obtain ⟨-, -, ⟨-, rfl, htraces, -⟩ | ⟨hselected, b, u, w₁, hstretch, hended⟩⟩ :=
    execute_inv board.frames_true h
  · exact ⟨htraces, ⟨false, rfl⟩, fun _ => rfl⟩
  · have hpoint : ∀ i, (pointOf calibration mask p.head i).mask.measuresAny = false :=
      fun _ => hnone
    have hkept : u = p.traces := hstretch.unselected hpoint
    have hfull : (breakable && mask.isEmpty) = true → r = .ok false := fun hempty => by
      cases hselected.symm.trans hempty
    cases hended with
    | completed _ htraces => exact ⟨htraces.trans hkept, ⟨true, rfl⟩, hfull⟩
    | yielded _ _ htraces => exact ⟨htraces.trans hkept, ⟨false, rfl⟩, hfull⟩
    | aborted _ _ _ hmeasure =>
      rw [PointSetup.measure_unselected (hpoint b)] at hmeasure
      cases (Run.pure_inv hmeasure).1

end Pass

/-! ## Calls that have no reason to yield -/

/-- From `w` on the clock, the user's input and the indicators answer, and the clock does not go
back, while nobody uses the source or waits. -/
structure Board.Replies (board : Board (Shared N ε)) (w : Shared N ε) : Prop where
  now : ∀ {v}, board.unplugged.Later w v → ∃ t v', board.now v = .ok (t, v')
  inputPending : ∀ {v}, board.unplugged.Later w v → ∃ b v', board.inputPending v = .ok (b, v')
  indicate : ∀ {v} i, board.unplugged.Later w v → ∃ v', board.indicate i v = .ok ((), v')
  clock : ∀ {v t v' x t' x'}, board.unplugged.Later w v → board.now v = .ok (t, v') →
    board.unplugged.Later v' x → board.now x = .ok (t', x') → t' - t ≤ 0x7fffffffffffffff

/-- Besides, no input waits, and the clock stays within a time slice. -/
structure Board.Calm (board : Board (Shared N ε)) (w : Shared N ε) : Prop extends
    board.Replies w where
  idle : ∀ {v b v'}, board.unplugged.Later w v → board.inputPending v = .ok (b, v') → b = false
  slice : ∀ {v t v' x t' x'}, board.unplugged.Later w v → board.now v = .ok (t, v') →
    board.unplugged.Later v' x → board.now x = .ok (t', x') → t' - t < Parameters.timeSlice

namespace Pass

variable {calibration : Option (Calibration Float32 N)} {mask : SweepMask} {p p' : Pass N}
  {w w' : Shared N ε}

theorem answers_unselected (hnone : mask.measuresAny = false) (hreplies : board.Replies w)
    {h₀ : SweepHead} {n : Nat} :
    Answers board.unplugged (pointOf calibration mask h₀) n w where
  now := hreplies.now
  inputPending := hreplies.inputPending
  indicate := hreplies.indicate
  measure {v i} u _ _ := by
    have hpoint : (pointOf calibration mask h₀ i).mask.measuresAny = false := hnone
    rw [PointSetup.measure_unselected hpoint]
    exact ⟨_, v, rfl⟩
  clock := hreplies.clock

theorem execute_replies (hnone : mask.measuresAny = false) (hreplies : board.Replies w) :
    ∃ r p' w', p.execute board calibration true mask w = .ok ((r, p'), w') := by
  obtain ⟨⟨r, p'⟩, w', h⟩ : ∃ x w', p.execute board.unplugged calibration true mask w =
      .ok (x, w') := execute_answers (answers_unselected hnone hreplies)
  rw [execute_unplugged hnone] at h
  exact ⟨r, p', w', h⟩

/-- On a calm board a call goes through all points if the mask holds anything. -/
theorem completes_calm (hnone : mask.measuresAny = false) (hselected : mask.isEmpty = false)
    (hcalm : board.Calm w) (hpoints : (p.head.points N).toNat ≤ Parameters.pointsMax)
    {all : Bool} (h : p.execute board calibration true mask w = .ok ((.ok all, p'), w')) :
    all = true := by
  rw [← execute_unplugged hnone] at h
  obtain ⟨c, v₀, v₁, starts, hc, ⟨x, x', hx, hbudget⟩, hslice, hnow, hpaced, -⟩ :=
    execute_paced hselected h
  cases all with
  | true => rfl
  | false =>
    have hpending : c.budget = Parameters.pointsMax := by
      unfold callBudget at hbudget
      rw [if_neg (by decide)] at hbudget
      obtain ⟨pending, y, hask, hbudget⟩ := Run.bind_inv hbudget
      cases hcalm.idle hx hask
      exact (Run.pure_inv hbudget).1
    obtain ⟨v, v', hlater, hyield⟩ := hpaced.yields
    have hv₁ : board.unplugged.Later w v₁ := hslice.tail (.now hnow)
    rcases mustYield_inv hc hyield with ⟨-, hspent | ⟨-, hask⟩⟩ | ⟨-, y, t, spent, hasked, hread,
      hspent, hlate⟩
    · -- a call that yields stands before a point of the plan
      have hlt := hpaced.bounds.2.2.1 rfl
      omega
    · cases hcalm.idle (hv₁.trans hlater) hask
    · have hy : board.unplugged.Later v₁ y := by
        rcases hasked with ⟨-, rfl⟩ | ⟨-, hask⟩
        · exact hlater
        · exact hlater.tail (.inputPending hask)
      have hin : t - c.sliceStart < Parameters.timeSlice := hcalm.slice hslice hnow hy hread
      have hle : Parameters.timeSlice ≤ spent := of_decide_eq_true hlate.symm
      unfold elapsed at hspent
      split at hspent
      · cases hspent
        exact absurd hle (UInt64.not_le.mpr hin)
      · cases hspent

/-- On a calm board a call answers whether the mask holds anything, with no channel selected. -/
theorem execute_calm (hnone : mask.measuresAny = false) (hcalm : board.Calm w)
    (hpoints : (p.head.points N).toNat ≤ Parameters.pointsMax) {all : Bool}
    (h : p.execute board calibration true mask w = .ok ((.ok all, p'), w')) :
    all = !mask.isEmpty := by
  cases hempty : mask.isEmpty with
  | true =>
    cases (execute_unselected hnone h).2.2 (by rw [hempty]; rfl)
    rfl
  | false => exact completes_calm hnone hempty hcalm hpoints h

end Pass

/-! ## What the mask holds -/

namespace Instrument

/-- Whether a delay or a gain offset is set, the reflection is referred to another impedance, or
the calibration is applied or flagged for interpolation. -/
def hasCorrections (i : Instrument N) : Bool :=
  !i.settings.corrections.isEmpty || i.calibration.status.has .apply ||
    i.calibration.status.has .interpolated ||
      (i.settings.correction.portImpedance != i.settings.correction.referenceImpedance &&
        decide (1 < i.settings.correction.portImpedance))

variable {i i' : Instrument N}

theorem activeMask_isEmpty (i : Instrument N) : i.activeMask.isEmpty =
    (!i.settings.measures .s11 && !i.settings.measures .s21 && !i.hasCorrections) := by
  unfold activeMask Settings.activeMask hasCorrections Settings.corrections SweepMask.withChannel
  simp (disch := simp (disch := decide) [SweepMask.measureOption, Flags.has_put_of_ne]) only
    [Flags.isEmpty_put]
  cases i.settings.measures .s11 <;> cases i.settings.measures .s21 <;>
    simp [Bool.and_assoc, Bool.not_or]

/-- With no channel shown nothing is selected, and the mask holds the corrections alone. -/
theorem activeMask_isEmpty_of_none (hnone : ∀ c, i.settings.measures c = false) :
    i.activeMask.measuresAny = false ∧ i.activeMask.isEmpty = !i.hasCorrections := by
  unfold SweepMask.measuresAny
  rw [activeMask_measures, activeMask_measures, activeMask_isEmpty, hnone, hnone]
  exact ⟨rfl, Bool.true_and _⟩

end Instrument

/-! ## Ticks -/

namespace Instrument

/-- A breakable call with no trace enabled: it answers whether a correction is set, unless the
board makes it yield. -/
theorem execute_nothingShown {i : Instrument N} (hreachable : i.Reachable ε)
    (hnone : ∀ c, i.settings.measures c = false) {u : Traces Float32 N} {v v' : Shared N ε}
    {r : Except Failure Bool} {p : Pass N}
    (h : Pass.execute board (some i.calibration) true i.activeMask ⟨i.head, u⟩ v =
      .ok ((r, p), v')) :
    p.traces = u ∧ ∃ all, r = .ok all ∧ (i.hasCorrections = false → all = false) ∧
      (board.Calm v → all = i.hasCorrections) := by
  obtain ⟨hunselected, hempty⟩ := activeMask_isEmpty_of_none hnone
  obtain ⟨htraces, ⟨all, rfl⟩, hidle⟩ := Pass.execute_unselected hunselected h
  refine ⟨htraces, all, rfl, fun hnot => ?_, fun hcalm => ?_⟩
  · cases hidle (by rw [hempty, hnot]; rfl)
    rfl
  · rw [Pass.execute_calm hunselected hcalm hreachable.points_le h, hempty, Bool.not_not]

end Instrument

namespace MeasurementLoop

variable {o : Observer N ε} {l : MeasurementLoop N} {w w₁ w₂ : Shared N ε} {i : Instrument N}

/-- A breakable tick is accounted for once: by its result, the generation, the announcements and
the owed pass. -/
theorem tick_accounted (ho : o.Sees board host) (hobeys : Obedient board host)
    (hconnected : o.connected w) (hservice : host.service l.instrument w = .ok (i, w₁))
    (hallowed : host.canStart w₁ = .ok (some true, w₂)) {r : Option SweepResult}
    {l' : MeasurementLoop N} {w' : Shared N ε} (h : l.tick board host w = .ok ((r, l'), w')) :
    ∃ called v completed, l.calling board host w = .ok (called, v) ∧
      r = some ⟨i.activeMask, completed⟩ ∧
      w'.buffers.generation = w₁.buffers.generation + (if completed then 1 else 0) ∧
      o.announced w' = o.announced w ++ tickEvents called ∧
      (tickEvents called).countP Event.isCompletion = (if completed then 1 else 0) ∧
      w'.control.owes = (w.control.drain.2.owes && !completed) ∧
      (called = none → completed = false) ∧
      ∀ k, called = some k → k.Ran board ∧ k.instrument = i ∧ k.breakable = true ∧
        completed = completes k.outcome := by
  obtain ⟨_, _, _, _, called, v, hservice', hallowed', hcalling, -, hquiet, hgained, hcalled⟩ :=
    tick_announces ho hconnected h
  cases hservice.symm.trans hservice'
  cases hallowed.symm.trans hallowed'
  obtain ⟨_, _, _, _, hservice', hallowed', hattempt⟩ := tick_inv h
  cases hservice.symm.trans hservice'
  cases hallowed.symm.trans hallowed'
  obtain ⟨outcome, w₃, -, rfl, -⟩ := hattempt
  have howes := (Control.orders_inj.mp (tick_orders hobeys h).2).2.1
  rw [Control.finish_owes] at howes
  have hheard : o.announced w' = o.announced w ++ tickEvents called := by
    rw [hgained.announced, hquiet.announced]
  refine ⟨called, v, completes outcome, hcalling, rfl, hgained.generation, hheard, ?_, howes, ?_⟩
  · cases called with
    | none =>
      have hnot : completes outcome = false := hcalled.1
      rw [hnot]
      rfl
    | some k =>
      obtain ⟨-, -, -, hresult, -⟩ := hcalled
      rw [Option.some.injEq, SweepResult.mk.injEq] at hresult
      rw [hresult.2]
      exact countP_announced _ _
  · cases called with
    | none => exact ⟨fun _ => hcalled.1, fun k hk => by cases hk⟩
    | some k =>
      obtain ⟨hran, hinstrument, hbreakable, hresult, -⟩ := hcalled
      rw [Option.some.injEq, SweepResult.mk.injEq] at hresult
      refine ⟨fun hk => (by cases hk), fun k hk => ?_⟩
      cases hk
      exact ⟨hran, hinstrument, (Option.some.inj hbreakable).symm, hresult.2⟩

/-- A breakable tick with no trace enabled. Its call returns if the board replies. It needs neither
source nor multiplexer, takes no capture, leaves the traces and does not fail. Without any
correction it does nothing: the generation stays, no completion is announced and an owed pass
stays owed. With a correction the pass that measured nothing counts as completed, at once if the
board is calm: a generation is counted, a completion announced and the owed pass discharged. -/
theorem tick_nothingShown (ho : o.Sees board host) (hobeys : Obedient board host)
    (hconnected : o.connected w) (hreachable : i.Reachable ε)
    (hnone : ∀ c, i.settings.measures c = false)
    (hservice : host.service l.instrument w = .ok (i, w₁))
    (hallowed : host.canStart w₁ = .ok (some true, w₂)) :
    (∀ u v, board.Replies v → ∃ all p v',
      Pass.execute board (some i.calibration) true i.activeMask ⟨i.head, u⟩ v =
        .ok ((.ok all, p), v') ∧ p.traces = u ∧ (i.hasCorrections = false → all = false) ∧
        (board.Calm v → all = i.hasCorrections)) ∧
    ∀ r l' w', l.tick board host w = .ok ((r, l'), w') →
      ∃ called v completed events, l.calling board host w = .ok (called, v) ∧
        r = some ⟨i.activeMask, completed⟩ ∧
        (∀ k, called = some k → k.Ran board.unplugged ∧ k.traces = k.start.buffers.traces ∧
          k.outcome = .ok completed ∧ (board.Calm k.start → completed = i.hasCorrections)) ∧
        (i.hasCorrections = false → completed = false) ∧
        w'.buffers.generation = w₁.buffers.generation + (if completed then 1 else 0) ∧
        o.announced w' = o.announced w ++ events ∧
        events.countP Event.isCompletion = (if completed then 1 else 0) ∧
        w'.control.owes = (w.control.drain.2.owes && !completed) := by
  obtain ⟨hunselected, -⟩ := Instrument.activeMask_isEmpty_of_none hnone
  refine ⟨fun u v hreplies => ?_, fun r l' w' h => ?_⟩
  · obtain ⟨r, p, v', h⟩ := Pass.execute_replies hunselected hreplies
    obtain ⟨htraces, all, rfl, hanswer⟩ := Instrument.execute_nothingShown hreachable hnone h
    exact ⟨all, p, v', h, htraces, hanswer⟩
  · obtain ⟨called, v, completed, hcalling, hresult, hgeneration, hheard, hcount, howes, hheld,
      hcalled⟩ := tick_accounted ho hobeys hconnected hservice hallowed h
    have hcall : ∀ k, called = some k → k.Ran board.unplugged ∧
        k.traces = k.start.buffers.traces ∧ k.outcome = .ok completed ∧
        (i.hasCorrections = false → completed = false) ∧
        (board.Calm k.start → completed = i.hasCorrections) := by
      intro k hk
      obtain ⟨hran, rfl, hbreakable, rfl⟩ := hcalled k hk
      have hunplugged : k.Ran board.unplugged :=
        (congrFun (Pass.execute_unplugged hunselected) k.start).trans hran
      unfold Call.Ran at hran
      rw [hbreakable] at hran
      obtain ⟨htraces, all, hall, hanswer⟩ :=
        Instrument.execute_nothingShown hreachable hnone hran
      rw [hall, completes_ok]
      exact ⟨hunplugged, htraces, rfl, hanswer⟩
    refine ⟨called, v, completed, tickEvents called, hcalling, hresult, fun k hk => ?_,
      fun hnot => ?_, hgeneration, hheard, hcount, howes⟩
    · obtain ⟨hran, htraces, houtcome, -, hcalm⟩ := hcall k hk
      exact ⟨hran, htraces, houtcome, hcalm⟩
    · cases called with
      | none => exact hheld rfl
      | some k => exact (hcall k rfl).2.2.2.1 hnot

end MeasurementLoop

/-! ## A pass of no measurement -/

namespace Recorder

def calm : Board (Shared 2 Recorder) := { prompt with inputPending := pure false }

/-- A recorded host that obeys its control and lets breakable passes start. -/
def obedient : Host 2 Recorder where
  service i := do
    modify fun w => { w with control := w.control.drain.2 }
    return i
  canStart := return if (← get).control.canStart then some true else none
  handleResult r := modify fun w => { w with
    control := w.control.finish r.completed
    environment.results := w.environment.results ++ [r] }
  listen := recording.listen

theorem calm_calm (w : Shared 2 Recorder) : calm.Calm w where
  now {v} _ := ⟨0, v, rfl⟩
  inputPending {v} _ := ⟨false, v, rfl⟩
  indicate {v} _ _ := ⟨v, rfl⟩
  clock _ h _ h' := by
    cases h
    cases h'
    decide
  idle _ h := by
    cases h
    rfl
  slice _ h _ h' := by
    cases h
    cases h'
    decide

theorem observer_sees_obedient : observer.Sees calm obedient where
  frames := { observer_sees.frames with inputPending := .pure _ }
  tune := observer_sees.tune
  buffers := observer_sees.buffers
  started := observer_sees.started
  completed := observer_sees.completed
  canStart := .bind .get fun _ => .pure _
  handleResult h := by
    cases h
    exact ⟨(UInt32.add_zero _).symm, rfl, (List.append_nil _).symm, rfl, id⟩
  service h := by
    cases h
    exact .single (.aside ⟨Or.inl rfl, rfl, rfl, id⟩)

theorem obedient_obeys : MeasurementLoop.Obedient calm obedient where
  frames := {
    now := .pure _
    relax := .modify fun _ => rfl
    select := fun _ => .pure _
    takeSettlingCycles := .pure _
    inputPending := .pure _
    indicate := fun _ => .pure _
    capture := fun _ _ => rfl }
  tune _ := .pure _
  listen _ := .modify fun _ => rfl
  service h := by
    cases h
    rfl
  canStart {r w w'} h := by
    cases h
    cases hstart : w.control.canStart <;> exact ⟨rfl, rfl⟩
  handleResult h := by
    cases h
    rfl

def blankSettings : Settings where
  traces := (default : Settings).traces.map fun t => { t with enabled := false }

/-- The calibration was made on another plan. -/
def blank : MeasurementLoop 2 where
  instrument := .start { plan := ⟨0, 0, 0⟩ } blankSettings

theorem blank_nothingShown (c : Channel) : blank.instrument.settings.measures c = false := by
  cases c <;> decide +kernel

theorem blank_reachable : blank.instrument.Reachable Recorder := ⟨_, _, .refl⟩

theorem blank_hasCorrections : blank.instrument.hasCorrections = true := by
  have hflag : blank.instrument.calibration.status.has .interpolated = true := by decide +kernel
  unfold Instrument.hasCorrections
  rw [hflag]
  simp

theorem obedient_serves (i : Instrument 2) : obedient.service i fresh = .ok (i, fresh) := rfl

theorem obedient_starts : obedient.canStart fresh = .ok (some true, fresh) := rfl

/-- The first call completes a pass, whatever the comparisons say. -/
theorem runs_blank : ∀ a b c d, TestSet.meets (blank.run calm obedient true
    (TestSet.flagged a b c d blank.instrument) fresh) fun x =>
      MeasurementLoop.completes x.1.1 && x.2.buffers.generation == 1 &&
        x.2.environment.heard.countP Event.isCompletion == 1 &&
        !(x.2.control.finish true).owes := by
  decide +kernel

theorem blank_tick : ∃ mask l w, blank.tick calm obedient fresh = .ok ((some ⟨mask, true⟩, l), w) ∧
    w.buffers.generation = 1 ∧ w.environment.heard.countP Event.isCompletion = 1 ∧
    w.control.owes = false := by
  obtain ⟨a, b, c, d, hmask⟩ := TestSet.activeMask_flagged
  obtain ⟨⟨⟨outcome, l⟩, w⟩, hrun, hall⟩ := TestSet.meets_inv (runs_blank a b c d)
  simp only [Bool.and_eq_true, beq_iff_eq, Bool.not_eq_true'] at hall
  obtain ⟨⟨⟨hcompletes, hgeneration⟩, hheard⟩, howes⟩ := hall
  obtain rfl : outcome = .ok true := MeasurementLoop.completed_iff.mp hcompletes
  let mask := TestSet.flagged a b c d blank.instrument
  let done : Shared 2 Recorder := { w with
    control := w.control.finish true
    environment.results := w.environment.results ++ [⟨mask, true⟩] }
  refine ⟨mask, l, done, ?_, hgeneration, hheard, howes⟩
  rw [MeasurementLoop.tick_eq calm (obedient_serves _) obedient_starts (hmask _ rfl)]
  exact Run.bind_ok _ hrun

/-- At power-up a pass is owed. With no trace enabled the first breakable tick completes one: it
counts a generation, announces the completion and discharges the owed pass. -/
theorem tick_completes_blank : ∃ mask l w, blank.instrument.Reachable Recorder ∧
    (∀ c, blank.instrument.settings.measures c = false) ∧ fresh.control.owes = true ∧
    obedient.canStart fresh = .ok (some true, fresh) ∧
    blank.tick calm obedient fresh = .ok ((some ⟨mask, true⟩, l), w) ∧
    fresh.buffers.generation = 0 ∧ w.buffers.generation = 1 ∧
    w.environment.heard.countP Event.isCompletion = 1 ∧ w.control.owes = false := by
  obtain ⟨mask, l, w, htick, hgeneration, hheard, howes⟩ := blank_tick
  exact ⟨mask, l, w, blank_reachable, blank_nothingShown, rfl, obedient_starts, htick, rfl,
    hgeneration, hheard, howes⟩

/-- The call of that tick runs on a board that has neither source nor multiplexer, and so does any
other of this instrument. -/
theorem tick_nothingShown_blank : ∃ mask l w called v,
    blank.tick calm obedient fresh = .ok ((some ⟨mask, true⟩, l), w) ∧
    blank.calling calm obedient fresh = .ok (called, v) ∧
    (∀ k, called = some k → k.Ran calm.unplugged ∧ k.traces = k.start.buffers.traces) ∧
    w.buffers.generation = fresh.buffers.generation + 1 ∧ w.control.owes = false ∧
    ∀ u v, ∃ p v', Pass.execute calm (some blank.instrument.calibration) true
      blank.instrument.activeMask ⟨blank.instrument.head, u⟩ v = .ok ((.ok true, p), v') := by
  obtain ⟨mask, l, w, htick, -⟩ := blank_tick
  have hconnected : observer.connected fresh := rfl
  obtain ⟨hcalls, hticks⟩ := MeasurementLoop.tick_nothingShown observer_sees_obedient
    obedient_obeys hconnected blank_reachable blank_nothingShown (obedient_serves _)
    obedient_starts
  obtain ⟨called, v, completed, events, hcalling, hresult, hcalled, -, hgeneration, -, -, howes⟩ :=
    hticks _ _ _ htick
  rw [Option.some.injEq, SweepResult.mk.injEq] at hresult
  obtain ⟨-, rfl⟩ := hresult
  refine ⟨mask, l, w, called, v, htick, hcalling, fun k hk => ?_, hgeneration, ?_, fun u v => ?_⟩
  · obtain ⟨hran, htraces, -⟩ := hcalled k hk
    exact ⟨hran, htraces⟩
  · rw [howes, Bool.not_true, Bool.and_false]
  · obtain ⟨all, p, v', hcall, -, -, hanswer⟩ := hcalls u v (calm_calm v).toReplies
    obtain rfl : all = true := (hanswer (calm_calm v)).trans blank_hasCorrections
    exact ⟨p, v', hcall⟩

end Recorder

end NetworkAnalyzer
