import NetworkAnalyzer.Instrument
import NetworkAnalyzer.Proofs.Calibration.Readings
import NetworkAnalyzer.Proofs.Calibration.Solving
import NetworkAnalyzer.Proofs.Calibration.Storing
import NetworkAnalyzer.Proofs.Loop.Interludes

/-!
# The plan of the tables and the plan of the sweep

An instrument keeps two plans: the sweep's, and the one its tables were recorded on. The
first changes with the settings, the second with every measurement of a standard and with
every record that is loaded. A pass that corrects without interpolation takes term `j` at
point `j`, which is right only while the two plans are the same.

The need for interpolation is stored as a flag of the calibration, and every operation that may
change either plan decides it anew, with one exception: measuring a standard. It ends the
correction instead, whether it succeeds or fails, and solving decides the flag again before the
correction is back on. So the invariant is an implication (`Flagged`): while the correction is
enabled, the flag is right.

Nothing is assumed about the board. A measurement may fail, a pass may end early, and the other
tasks may do anything meanwhile; the invariant only needs to know what an operation leaves of the
plans.

* `Operation`, `Reachable`: what can be done to an instrument, and where it leads.
* `Operation.flagged`: every operation leaves the interpolation flag right, or the correction
  disabled.
* `Operation.plan`, `Reachable.points_le`: where the plan of the sweep comes from. It fits the
  tables, since settings are forced into their range.
* `Reachable.plan_eq`: a pass that corrects without interpolation sweeps the plan of the tables.
* `Reachable.corrects_own_frequency`: every point is corrected with the entry of its own
  frequency.
-/

namespace NetworkAnalyzer

variable {N : Nat} {ε : Type}

/-! ## Measuring a standard -/

/-- Measuring a standard ends the correction, whether it succeeds or fails. -/
theorem Calibration.collect_apply {σ α : Type} [Scalar α] {sweeper : Sweeper σ α} {s : Standard}
    {averaging : UInt16} {c c' : Calibration α N} {r : Except Failure Unit} {w w' : σ}
    (h : c.collect sweeper s averaging w = .ok ((r, c'), w')) : c'.status.has .apply = false := by
  obtain ⟨values, -, -, hstatus, -⟩ := collect_inv h
  rw [hstatus]
  exact s.has_collected_apply _ _

theorem Settings.sanitize_points_le (s : Settings) :
    s.sanitize.plan.points.toNat ≤ Parameters.pointsMax := by
  change (if Parameters.pointsMin.toUInt16 ≤ min s.sweep.points Parameters.pointsMax.toUInt16 then
    min s.sweep.points Parameters.pointsMax.toUInt16 else Parameters.pointsMin.toUInt16).toNat ≤ _
  split
  · exact UInt16.le_iff_toNat_le.mp Std.min_le_right
  · decide

namespace Instrument

/-! ## What can be done to an instrument -/

/-- One operation on an instrument, whatever its outcome and whatever the world does
meanwhile. -/
inductive Operation (ε : Type) : Instrument N → Instrument N → Prop
  | applySettings {i : Instrument N} (s : Settings) : Operation ε i (i.applySettings s)
  | calibrate {i i' : Instrument N} {board : Board (Shared N ε)} {s : Standard}
      {r : Except Failure Unit} {w w' : Shared N ε} :
      i.calibrate board s w = .ok ((r, i'), w') → Operation ε i i'
  | finishCalibration {i : Instrument N} : Operation ε i i.finishCalibration
  | restoreCalibration {i : Instrument N} (bytes : Wire.Bytes) (slot : UInt16) :
      Operation ε i (i.restoreCalibration bytes slot).2
  | execute {i i' : Instrument N} {board : Board (Shared N ε)} {breakable : Bool}
      {mask : SweepMask} {u u' : Traces Float32 N} {r : Except Failure Bool} {w w' : Shared N ε} :
      i.execute board breakable mask u w = .ok ((r, u', i'), w') → Operation ε i i'
  | scan {i i' : Instrument N} {board : Board (Shared N ε)} {mask : SweepMask}
      {r : Except Failure Unit} {w w' : Shared N ε} :
      i.scan board mask w = .ok ((r, i'), w') → Operation ε i i'
  | reset {i : Instrument N} : Operation ε i { i with calibration := i.calibration.reset }
  | setEnhancedResponse {i : Instrument N} (on : Bool) :
      Operation ε i { i with calibration := i.calibration.setEnhancedResponse on }
  | setSaveSlot {i : Instrument N} (slot : UInt16) :
      Operation ε i { i with calibration := i.calibration.setSaveSlot slot }

/-- The instruments that operations lead to. -/
def Reachable (ε : Type) (i : Instrument N) : Prop :=
  ∃ head s, Relation.ReflTransGen (Operation ε) (start head s) i

/-- While the correction is enabled, interpolation is flagged exactly if the tables were recorded
on another plan than the one being swept. -/
def Flagged (i : Instrument N) : Prop :=
  i.calibration.status.has .apply = true →
    i.calibration.status.has .interpolated = !decide (i.calibration.plan = i.head.plan)

theorem refreshInterpolation_flagged (i : Instrument N) : i.refreshInterpolation.Flagged := by
  intro _
  refine (Flags.has_put_same _ _ _).trans ?_
  rw [FrequencyPlan.covers_eq]
  rfl

theorem Flagged.of_apply {i : Instrument N} (h : i.calibration.status.has .apply = false) :
    i.Flagged := fun happly => absurd (happly.symm.trans h) (by decide)

theorem Flagged.of_same {i i' : Instrument N} (hi : i.Flagged)
    (hcal : i'.calibration = i.calibration) (hplan : i'.head.plan = i.head.plan) : i'.Flagged := by
  unfold Flagged
  rw [hcal, hplan]
  exact hi

theorem Operation.flagged {i i' : Instrument N} (h : Operation ε i i') (hi : i.Flagged) :
    i'.Flagged := by
  cases h with
  | applySettings s => exact refreshInterpolation_flagged _
  | calibrate h =>
    obtain ⟨c, head, hcollect, rfl⟩ := calibrate_inv h
    exact .of_apply (Calibration.collect_apply (SweepHead.collect_inv hcollect))
  | finishCalibration => exact refreshInterpolation_flagged _
  | restoreCalibration bytes slot => exact refreshInterpolation_flagged _
  | execute h =>
    obtain ⟨head, hexecute, rfl⟩ := execute_inv h
    exact hi.of_same rfl (SweepHead.execute_plan hexecute)
  | scan h =>
    obtain ⟨outcome, head, hscan, -, rfl⟩ := scan_inv h
    exact hi.of_same rfl (SweepHead.scan_plan hscan)
  | reset => exact .of_apply (Flags.has_none _)
  | setEnhancedResponse on =>
    intro happly
    have hother := fun o h => Flags.has_put_of_ne i.calibration.status (o := .enhancedResponse)
      (p := o) on h
    exact (hother .interpolated (by decide)).trans
      (hi ((hother .apply (by decide)).symm.trans happly))
  | setSaveSlot slot => exact fun happly => hi happly

theorem Reachable.flagged {i : Instrument N} (h : i.Reachable ε) : i.Flagged := by
  obtain ⟨head, s, hrun⟩ := h
  induction hrun with
  | refl => exact refreshInterpolation_flagged _
  | tail _ hstep ih => exact hstep.flagged ih

/-- An operation leaves the plan, or takes it from settings in their valid range. -/
theorem Operation.plan {i i' : Instrument N} (h : Operation ε i i') :
    i'.head.plan = i.head.plan ∨ ∃ s : Settings, i'.head.plan = s.sanitize.plan := by
  cases h with
  | applySettings s => exact Or.inr ⟨s, applySettings_plan i s⟩
  | calibrate h =>
    obtain ⟨c, head, hcollect, rfl⟩ := calibrate_inv h
    exact Or.inl (SweepHead.collect_plan hcollect)
  | execute h =>
    obtain ⟨head, hexecute, rfl⟩ := execute_inv h
    exact Or.inl (SweepHead.execute_plan hexecute)
  | scan h =>
    obtain ⟨outcome, head, hscan, -, rfl⟩ := scan_inv h
    exact Or.inl (SweepHead.scan_plan hscan)
  | finishCalibration => exact Or.inl rfl
  | restoreCalibration => exact Or.inl rfl
  | reset => exact Or.inl rfl
  | setEnhancedResponse => exact Or.inl rfl
  | setSaveSlot => exact Or.inl rfl

theorem Reachable.points_le {i : Instrument N} (h : i.Reachable ε) :
    (i.head.points N).toNat ≤ Parameters.pointsMax := by
  obtain ⟨head, s, hrun⟩ := h
  have hplan : i.head.plan.points.toNat ≤ Parameters.pointsMax := by
    induction hrun with
    | refl =>
      unfold start
      rw [applySettings_plan]
      exact s.sanitize_points_le
    | tail _ hstep ih =>
      rcases hstep.plan with hsame | ⟨s', hsame⟩
      · rw [hsame]
        exact ih
      · rw [hsame]
        exact s'.sanitize_points_le
  have hle := SweepHead.points_le (N := N) i.head
  omega

/-! ## What a pass corrects with -/

theorem activeMask_measures (i : Instrument N) (c : Channel) :
    i.activeMask.measures c = i.settings.measures c := by
  unfold activeMask Settings.activeMask SweepMask.measures SweepMask.withChannel
  cases c <;> simp (disch := decide) [SweepMask.measureOption, Flags.has_put_of_ne]

theorem activeMask_calibrate (i : Instrument N) :
    i.activeMask.has .calibrate = i.calibration.status.has .apply := by
  simp (disch := decide) [activeMask, Settings.activeMask, Flags.has_put_of_ne]

theorem activeMask_interpolate (i : Instrument N) :
    i.activeMask.has .interpolate = i.calibration.status.has .interpolated := by
  simp (disch := decide) [activeMask, Settings.activeMask, Flags.has_put_of_ne]

/-- A pass without interpolation sweeps the plan of the tables. -/
theorem Reachable.plan_eq {i : Instrument N} (h : i.Reachable ε)
    (hcalibrate : i.activeMask.has .calibrate = true)
    (hinterpolate : i.activeMask.has .interpolate = false) : i.calibration.plan = i.head.plan := by
  rw [activeMask_calibrate] at hcalibrate
  rw [activeMask_interpolate, h.flagged hcalibrate, Bool.not_eq_false'] at hinterpolate
  exact of_decide_eq_true hinterpolate

/-- Point `j` of a pass is corrected with entry `j` of the tables, and that entry belongs to the
frequency the point is measured at. -/
structure Matches (i : Instrument N) (p : PointSetup N) (j : Nat) : Prop where
  calibration : p.calibration = some i.calibration
  termIndex : p.termIndex = some j
  inTables : j < i.calibration.points
  frequency : p.frequency = i.calibration.plan.get j.toUInt16
  terms : ∀ band, ∃ t, i.calibration.table[j]? = some t ∧
    i.calibration.interpolate p.termIndex p.frequency band = .ok t

theorem matches_pointOf {i : Instrument N} (hplan : i.calibration.plan = i.head.plan)
    (hcalibrate : i.activeMask.has .calibrate = true)
    (hinterpolate : i.activeMask.has .interpolate = false) {j : Nat}
    (hj : j < (i.head.points N).toNat) :
    i.Matches (Pass.pointOf (some i.calibration) i.activeMask i.head j) j := by
  have hpoints : j < i.calibration.points := by
    unfold Calibration.points
    rw [hplan]
    exact Nat.lt_of_lt_of_le hj (SweepHead.points_le i.head)
  have hN : j < N := Nat.lt_of_lt_of_le hpoints (Calibration.points_le _)
  have hindex : j.toUInt16.toNat = j :=
    UInt16.toNat_ofNat_of_lt' (Nat.lt_trans hj (i.head.points N).toNat_lt)
  have hterm : (Pass.pointOf (some i.calibration) i.activeMask i.head j).termIndex = some j := by
    unfold PointSetup.termIndex Pass.pointOf
    rw [hinterpolate, if_neg (by decide), hindex]
  refine ⟨if_pos hcalibrate, hterm, hpoints, by rw [hplan]; rfl, fun band => ?_⟩
  rw [hterm]
  exact ⟨_, Vector.getElem?_eq_getElem hN, dif_pos hN⟩

/-- Whatever was done to an instrument: when a regular pass corrects without interpolation, the
tables were recorded on the plan that is swept. Every point that any call of the pass
measures, to its end or not, is corrected with the entry of its own frequency. -/
theorem Reachable.corrects_own_frequency {i : Instrument N} (h : i.Reachable ε)
    (hcalibrate : i.activeMask.has .calibrate = true)
    (hinterpolate : i.activeMask.has .interpolate = false) :
    (i.calibration.plan.start = i.head.plan.start ∧ i.calibration.plan.stop = i.head.plan.stop ∧
      i.calibration.plan.points = i.head.plan.points) ∧
    ∀ {board : Board (Shared N ε)} {breakable : Bool} {u u' : Traces Float32 N}
      {r : Except Failure Bool} {i' : Instrument N} {w w' : Shared N ε},
      i.execute board breakable i.activeMask u w = .ok ((r, u', i'), w') →
      ∃ point : Nat → PointSetup N, (∀ j < (i.head.points N).toNat, i.Matches (point j) j) ∧
        (r = .ok false ∧ u' = u ∨ ∃ b u₁ w₁,
          Pass.Stretch (fun _ _ => True) board point (i.head.startPoint N breakable) b u w u₁ w₁ ∧
          Pass.Ended (fun _ _ => True) board point (i.head.points N).toNat u₁ w₁ b r
            ⟨i'.head, u'⟩ w') := by
  have hplan := h.plan_eq hcalibrate hinterpolate
  refine ⟨by rw [hplan]; exact ⟨rfl, rfl, rfl⟩, fun {board breakable u u' r i' w w'} hrun => ?_⟩
  obtain ⟨⟨outcome, p⟩, w₁, hexecute, h₁⟩ := Run.bind_inv hrun
  obtain ⟨he, rfl⟩ := Run.pure_inv h₁
  cases he
  refine ⟨Pass.pointOf (some i.calibration) i.activeMask i.head,
    fun j hj => matches_pointOf hplan hcalibrate hinterpolate hj, ?_⟩
  obtain ⟨-, -, ⟨-, hr, hu, -⟩ | ⟨-, b, u₁, w₂, hstretch, hended⟩⟩ :=
    Pass.execute_inv board.frames_true hexecute
  · exact Or.inl ⟨hr, hu⟩
  · exact Or.inr ⟨b, u₁, w₂, hstretch, hended⟩

/-- A calibration on the plan of the default settings, solved without any standard. -/
def defaultSolved : Calibration Float32 128 :=
  (Calibration.onPlan .empty (default : Settings).plan).solve

/-- An instrument with the default settings that loaded this calibration. -/
def reloaded : Instrument 128 :=
  ((start { plan := default } default).restoreCalibration defaultSolved.toRecord.toBytes 3).2

theorem corrects_own_frequency_reloaded :
    reloaded.Reachable Unit ∧ reloaded.activeMask.has .calibrate = true ∧
      reloaded.activeMask.has .interpolate = false ∧ reloaded.head.plan.points = 101 ∧
      reloaded.calibration.plan.points = reloaded.head.plan.points := by
  have hreachable : reloaded.Reachable Unit := ⟨_, _, .single (.restoreCalibration _ 3)⟩
  have hrestore := Calibration.restore_toBytes (c := defaultSolved) (by decide)
    (start { plan := default } default : Instrument 128).calibration 3 []
  rw [List.append_nil, Calibration.load_toRecord (by decide)] at hrestore
  have hstatus : reloaded.calibration.status = defaultSolved.status.put .interpolated false := by
    unfold reloaded restoreCalibration
    rw [hrestore]
    rfl
  have hcalibrate : reloaded.activeMask.has .calibrate = true := by
    rw [activeMask_calibrate, hstatus]
    decide
  have hinterpolate : reloaded.activeMask.has .interpolate = false := by
    rw [activeMask_interpolate, hstatus]
    decide
  obtain ⟨⟨-, -, hpoints⟩, -⟩ := hreachable.corrects_own_frequency hcalibrate hinterpolate
  exact ⟨hreachable, hcalibrate, hinterpolate, by decide, hpoints⟩

end Instrument

end NetworkAnalyzer
