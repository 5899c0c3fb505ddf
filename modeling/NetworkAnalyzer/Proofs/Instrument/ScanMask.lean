import NetworkAnalyzer.Instrument

/-!
# The mask of a scan and the mask of a pass

The measurement task and a console scan derive their masks from the same settings and the same
calibration, each by a policy of its own. A mask that only options were put into is determined by
its options (`Flags.Named`), so the two are compared option by option, in two tables.

A request is compared to a pass if it asks for the data of exactly the channels that are shown and
opts out of nothing (`Shown`). The two policies then differ in one option: a scan never refers the
reflection to another impedance. With an impedance set that is not the one of the calibration, the
display shows the reflection at one impedance and the scan lists it at the other.

* `has_activeMask`, `has_scanMask`: the two policies as tables of options.
* `changesImpedance`: when a pass refers the reflection to another impedance.
* `scanMask_eq`: asked for the channels that are shown, without opt-outs, a scan uses the mask of
  a pass less the change of impedance.
* `scanMask_keeps_impedance`: a display and a dump that disagree.
-/

namespace NetworkAnalyzer

namespace Settings

variable {s : Settings} {status : CalStatus} {out : ScanMask}

/-! ## The two policies -/

/-- The reflection is referred to an impedance that is not the one of the calibration. -/
def changesImpedance (s : Settings) : Bool :=
  s.correction.portImpedance != s.correction.referenceImpedance &&
    decide (1 < s.correction.portImpedance)

theorem named_activeMask (s : Settings) (status : CalStatus) : (s.activeMask status).Named :=
  ((((((((Flags.named_none.put _ _).put _ _).put _ _).put _ _).put _ _).put _ _).put _ _).put _ _)

theorem named_scanMask (s : Settings) (status : CalStatus) (out : Option ScanMask)
    (interpolate : Bool) : (s.scanMask status out interpolate).Named :=
  (((((((Flags.named_none.put _ _).put _ _).put _ _).put _ _).put _ _).put _ _).put _ _)

theorem has_activeMask (s : Settings) (status : CalStatus) (o : SweepOption) :
    (s.activeMask status).has o =
      match o with
      | .measureS11 => s.measures .s11
      | .measureS21 => s.measures .s21
      | .delayS11 => s.correction.delayS11 != 0
      | .delayS21 => s.correction.delayS21 != 0
      | .gainOffset => s.correction.gainOffset != 0
      | .calibrate => status.has .apply
      | .interpolate => status.has .interpolated
      | .renormalize => s.changesImpedance := by
  unfold activeMask corrections SweepMask.withChannel changesImpedance
  cases o <;> simp (disch := decide) [SweepMask.measureOption, Flags.has_put_of_ne]

theorem has_scanMask (s : Settings) (status : CalStatus) (out : ScanMask) (interpolate : Bool)
    (o : SweepOption) :
    (s.scanMask status (some out) interpolate).has o =
      match o with
      | .measureS11 => out.isEmpty || out.outputs .s11
      | .measureS21 => out.isEmpty || out.outputs .s21
      | .delayS11 => s.correction.delayS11 != 0 && !out.has .noDelay
      | .delayS21 => s.correction.delayS21 != 0 && !out.has .noDelay
      | .gainOffset => s.correction.gainOffset != 0 && !out.has .noGainOffset
      | .calibrate => status.has .apply && !out.has .noCalibration
      | .interpolate => interpolate
      | .renormalize => false := by
  unfold scanMask SweepMask.withChannel ScanMask.outputs
  cases o <;> simp (disch := decide) [SweepMask.measureOption, Flags.has_put_of_ne]

/-! ## Scans of what is shown -/

/-- A request for the data of exactly the channels that are shown, one at least, without
opt-outs. -/
structure Shown (s : Settings) (out : ScanMask) : Prop where
  calibration : out.has .noCalibration = false
  delay : out.has .noDelay = false
  gainOffset : out.has .noGainOffset = false
  channels : ∀ c, out.outputs c = s.measures c
  any : ∃ c, s.measures c = true

theorem Shown.not_isEmpty (h : s.Shown out) : out.isEmpty = false := by
  obtain ⟨c, hc⟩ := h.any
  rw [← h.channels c] at hc
  cases c with
  | s11 | s21 => exact Flags.not_isEmpty hc

/-- A scan of what is shown uses the mask of a regular pass, less the change of impedance. It is
the mask of a regular pass exactly if none is asked for. -/
theorem scanMask_eq (h : s.Shown out) :
    s.scanMask status (some out) (status.has .interpolated) =
      (s.activeMask status).put .renormalize false ∧
    (s.scanMask status (some out) (status.has .interpolated) = s.activeMask status ↔
      s.changesImpedance = false) := by
  have heq : s.scanMask status (some out) (status.has .interpolated) =
      (s.activeMask status).put .renormalize false := by
    refine Flags.ext_has (named_scanMask _ _ _ _) ((named_activeMask _ _).put _ _) fun o => ?_
    rw [has_scanMask, h.not_isEmpty, h.calibration, h.delay, h.gainOffset, h.channels, h.channels]
    by_cases ho : o = .renormalize
    · rw [ho, Flags.has_put_same]
    · rw [Flags.has_put_of_ne _ _ ho, has_activeMask]
      cases o with
      | renormalize => exact absurd rfl ho
      | _ => simp
  refine ⟨heq, ?_⟩
  rw [heq, Flags.put_eq_self, has_activeMask]

def bothChannels : ScanMask := (Flags.none.put .dataS11 true).put .dataS21 true

theorem shown_bothChannels (h : ∀ c, s.measures c = true) : s.Shown bothChannels where
  calibration := by decide
  delay := by decide
  gainOffset := by decide
  channels c := by
    rw [h c]
    cases c <;> decide
  any := ⟨.s11, h .s11⟩

/-- A calibration that is applied between its points. -/
def interpolating : CalStatus := (Flags.none.put .apply true).put .interpolated true

theorem scanMask_eq_default :
    (default : Settings).Shown bothChannels ∧ (default : Settings).changesImpedance = false ∧
      (default : Settings).scanMask interpolating (some bothChannels)
        (interpolating.has .interpolated) = (default : Settings).activeMask interpolating := by
  have hshown : (default : Settings).Shown bothChannels :=
    shown_bothChannels fun c => by cases c <;> decide
  have hkept : (default : Settings).changesImpedance = false := by decide +kernel
  exact ⟨hshown, hkept, (scanMask_eq hshown).2.mpr hkept⟩

def seventyFiveOhms : Settings := { (default : Settings) with correction.portImpedance := 75 }

/-- The display shows the reflection at 75 ohms, a scan of the same channels at 50. -/
theorem scanMask_keeps_impedance :
    seventyFiveOhms.Shown bothChannels ∧
      (seventyFiveOhms.activeMask Flags.none).toNat = 131 ∧
      (seventyFiveOhms.scanMask Flags.none (some bothChannels)
        ((Flags.none : CalStatus).has .interpolated)).toNat = 3 := by
  refine ⟨shown_bothChannels fun c => by cases c <;> decide, ?_, ?_⟩
  · decide +kernel
  · decide +kernel

end Settings

end NetworkAnalyzer
