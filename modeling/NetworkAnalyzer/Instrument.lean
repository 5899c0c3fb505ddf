import NetworkAnalyzer.Calibration.Record
import NetworkAnalyzer.Calibration.Solution
import NetworkAnalyzer.Readout.Dump
import NetworkAnalyzer.Settings.Basic
import NetworkAnalyzer.Sweep.Session

/-!
# Instrument

Settings, calibration and sweep together, as the measurement task owns them. The settings and the
calibration decide the mask of a pass.

* A regular pass measures the channels of the enabled traces and applies whatever is set
  (`Settings.activeMask`).
* A scan on the console measures the channels it outputs, or both if nothing was asked for, and may
  opt out of single corrections (`Settings.scanMask`). It never refers the reflection to another
  impedance.

The error terms belong to the frequencies of the calibration. If the sweep has others, the terms
are looked up between the points. Whether that is needed is stored with the calibration and decided
anew whenever the plan or the calibration may have changed: when settings are applied, when a
calibration was measured, solved or loaded (`refreshInterpolation`). A mask does not decide it; it
copies the stored answer.

Settings are forced into their valid range when they are adopted, so what the instrument holds may
differ from what was asked for.
-/

namespace NetworkAnalyzer

/-! ## Masks -/

/-- A correction whose setting is zero is left out of the sweep. -/
def Settings.corrections (s : Settings) : SweepMask :=
  ((Flags.none.put .delayS11 (s.correction.delayS11 != 0)).put .delayS21
    (s.correction.delayS21 != 0)).put .gainOffset (s.correction.gainOffset != 0)

/-- What one pass of the measurement task measures and corrects: the channels of the
enabled traces, the error terms once they are complete, and the corrections that
are set. An impedance of at most one ohm is never referred to. -/
def Settings.activeMask (s : Settings) (status : CalStatus) : SweepMask :=
  let load := s.correction.portImpedance
  ((((s.corrections.withChannel .s11 (s.measures .s11)).withChannel .s21 (s.measures .s21)).put
    .calibrate (status.has .apply)).put .interpolate (status.has .interpolated)).put .renormalize
    (load != s.correction.referenceImpedance && decide (1 < load))

/-- What a console scan measures and corrects. Without an output request both
channels are measured; an opt-out leaves its correction out. -/
def Settings.scanMask (s : Settings) (status : CalStatus) (out : Option ScanMask)
    (interpolate : Bool) : SweepMask :=
  let out := out.getD .none
  let all := out.isEmpty
  let m : SweepMask := .none
  let m := m.withChannel .s11 (all || out.has .dataS11)
  let m := m.withChannel .s21 (all || out.has .dataS21)
  let m := m.put .calibrate (status.has .apply && !out.has .noCalibration)
  let m := m.put .delayS11 (s.correction.delayS11 != 0 && !out.has .noDelay)
  let m := m.put .delayS21 (s.correction.delayS21 != 0 && !out.has .noDelay)
  let m := m.put .gainOffset (s.correction.gainOffset != 0 && !out.has .noGainOffset)
  m.put .interpolate interpolate

/-! ## The instrument -/

structure Instrument (N : Nat) where
  head : SweepHead
  calibration : Calibration Float32 N := .empty
  settings : Settings := default

namespace Instrument

variable {N : Nat} {ε : Type}

/-- Decides anew whether the plan needs interpolated terms. -/
def refreshInterpolation (i : Instrument N) : Instrument N :=
  { i with calibration := i.calibration.updateInterpolation i.head.plan }

/-- Adopts settings, forced into their valid range. Another plan restarts the pass. -/
def applySettings (i : Instrument N) (s : Settings) : Instrument N :=
  let s := s.sanitize
  let head := i.head.setPlan s.plan
  { i with head := { head with config := s.sweepConfig }, settings := s }.refreshInterpolation

def start (head : SweepHead) (s : Settings) : Instrument N :=
  ({ head } : Instrument N).applySettings s

def activeMask (i : Instrument N) : SweepMask := i.settings.activeMask i.calibration.status

def execute (board : Board (Shared N ε)) (breakable : Bool) (mask : SweepMask)
    (traces : Traces Float32 N) (i : Instrument N) :
    Run (Shared N ε) (Except Failure Bool × Traces Float32 N × Instrument N) := do
  let (outcome, p) ← Pass.execute board (some i.calibration) breakable mask ⟨i.head, traces⟩
  return (outcome, p.traces, { i with head := p.head })

def calibrate (board : Board (Shared N ε)) (s : Standard) (i : Instrument N) :
    Run (Shared N ε) (Except Failure Unit × Instrument N) := do
  let (outcome, calibration, head) ←
    i.head.collect board s i.settings.sweep.averaging i.calibration
  return (outcome, { i with calibration, head })

def finishCalibration (i : Instrument N) : Instrument N :=
  { i with calibration := i.calibration.solve }.refreshInterpolation

/-- Loads a stored calibration. The plan may have changed since it was stored, so the
need for interpolation is decided anew. -/
def restoreCalibration (i : Instrument N) (bytes : Wire.Bytes) (slot : UInt16) :
    Except RecordError Unit × Instrument N :=
  let (outcome, calibration) := i.calibration.restore bytes slot
  (outcome, { i with calibration }.refreshInterpolation)

def scan (board : Board (Shared N ε)) (mask : SweepMask) (i : Instrument N) :
    Run (Shared N ε) (Except Failure Unit × Instrument N) := do
  let (outcome, head) ← i.head.scan board (some i.calibration) mask
  return (outcome.map fun _ => (), { i with head })

end Instrument

end NetworkAnalyzer
