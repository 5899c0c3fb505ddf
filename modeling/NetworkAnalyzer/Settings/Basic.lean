import NetworkAnalyzer.Sweep.Pass
import NetworkAnalyzer.Trace.Processing

/-!
# Settings

The run-time settings of the analyzer. They hold whatever was entered, each value within its type
and not more; they are forced into their valid range by `sanitize` before they reach the
measurement.

`sanitize` exchanges inverted bounds, keeps the points between 11 and 401, the averaging at 1 or
more and the smoothing factor at 8 or less. It leaves impedances and delays alone: an impedance
that makes no sense is dealt with where the mask of a pass is decided.

A pass does not see the settings but a configuration that is derived from them (`sweepConfig`), with
the plan beside it. Settings can therefore change while a pass is under way and concern the next.
-/

namespace NetworkAnalyzer

open Parameters

structure SweepSettings where
  start : UInt32 := 50000
  stop : UInt32 := 900000000
  points : UInt16 := 101
  bandwidth : UInt16 := bandwidth1000
  /-- Passes averaged per calibration standard. -/
  averaging : UInt16 := 1
  deriving DecidableEq, Repr

structure TraceSettings where
  /-- The trace is shown and its channel measured. -/
  enabled : Bool := true
  channel : Channel
  deriving DecidableEq, Repr

structure CorrectionSettings where
  delayS11 : Float32 := 0
  delayS21 : Float32 := 0
  gainOffset : Float32 := 0
  portImpedance : Float32 := loadImpedance
  referenceImpedance : Float32 := loadImpedance
  deriving DecidableEq, Repr

structure Settings where
  sweep : SweepSettings := {}
  traces : Vector TraceSettings traceCount :=
    #v[{ channel := .s11 }, { channel := .s21 }, { channel := .s11 }, { channel := .s21 }]
  correction : CorrectionSettings := {}
  sampler : Sampler := .gamma
  processing : Processing := {}
  deriving DecidableEq

namespace Settings

instance : Inhabited Settings := ⟨{}⟩

/-- Forces every value into its valid range; inverted bounds are exchanged. -/
def sanitize (s : Settings) : Settings :=
  { s with
    sweep := { s.sweep with
      start := min s.sweep.start s.sweep.stop
      stop := max s.sweep.start s.sweep.stop
      points := max pointsMin.toUInt16 (min s.sweep.points pointsMax.toUInt16)
      averaging := max s.sweep.averaging 1 }
    processing := { s.processing with
      smoothFactor := min s.processing.smoothFactor smoothFactorMax } }

def plan (s : Settings) : FrequencyPlan := ⟨s.sweep.start, s.sweep.stop, s.sweep.points⟩

def measures (s : Settings) (c : Channel) : Bool :=
  s.traces.toList.any fun t => t.enabled && t.channel == c

def delay (s : Settings) : Channel → Float32
  | .s11 => s.correction.delayS11
  | .s21 => s.correction.delayS21

def sweepConfig (s : Settings) : SweepConfig :=
  { bandwidth := s.sweep.bandwidth
    delayS11 := s.correction.delayS11
    delayS21 := s.correction.delayS21
    gainOffset := s.correction.gainOffset
    portImpedance := s.correction.portImpedance
    referenceImpedance := s.correction.referenceImpedance
    sampler := s.sampler }

end Settings

end NetworkAnalyzer
