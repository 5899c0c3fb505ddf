import NetworkAnalyzer.Channel
import NetworkAnalyzer.Spectrum.TimeDomain
import NetworkAnalyzer.Trace.Smoothing

/-!
# Processing of a completed pass

Every measured channel is smoothed and, for a time domain display, transformed, in this order and in
place. Channels that the pass did not measure keep what they have.

Both work on the first `points` entries of a trace, which is as many as the pass has measured; the
entries behind them stay. The transforms of the two channels share one `TimeDomain`.
-/

namespace NetworkAnalyzer

inductive Domain where
  | frequency
  | time
  deriving DecidableEq, Repr, Inhabited

/-- What is done to the traces of a completed pass. -/
structure Processing where
  smoothFactor : UInt8 := 0
  smoothMode : SmoothMode := .arithmetic
  domain : Domain := .frequency
  response : ResponseKind := .lowpassImpulse
  window : WindowShape := .normal
  deriving DecidableEq, Repr

namespace Processing

/-- The first `points` entries of a trace smoothed. -/
def smoothTrace (o : Processing) (points : Nat) {N : Nat} (v : Vector (Phasor Float32) N) :
    Vector (Phasor Float32) N :=
  let smoothed := (Smoothing.smooth o.smoothMode.mean o.smoothFactor (v.toList.take points)).toArray
  Vector.ofFn fun j => if j.val < points then smoothed.getD j.val (v.get j) else v.get j

def applyTrace (o : Processing) (points : Nat) (t : TimeDomain Float32) {N : Nat}
    (v : Vector (Phasor Float32) N) : TimeDomain Float32 × Vector (Phasor Float32) N :=
  let v := if o.smoothFactor = 0 then v else o.smoothTrace points v
  match o.domain with
  | .frequency => (t, v)
  | .time => t.transform Roots.rounded v points o.response o.window

/-- Smooths and transforms every channel that `mask` measures. -/
def apply (o : Processing) (t : TimeDomain Float32) {N : Nat} (traces : Traces Float32 N)
    (points : UInt16) (mask : SweepMask) : TimeDomain Float32 × Traces Float32 N :=
  mask.channels.foldl
    (fun (t, traces) c =>
      let (t, v) := o.applyTrace (min points.toNat N) t (traces.get c)
      (t, traces.set c v))
    (t, traces)

end Processing

end NetworkAnalyzer
