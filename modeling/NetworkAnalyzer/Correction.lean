import NetworkAnalyzer.Calibration.Basic

/-!
# Corrections

What is applied to a raw receiver value `m`, point by point.

* **Reflection**: `Γ = (m - directivity) / (tracking + match · (m - directivity))`. The error terms
  are those of a one-port model, and where the denominator vanishes the value less the directivity
  stays.
* **Transmission**: `(m - isolation) · tracking`, with the tracking stored inverted. The enhanced
  response also takes out the match of the source, for which it needs the reflection of the same
  point.
* **Impedance**: `Γ' = (Γ - k) / (1 - kΓ)` with `k = (Z - Z₀) / (Z + Z₀)`, which refers a reflection
  to another impedance. A denominator at or below `renormalizeGuard` leaves the value.
* **Electrical delay**: the phase of a line of the given length is rotated back.
* **Gain offset**: a factor, given in decibels.

The first three are rational and are written over any `Scalar`, so that what they do exactly and
what they do in single precision is one definition. Delay and gain need a sine, a cosine and an
exponential, which singles alone have here.

In which order they are applied, and to which channel, is decided where a point is measured.
-/

namespace NetworkAnalyzer.Correction

section Exact

variable {α : Type} [Scalar α]

/-- A reflection corrected for the error terms. A vanishing denominator leaves the
value less the directivity. -/
def reflection (m : Phasor α) (t : Terms α) : Phasor α :=
  let d := m - t.directivity
  d.divOr (t.reflectionTracking + t.sourceMatch * d) 0 d

/-- A transmission corrected for the error terms. `γ` is the reflection of the same
point, used by the enhanced response only. -/
def transmission (m γ : Phasor α) (t : Terms α) (enhanced : Bool) : Phasor α :=
  let v := (m - t.isolation) * t.transmissionTracking
  if enhanced then v * (1 - t.sourceMatch * γ) else v

/-- Squared magnitude at or below which a change of impedance leaves the value. -/
def renormalizeGuard : α := Scalar.ofDecimal 1 9

/-- The reflection `γ`, referred to `reference` ohms, referred to `load` ohms. -/
def renormalize (γ : Phasor α) (load reference : α) : Phasor α :=
  let k := (load - reference) / (load + reference)
  let den : Phasor α := ⟨1 - γ.re * k, -γ.im * k⟩
  if den.normSq ≤ renormalizeGuard then γ else ⟨γ.re - k, γ.im⟩ / den

end Exact

/-- Rotates by the phase a delay makes at a frequency. -/
def electricalDelay (z : Phasor Float32) (delay : Float32) (f : UInt32) : Phasor Float32 :=
  z.rotate (delay * Scalar.ofNat f.toNat)

/-- A twentieth of the natural logarithm of ten: nepers per decibel. -/
def nepersPerDecibel : Float32 := (2.302585093 : Float32) / 20

/-- The linear gain of an offset in decibels. -/
def gain (db : Float32) : Float32 := (db * nepersPerDecibel).toFloat.exp.toFloat32

end NetworkAnalyzer.Correction
