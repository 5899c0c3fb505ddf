import NetworkAnalyzer.Parameters
import NetworkAnalyzer.Phasor

/-!
# Smoothing

Three-point smoothing of a trace in place. One pass goes from left to right and replaces every
interior point by the mean of itself and its two neighbours as they were before the pass. The left
neighbour has been replaced by then, so the pass carries the value that it replaced last. The end
points stay.

The mean is the weighted arithmetic one, which counts the point twice, or the geometric one. Real
and imaginary parts are smoothed independently.

A factor `f` asks for `2 ^ (f - 1)` passes, but no more than there are interior points; zero smooths
nothing.
-/

namespace NetworkAnalyzer

open Parameters

inductive SmoothMode where
  /-- `(v₀ + 2 v₁ + v₂) / 4` -/
  | arithmetic
  /-- The cube root of `|v₀ v₁ v₂|`, with the sign of the sum. -/
  | geometric
  deriving DecidableEq, Repr, Inhabited

namespace Smoothing

variable {α : Type}

/-- The weighted mean of a point and its neighbours. -/
def arithmeticMean [Scalar α] (v₀ v₁ v₂ : α) : α :=
  (v₀ + Scalar.ofNat 2 * v₁ + v₂) * Scalar.ofDecimal 25 2

/-- The root of the absolute product, with the sign of the sum. -/
def geometricMean (v₀ v₁ v₂ : Float32) : Float32 :=
  let v := (v₀ * v₁ * v₂).abs.toFloat.cbrt.toFloat32
  if v₀ + v₁ + v₂ < 0 then -v else v

/-- Real and imaginary parts are averaged separately. -/
def meanPhasor (mean : α → α → α → α) (z₀ z₁ z₂ : Phasor α) : Phasor α :=
  ⟨mean z₀.re z₁.re z₂.re, mean z₀.im z₁.im z₂.im⟩

/-- Point `i + 1` replaced by the mean of itself and its neighbours. `left` is the point before it
as the pass found it: the trace holds the mean of that point by now. The replaced value is the
next `left`. -/
def step (mean : α → α → α → α) {n : Nat} (i : Nat) (inside : i + 2 < n) :
    Phasor α × Vector (Phasor α) n → Phasor α × Vector (Phasor α) n
  | (left, x) =>
    let z := x[i + 1]
    (z, x.set (i + 1) (meanPhasor mean left z x[i + 2]))

/-- One pass over a trace, in place and from left to right. -/
def pass (mean : α → α → α → α) {n : Nat} (x : Vector (Phasor α) n) (long : 2 < n) :
    Vector (Phasor α) n :=
  (Fin.foldl (n - 2) (fun s i => step mean i (by omega) s) (x[0], x)).2

/-- Number of passes: `2 ^ (factor - 1)`, but no more than there are interior points. -/
def passes (factor : UInt8) (length : Nat) : Nat :=
  min (1 <<< ((min factor smoothFactorMax).toNat - 1)) (length - 2)

def iterate (mean : α → α → α → α) {n : Nat} (long : 2 < n) :
    Nat → Vector (Phasor α) n → Vector (Phasor α) n
  | 0, x => x
  | count + 1, x => iterate mean long count (pass mean x long)

/-- Smooths a trace as often as `factor` says. A factor of zero disables smoothing, and a trace
without interior points stays. -/
def smooth (mean : α → α → α → α) (factor : UInt8) (x : List (Phasor α)) : List (Phasor α) :=
  if h : factor ≠ 0 ∧ 2 < x.length then
    (iterate mean h.2 (passes factor x.length) ⟨x.toArray, List.size_toArray⟩).toList
  else x

end Smoothing

def SmoothMode.mean : SmoothMode → Float32 → Float32 → Float32 → Float32
  | .arithmetic => Smoothing.arithmeticMean
  | .geometric => Smoothing.geometricMean

end NetworkAnalyzer
