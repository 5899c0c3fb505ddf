import NetworkAnalyzer.Scalar

/-!
# Kaiser window

The window is `I₀(β·√(1 - r²))` with the modified Bessel function `I₀` of order zero and `r` running
from -1 to 1 along the samples. It is not normalized: its smallest value, at the two ends, is 1.

`I₀` is even, so it is taken as a power series in the squared half argument, `Σ zᵐ / (m!)²`, and no
root is drawn. The series stops at the power 12, with coefficients of 17 digits.

The window is written over any `Scalar`. All terms are positive, which is what its properties rest
on, and none of them needs the series to be a Bessel function.
-/

namespace NetworkAnalyzer.Kaiser

variable {α : Type} [Scalar α]

/-- The coefficients `1 / (m!)²` of the series for `m` from 2 to 12, to 17 digits. -/
def coefficients : List α :=
  [Scalar.ofDecimal 25000000000000000 17,
   Scalar.ofDecimal 27777777777777778 18,
   Scalar.ofDecimal 17361111111111111 19,
   Scalar.ofDecimal 69444444444444444 21,
   Scalar.ofDecimal 19290123456790123 22,
   Scalar.ofDecimal 39367598891408415 24,
   Scalar.ofDecimal 61511873267825649 26,
   Scalar.ofDecimal 75940584281266233 28,
   Scalar.ofDecimal 75940584281266233 30,
   Scalar.ofDecimal 62760813455591928 32,
   Scalar.ofDecimal 43583898233049950 34]

/-- The terms `c · z ^ m` added to `sum` one after the other; `power` is the power
of `z` reached so far. -/
def series (z : α) : List α → α → α → α
  | [], _, sum => sum
  | c :: cs, power, sum => series z cs (power * z) (sum + power * z * c)

def besselI0 (z : α) : α := series z coefficients z (1 + z)

/-- Window value at sample `k` of `n` for the shape `β`. The rectangular window
(`β = 0`) and a window of fewer than two samples are 1 throughout. -/
def window (k n : UInt32) (β : UInt16) : α :=
  if β = 0 || n < 2 then 1
  else
    let last : α := Scalar.ofNat (n - 1).toNat
    let x : α := Scalar.ofNat k.toNat
    let b : α := Scalar.ofNat β.toNat
    besselI0 (x * (last - x) * b * b / (last * last))

end NetworkAnalyzer.Kaiser
