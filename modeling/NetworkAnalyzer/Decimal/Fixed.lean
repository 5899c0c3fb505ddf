import NetworkAnalyzer.Decimal.Binary

/-!
# Fixed places

A single written with a fixed number of decimal places: the exact value, rounded to nearest, a half
to the even neighbour. The sign of a zero is written, and of a number that rounds to zero, too. What
is no number is written `NaN`, the infinities `inf` and `-inf`.
-/

namespace NetworkAnalyzer.Decimal

/-- `mantissa · 2 ^ exponent` in units of `10 ^ -places`. -/
def scaled (places mantissa : Nat) (exponent : Int) : Nat :=
  (Ratio.binary (mantissa * Nat.pow 10 places) exponent).round

/-- At least `width` digits of a number. -/
def padded (width n : Nat) : List Char := zeros (width - (digits n).length) ++ digits n

def fixed (places : Nat) (x : Float32) : List Char :=
  match Single.of x with
  | .notANumber => "NaN".toList
  | .infinite negative => (if negative then "-inf" else "inf").toList
  | .finite negative mantissa exponent =>
    let n := scaled places mantissa exponent
    (if negative then ['-'] else []) ++ digits (n / Nat.pow 10 places) ++ '.'
      :: padded places (n % Nat.pow 10 places)

end NetworkAnalyzer.Decimal
