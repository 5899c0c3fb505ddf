/-!
# Single precision as numbers

A finite single is `± m · 2 ^ q` with whole `m` and `q`. Decimal text is formed from that number
exactly, in whole numbers, so that nothing is rounded but the result.

`Single.of` takes the word apart: an exponent field of ones is an infinity or no number, one of
zeros a subnormal number without the implicit bit. Fractions of whole numbers are what digits are
computed with. A scale by a power of two or ten goes to the numerator or to the denominator, and
`round` is to nearest with a half to the even neighbour.
-/

namespace NetworkAnalyzer.Decimal

inductive Single where
  /-- `± mantissa · 2 ^ exponent` -/
  | finite (negative : Bool) (mantissa : Nat) (exponent : Int)
  | infinite (negative : Bool)
  | notANumber
  deriving DecidableEq, Repr

/-- Bits of the fraction field. -/
def fractionBits : Nat := 23

/-- Exponent of the smallest numbers. -/
def minExponent : Int := -149

/-- The number of a single: sign, exponent field and fraction field of its word. -/
def Single.of (x : Float32) : Single :=
  let bits := x.toBits.toNat
  let negative := bits / Nat.pow 2 31 = 1
  let field := bits / Nat.pow 2 fractionBits % 256
  let fraction := bits % Nat.pow 2 fractionBits
  if field = 255 then
    if fraction = 0 then .infinite negative else .notANumber
  else if field = 0 then .finite negative fraction minExponent
  else .finite negative (Nat.pow 2 fractionBits + fraction) (minExponent + (field - 1 : Nat))

/-- The decimal digits of a number. -/
def digits (n : Nat) : List Char := Nat.toDigits 10 n

def zeros (count : Nat) : List Char := List.replicate count '0'

def infinityWord : Nat := 0x7f800000

/-! ## Fractions -/

structure Ratio where
  num : Nat
  den : Nat

namespace Ratio

def overTwo (r : Ratio) (e : Int) : Ratio :=
  if 0 ≤ e then ⟨r.num, r.den * Nat.pow 2 e.toNat⟩ else ⟨r.num * Nat.pow 2 (-e).toNat, r.den⟩

def overTen (r : Ratio) (e : Int) : Ratio :=
  if 0 ≤ e then ⟨r.num, r.den * Nat.pow 10 e.toNat⟩ else ⟨r.num * Nat.pow 10 (-e).toNat, r.den⟩

/-- `n · 2 ^ e`. -/
def binary (n : Nat) (e : Int) : Ratio := overTwo ⟨n, 1⟩ (-e)

/-- The largest whole number not above the fraction. -/
def floor (r : Ratio) : Nat := r.num / r.den

/-- The nearest whole number, a half to the even neighbour. -/
def round (r : Ratio) : Nat :=
  let twice := 2 * (r.num % r.den)
  if twice < r.den || (twice = r.den && r.floor % 2 = 0) then r.floor else r.floor + 1

end Ratio

end NetworkAnalyzer.Decimal
