import NetworkAnalyzer.Decimal.Binary

/-!
# Reading decimals

A decimal is an optional sign, digits with an optional point among or around them, and an optional
exponent. It is read as the nearest single; a number too large for one is infinite.

The number is formed exactly, as a fraction of whole numbers, and rounded once. The mantissa is the
nearest whole number of units of a power of two that is chosen so that it has 24 bits, or of the
smallest unit that singles have for subnormal numbers. A mantissa that rounds up to the next power
of two carries into the exponent field of the word, which is the right one then.

Exponents may be large. Far outside the range of singles the result is known without the power.
-/

namespace NetworkAnalyzer.Decimal

def digitsValue (ds : List Char) : Nat := ds.foldl (fun n c => 10 * n + (c.toNat - 48)) 0

def takeSign : List Char → Bool × List Char
  | '-' :: rest => (true, rest)
  | '+' :: rest => (false, rest)
  | cs => (false, cs)

/-- The exponent of a decimal: nothing, or `e` with an optional sign and digits. -/
def readExponent? : List Char → Option Int
  | [] => some 0
  | e :: rest =>
    if e = 'e' ∨ e = 'E' then
      let (negative, ds) := takeSign rest
      if ds ≠ [] ∧ ds.all Char.isDigit then
        some (if negative then -(digitsValue ds : Int) else digitsValue ds)
      else none
    else none

def splitMantissa (cs : List Char) : List Char × List Char × List Char :=
  let whole := cs.takeWhile Char.isDigit
  match cs.dropWhile Char.isDigit with
  | '.' :: rest => (whole, rest.takeWhile Char.isDigit, rest.dropWhile Char.isDigit)
  | rest => (whole, [], rest)

/-- The largest `q` with `r` at least `2 ^ 23` units of `2 ^ q`, but no smaller unit
than singles have. -/
def unitExponent (r : Ratio) : Int :=
  let q : Int := (Nat.log2 r.num : Int) - (Nat.log2 r.den : Int) - (fractionBits + 1 : Nat)
  max minExponent (if (r.overTwo q).floor < Nat.pow 2 (fractionBits + 1) then q else q + 1)

/-- The word of the single nearest to `r`; the even one of two. A mantissa that rounds
up to the next power of two carries into the exponent field. -/
def nearestWord (r : Ratio) : Nat :=
  let q := unitExponent r
  min ((q - minExponent).toNat * Nat.pow 2 fractionBits + (r.overTwo q).round) infinityWord

/-- The single nearest to `n · 10 ^ exponent`. Numbers beyond `10 ^ 40` are infinite,
numbers below `10 ^ -60` zero. -/
def nearest (n : Nat) (exponent : Int) : Float32 :=
  let magnitude := (digits n).length + exponent
  if n = 0 ∨ magnitude < -60 then 0
  else if 40 < magnitude then .ofBits infinityWord.toUInt32
  else .ofBits (nearestWord (Ratio.overTen ⟨n, 1⟩ (-exponent))).toUInt32

def read? (cs : List Char) : Option Float32 :=
  let (negative, cs) := takeSign cs
  let (whole, fraction, rest) := splitMantissa cs
  if whole = [] ∧ fraction = [] then none
  else
    (readExponent? rest).map fun e =>
      let x := nearest (digitsValue (whole ++ fraction)) (e - fraction.length)
      if negative then -x else x

end NetworkAnalyzer.Decimal
