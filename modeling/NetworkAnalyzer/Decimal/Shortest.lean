import NetworkAnalyzer.Decimal.Binary

/-!
# Shortest decimals

The shortest decimal that reads back as a given single: of all decimals in the interval that rounds
to it, one with the fewest digits, and of those the nearest. The ends of the interval belong to it
when the mantissa is even, since a tie then rounds to it.

The interval reaches half way to the two neighbours. It is held in quarters of the last place,
because below a power of two the neighbours are half as far.

The search goes down the grids `10 ^ e` from the coarsest that can matter and takes the first with a
point in the interval. Nine digits always suffice, so both searches have a bound that is no
restriction.

How digits and exponent are laid out as text is a matter of its own: a `Layout` says from where to
where plain notation is used, and how an exponent is written.
-/

namespace NetworkAnalyzer.Decimal

structure Scientific where
  digits : Nat
  exponent : Int
  deriving DecidableEq, Repr

/-- The interval of numbers that round to `mantissa · 2 ^ exponent`, in quarters of
the last place: `low`, the number itself, `high`. Below a power of two the
neighbours are half as far. -/
structure RoundingInterval where
  low : Nat
  value : Nat
  high : Nat
  /-- Quarters of the last place are `2 ^ scale`. -/
  scale : Int
  /-- The ends round to the number. -/
  closed : Bool

/-- Below a power of two the neighbour is half as far away, except at the smallest exponent. -/
def RoundingInterval.of (mantissa : Nat) (exponent : Int) : RoundingInterval :=
  let narrow := mantissa = Nat.pow 2 fractionBits ∧ minExponent < exponent
  { low := 4 * mantissa - if narrow then 1 else 2
    value := 4 * mantissa
    high := 4 * mantissa + 2
    scale := exponent - 2
    closed := mantissa % 2 = 0 }

/-- Whether `d · 10 ^ e` lies in the interval. -/
def RoundingInterval.contains (i : RoundingInterval) (d : Nat) (e : Int) : Bool :=
  let low := (Ratio.binary i.low i.scale).overTen e
  let high := (Ratio.binary i.high i.scale).overTen e
  if i.closed then low.num ≤ d * low.den && d * high.den ≤ high.num
  else low.num < d * low.den && d * high.den < high.num

/-- The least `e` from `e` upwards with the number below `10 ^ e`; `fuel` bounds the
search. -/
def decimalExponent (r : Ratio) : (fuel : Nat) → Int → Int
  | 0, e => e
  | fuel + 1, e => if (r.overTen e).floor = 0 then e else decimalExponent r fuel (e + 1)

/-- The nearest of the two neighbours on the grid `10 ^ e` that lie in the interval;
of two equally near the even one. -/
def RoundingInterval.onGrid (i : RoundingInterval) (e : Int) : Option Nat :=
  let r := (Ratio.binary i.value i.scale).overTen e
  let d := r.floor
  let below := i.contains d e
  let above := i.contains (d + 1) e
  let twice := 2 * (r.num - d * r.den)
  if below && above then
    if twice < r.den || (twice = r.den && d % 2 = 0) then some d else some (d + 1)
  else if below then some d
  else if above then some (d + 1)
  else none

/-- The coarsest grid with a point in the interval, from `10 ^ e` downwards; nine
digits always suffice. -/
def RoundingInterval.shortest (i : RoundingInterval) : (fuel : Nat) → Int → Scientific
  | 0, e => ⟨(Ratio.binary i.value i.scale).overTen e |>.floor, e⟩
  | fuel + 1, e =>
    match i.onGrid e with
    | some d => if d = 0 then i.shortest fuel (e - 1) else ⟨d, e⟩
    | none => i.shortest fuel (e - 1)

/-- Moves trailing zeros of the digits into the exponent. -/
def Scientific.trim (s : Scientific) : (fuel : Nat) → Scientific
  | 0 => s
  | fuel + 1 =>
    if s.digits % 10 = 0 then Scientific.trim ⟨s.digits / 10, s.exponent + 1⟩ fuel else s

/-- The shortest decimal of `mantissa · 2 ^ exponent`, which is not zero. -/
def shortest (mantissa : Nat) (exponent : Int) : Scientific :=
  let i := RoundingInterval.of mantissa exponent
  let top := decimalExponent (Ratio.binary i.value i.scale) 100 (-50)
  (i.shortest 12 (top - 1)).trim 12

/-! ## Layout -/

/-- How a decimal is laid out. With `point` the number of digits before the decimal
point, plain notation is used from `minPoint` to `maxPoint`. -/
structure Layout where
  minPoint : Int
  maxPoint : Int
  /-- The text of what is no finite number. -/
  nonFinite : String

def Layout.text (l : Layout) (s : Scientific) : List Char :=
  let ds := digits s.digits
  let point := ds.length + s.exponent
  if l.minPoint ≤ point ∧ point ≤ l.maxPoint then
    if point ≤ 0 then '0' :: '.' :: zeros (-point).toNat ++ ds
    else if ds.length ≤ point then ds ++ zeros (point - ds.length).toNat ++ ['.', '0']
    else ds.take point.toNat ++ '.' :: ds.drop point.toNat
  else
    let fraction := if ds.length = 1 then [] else '.' :: ds.drop 1
    let e := point - 1
    ds.take 1 ++ fraction ++ 'e' :: (if e < 0 then ['-'] else []) ++ digits e.natAbs

def Layout.write (l : Layout) (x : Float32) : List Char :=
  match Single.of x with
  | .finite negative mantissa exponent =>
    let sign := if negative then ['-'] else []
    if mantissa = 0 then sign ++ ['0', '.', '0'] else sign ++ l.text (shortest mantissa exponent)
  | _ => l.nonFinite.toList

end NetworkAnalyzer.Decimal
