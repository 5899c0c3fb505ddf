import NetworkAnalyzer.Calibration.Basic

/-!
# Terms at any frequency

Between two points of the plan the terms are interpolated linearly. The source multiplies its output
in harmonic bands, and the terms jump where the band changes; a bracket of two points in different
bands is therefore moved by one point into the band of the query, and the terms are extrapolated
from there. At a point of the plan, outside its range, and where the moved bracket would leave the
table, the terms of a stored point are taken as they are.

`Lookup.find` decides which points are used, `Calibration.interpolate` combines them. The two are
separate because the first is whole numbers throughout, with one division that rounds down, and the
second is arithmetic over any `Scalar`.

* The bracket of a frequency is found by proportion. It may be off by one point where the points of
  the plan were rounded, and is not searched further.
* The position on the line is the distance to the bracket's first point over its width, less or plus
  one if the bracket was moved.
* A bracket is moved once. Whether its two points then lie in one band is not asked again.

A sweep on the plan of the calibration gives the index of its point, and no frequency is looked at.
-/

namespace NetworkAnalyzer

/-- How a bracket was moved to stay in the band of the query. -/
inductive BandShift where
  | none
  /-- To the two points below. -/
  | down
  /-- To the two points above. -/
  | up
  deriving DecidableEq, Repr

/-- Which stored points the terms at a frequency come from. -/
inductive Lookup where
  /-- One point as it is. -/
  | stored (index : UInt16)
  /-- The straight line through points `lower` and `lower + 1`. Before the shift
  the query lay `offset` of `width` hertz into its bracket. -/
  | line (lower : UInt16) (offset width : UInt32) (shift : BandShift)
  deriving DecidableEq, Repr

namespace Lookup

/-- The line of the bracket that starts at point `i`, moved if its two points lie
in different harmonic bands. -/
def ofBracket (plan : FrequencyPlan) (band : UInt32 → UInt32) (f : UInt32) (i : UInt16) : Lookup :=
  let f₀ := plan.get i
  let f₁ := plan.get (i + 1)
  let last := plan.points - 1
  if band f₀ = band f₁ then .line i (f - f₀) (f₁ - f₀) .none
  else if band f₀ = band f then
    if i = 0 then .stored 0 else .line (i - 1) (f - f₀) (f₁ - f₀) .down
  else
    if last ≤ i + 1 then .stored last else .line (i + 1) (f - f₀) (f₁ - f₀) .up

/-- The bracket of a frequency strictly inside the range of the plan: the point at
or below it, found by proportion. -/
def bracket (plan : FrequencyPlan) (f : UInt32) : UInt16 :=
  ((f - plan.start).toUInt64 * (plan.points - 1).toUInt64
    / (plan.stop - plan.start).toUInt64).toUInt16

/-- The points used for frequency `f`. -/
def find (plan : FrequencyPlan) (band : UInt32 → UInt32) (f : UInt32) : Lookup :=
  if plan.points ≤ 1 || f ≤ plan.start then .stored 0
  else if plan.stop ≤ f then .stored (plan.points - 1)
  else
    let i := bracket plan f
    if f = plan.get i then .stored i else ofBracket plan band f i

/-- Where in its bracket a frequency lies, the lower end being 0 and the upper end 1. A bracket
shifted by one point is extrapolated from, so the coefficient leaves the unit interval. -/
def coefficient {α : Type} [Scalar α] (offset width : UInt32) (shift : BandShift) : α :=
  let k : α := if width = 0 then 0 else Scalar.ofNat offset.toNat / Scalar.ofNat width.toNat
  match shift with
  | .none => k
  | .down => k + 1
  | .up => k - 1

end Lookup

namespace Calibration

variable {α : Type} [Scalar α] {N : Nat}

/-- The terms a look-up stands for. An index outside the table is a fault. -/
def read (c : Calibration α N) : Lookup → Except Fault (Terms α)
  | .stored i => c.termsAt i.toNat
  | .line lower offset width shift => do
    let lo ← c.termsAt lower.toNat
    let hi ← c.termsAt (lower.toNat + 1)
    let k := Lookup.coefficient offset width shift
    return .build fun s => lo.get s + (hi.get s - lo.get s).scale k

/-- The terms at frequency `f`. A sweep on the plan of the calibration gives the
point `index` and takes its terms as they are. -/
def interpolate (c : Calibration α N) (index : Option Nat) (f : UInt32)
    (band : UInt32 → UInt32) : Except Fault (Terms α) :=
  match index with
  | some i => c.termsAt i
  | none => c.read (.find c.plan band f)

end Calibration

end NetworkAnalyzer
