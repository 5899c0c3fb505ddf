import NetworkAnalyzer.Calibration.Basic

/-!
# Error terms from standards

The error terms are solved point by point from whatever standards were measured. A term without a
standard behind it is neutral: directivity, source match and isolation zero, both trackings one.

With `s` a reflection standard less the directivity:

* source match: `(open + short) / (open - short)`
* reflection tracking: `σ · (1 - σ · match) · s`, where `s` is the short with `σ = -1`, or the open
  with `σ = 1` when it is the only one
* transmission tracking, inverted: `1 / (thru - isolation)`

A term is solved in the slot of the standard that it replaces, so the order matters: the source
match first, since it needs the open and the short, then the tracking over the short. An open that
stands in for the short is moved into its slot, over the whole table and not only over the points
of the plan.

A denominator whose squared magnitude is at most `degenerate` counts as zero and gives a neutral
term. Solving does not fail.

What was solved is enabled at once, and is not stored yet. Solving again finds terms and no
standards, and changes nothing.
-/

namespace NetworkAnalyzer

/-- Which of short and open have been measured; each combination is solved in its own way. -/
inductive ReflectionSet where
  | shortOpen
  | openOnly
  | shortOnly
  | neither
  deriving DecidableEq, Repr

/-- The reflection standards a status lists. -/
def ReflectionSet.of (s : CalStatus) : ReflectionSet :=
  match s.has .short, s.has .open with
  | true, true => .shortOpen
  | false, true => .openOnly
  | true, false => .shortOnly
  | false, false => .neither

/-- The status once the terms are solved. -/
def solvedStatus (s : CalStatus) : CalStatus :=
  let s := match ReflectionSet.of s with
    | .shortOpen =>
      (((s.put .open false).put .sourceMatch true).put .short false).put .reflectionTracking true
    | .openOnly => ((s.put .open false).put .short false).put .reflectionTracking true
    | .shortOnly => (s.put .short false).put .reflectionTracking true
    | .neither => s
  let s := if s.has .thru then (s.put .thru false).put .transmissionTracking true else s
  s.put .apply true

namespace Terms

variable {α : Type} [Scalar α]

/-- Squared magnitude at or below which a denominator counts as zero. -/
def degenerate : α := Scalar.ofDecimal 1 20

/-- The source match from open and short, both taken relative to the directivity. Where they agree
there is nothing to divide by and the port counts as matched. -/
def solveMatch (t : Terms α) : Terms α :=
  let o := t.sourceMatch - t.directivity
  let s := t.reflectionTracking - t.directivity
  { t with sourceMatch := (o + s).divOr (o - s) degenerate 0 }

/-- The reflection tracking from the standard in its slot, `sign` being -1 for a short and 1 for an
open. -/
def solveReflection (t : Terms α) (sign : α) : Terms α :=
  let s := t.reflectionTracking - t.directivity
  { t with reflectionTracking := ((1 - t.sourceMatch.scale sign) * s).scale sign }

/-- The transmission tracking is stored inverted, so that correcting multiplies by it. -/
def solveTransmission (t : Terms α) : Terms α :=
  let through := t.transmissionTracking - t.isolation
  { t with transmissionTracking := (1 : Phasor α).divOr through degenerate 1 }

/-- Without a short, the open takes its place in the tracking slot. -/
def openAsShort (t : Terms α) : Terms α := { t with reflectionTracking := t.sourceMatch }

/-- The terms of one point, from the standards that `status` lists. -/
def solve (status : CalStatus) (t : Terms α) : Terms α :=
  let t := if status.has .load then t else { t with directivity := 0 }
  let t := if status.has .isolation then t else { t with isolation := 0 }
  let t := match ReflectionSet.of status with
    | .shortOpen => t.solveMatch.solveReflection (-1)
    | .openOnly => solveReflection { t.openAsShort with sourceMatch := 0 } 1
    | .shortOnly => solveReflection { t with sourceMatch := 0 } (-1)
    | .neither => t
  let t := if status.has .thru then t.solveTransmission else t
  let after := solvedStatus status
  let t := if after.has .transmissionTracking then t else { t with transmissionTracking := 1 }
  let t := if after.has .reflectionTracking then t else { t with reflectionTracking := 1 }
  if after.has .sourceMatch then t else { t with sourceMatch := 0 }

end Terms

namespace Calibration

variable {α : Type} [Scalar α] {N : Nat}

/-- Solves the error terms and enables the correction. The result is not stored
yet. An open that stands in for the short is moved over the whole table. -/
def solve (c : Calibration α N) : Calibration α N :=
  let copiesOpen := ReflectionSet.of c.status = .openOnly
  { c with
    status := solvedStatus c.status
    table := c.table.mapIdx fun i t =>
      if i < c.points then t.solve c.status else if copiesOpen then t.openAsShort else t
    saveSlot := Parameters.noSaveSlot }

end Calibration

end NetworkAnalyzer
