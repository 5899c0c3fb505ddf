import NetworkAnalyzer.Calibration.Solution
import NetworkAnalyzer.Proofs.Calibration.Measuring

/-!
# What solving leaves in the slots

The terms of a point are solved from its five slots and the status alone. Which
standards lie beside the ones a term is solved from does not matter: a complete
reflection set determines source match and reflection tracking, thru and
isolation determine the transmission tracking.

Solving is a chain of steps over one `Terms` value, of which each overwrites a slot that a later one
may read. `solve_eq` writes the chain out as five independent expressions (`matchOf`, `trackingOf`,
`throughOf`, and the two cleared slots), and no other module unfolds it.

The flags change along: open, short and thru turn into terms and are no standards any more, and a
term is listed once it was solved, by this or by an earlier solution. Load and isolation are terms
as they were measured and keep their flags.

* `has_solvedStatus`: every flag of the status that solving leaves.
* `solve_eq`: the five terms of a point, each with what it is solved from.
* `solve_reflectionSet`: the three reflection terms once load, open and short are
  measured.
* `solve_through`: isolation and transmission tracking once isolation and thru are
  measured.
* `termsAt_solve`: a point of the plan reads what `Terms.solve` makes of it.
-/

namespace NetworkAnalyzer

variable {α : Type} [Scalar α] {N : Nat}

/-! ## Flags of a measured standard -/

namespace Standard

theorem has_collected_same (s : Standard) (status : CalStatus) (valid : Bool) :
    (s.collected status valid).has s.flag = valid := by
  cases s <;> simp (disch := decide) [collected, flag, Flags.has_put_of_ne]

theorem has_collected_of_ne {s r : Standard} (status : CalStatus) (valid : Bool) (h : r ≠ s) :
    (s.collected status valid).has r.flag = status.has r.flag := by
  cases s <;> cases r <;> first
    | exact absurd rfl h
    | simp (disch := decide) [collected, flag, Flags.has_put_of_ne]

theorem has_collected_apply (s : Standard) (status : CalStatus) (valid : Bool) :
    (s.collected status valid).has .apply = false := by
  cases s <;> simp (disch := decide) [collected, flag, Flags.has_put_of_ne]

theorem slot_injective {s r : Standard} (h : r.slot = s.slot) : r = s := by
  cases s <;> cases r <;> first | rfl | cases h

end Standard

theorem ReflectionSet.of_complete {s : CalStatus} (ho : s.has .open) (hs : s.has .short) :
    ReflectionSet.of s = .shortOpen := by
  unfold ReflectionSet.of
  rw [hs, ho]

/-- The standards that became terms are no standards any more; a term is listed once it was
solved, now or before. -/
theorem has_solvedStatus (s : CalStatus) (o : CalFlag) : (solvedStatus s).has o =
    match o with
    | .open | .short | .thru => false
    | .sourceMatch => s.has .sourceMatch || (s.has .open && s.has .short)
    | .reflectionTracking => s.has .reflectionTracking || s.has .open || s.has .short
    | .transmissionTracking => s.has .transmissionTracking || s.has .thru
    | .apply => true
    | o => s.has o := by
  unfold solvedStatus ReflectionSet.of
  cases hs : s.has .short <;> cases ho : s.has .open <;> cases ht : s.has .thru <;> cases o <;>
    simp (disch := decide) [Flags.has_put_of_ne, hs, ho, ht]

/-! ## The terms of one point -/

namespace Terms

/-- The values with an absent load or isolation taken as zero. -/
def cleared (t : Terms α) (status : CalStatus) : Terms α :=
  { t with
    directivity := if status.has .load then t.directivity else 0
    isolation := if status.has .isolation then t.isolation else 0 }

def matchOf (t : Terms α) (status : CalStatus) : Phasor α :=
  match ReflectionSet.of status with
  | .shortOpen => (t.cleared status).solveMatch.sourceMatch
  | .openOnly | .shortOnly => 0
  | .neither => if status.has .sourceMatch then t.sourceMatch else 0

def trackingOf (t : Terms α) (status : CalStatus) : Phasor α :=
  match ReflectionSet.of status with
  | .shortOpen => ((t.cleared status).solveMatch.solveReflection (-1)).reflectionTracking
  | .openOnly =>
    (solveReflection { (t.cleared status).openAsShort with sourceMatch := 0 } 1).reflectionTracking
  | .shortOnly =>
    (solveReflection { t.cleared status with sourceMatch := 0 } (-1)).reflectionTracking
  | .neither => if status.has .reflectionTracking then t.reflectionTracking else 1

def throughOf (t : Terms α) (status : CalStatus) : Phasor α :=
  if status.has .thru then (t.cleared status).solveTransmission.transmissionTracking
  else if status.has .transmissionTracking then t.transmissionTracking else 1

theorem cleared_eq (t : Terms α) (status : CalStatus) : (if status.has .isolation then
      (if status.has .load then t else { t with directivity := 0 } : Terms α)
      else { (if status.has .load then t else { t with directivity := 0 } : Terms α) with
        isolation := 0 }) = t.cleared status := by
  unfold cleared
  split <;> split <;> rfl

theorem solve_eq (t : Terms α) (status : CalStatus) : t.solve status =
    { t.cleared status with
      sourceMatch := t.matchOf status
      reflectionTracking := t.trackingOf status
      transmissionTracking := t.throughOf status } := by
  unfold solve
  dsimp only
  rw [cleared_eq]
  simp only [has_solvedStatus, matchOf, trackingOf, throughOf]
  -- both sides choose by the same flags
  cases hs : status.has .short <;> cases ho : status.has .open
  all_goals
    cases status.has .sourceMatch <;> cases status.has .reflectionTracking <;>
      cases status.has .thru <;> cases status.has .transmissionTracking <;>
      simp only [ReflectionSet.of, hs, ho] <;> rfl

/-- Load, open and short determine the reflection terms. -/
theorem solve_reflectionSet {status : CalStatus} (t : Terms α) (hl : status.has .load)
    (ho : status.has .open) (hs : status.has .short) :
    (t.solve status).directivity = t.directivity ∧
      (t.solve status).sourceMatch = t.solveMatch.sourceMatch ∧
      (t.solve status).reflectionTracking =
        (t.solveMatch.solveReflection (-1)).reflectionTracking := by
  rw [solve_eq]
  unfold matchOf trackingOf cleared
  rw [ReflectionSet.of_complete ho hs, if_pos hl]
  exact ⟨rfl, rfl, rfl⟩

/-- Isolation and thru determine the transmission terms. -/
theorem solve_through {status : CalStatus} (t : Terms α) (hi : status.has .isolation)
    (ht : status.has .thru) :
    (t.solve status).isolation = t.isolation ∧
      (t.solve status).transmissionTracking = t.solveTransmission.transmissionTracking := by
  rw [solve_eq]
  unfold throughOf cleared
  rw [if_pos hi, if_pos ht]
  exact ⟨rfl, rfl⟩

end Terms

namespace Calibration

theorem termsAt_solve (c : Calibration α N) {i : Nat} (hi : i < c.points) {t : Terms α}
    (ht : c.table[i]? = some t) : c.solve.termsAt i = .ok (t.solve c.status) := by
  obtain ⟨hN, rfl⟩ := Vector.getElem?_eq_some_iff.mp ht
  unfold termsAt entryAt solve
  rw [dif_pos hN, Vector.getElem_mapIdx, if_pos hi]

end Calibration

end NetworkAnalyzer
