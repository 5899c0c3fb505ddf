import Mathlib.Algebra.Order.Field.Basic
import NetworkAnalyzer.Proofs.Calibration.SolvingOrder
import NetworkAnalyzer.Proofs.ExactPhasor

/-!
# The decision table of a solution

Which formula a term is solved by is decided by flags alone, and the formula reads nothing but the
values from before: `Decided` is the table, one field per slot.

| slot                  | from                                                                     |
|-----------------------|--------------------------------------------------------------------------|
| directivity           | the load, or zero                                                        |
| source match          | short and open; zero with one of them; else the earlier term, or zero    |
| reflection tracking   | the standards that are there; else the earlier term, or one              |
| transmission tracking | one over the thru less the isolation; else the earlier term, or one      |
| isolation             | the isolation, or zero                                                   |

The table is stated with the arithmetic left open, for every `Scalar`, so it fixes which operations
are done and in which order, and holds of single precision as of exact numbers.

* `solve_decided`, `Decided.unique`: solving is the table, and the table leaves nothing open.
* `Decided.again`, `solve_solve`, `solvedStatus_solvedStatus`: solving again changes nothing. By
  then the standards that terms are solved from are no longer flagged, so every term is kept.
* `tracking_alone`: the tracking of an open or a short that is alone, exactly computed.
* `solve_table`: the terms of a whole calibration, solved in place.
* `solve_table_openOverLoad`: a calibration with an open and no short.
-/

namespace NetworkAnalyzer

/-! ## The terms of one point -/

namespace Terms

section

variable {α : Type} [Scalar α]

/-- Reflection tracking from a source match and a standard less the directivity. -/
def tracking (es s : Phasor α) (sign : α) : Phasor α := ((1 - es.scale sign) * s).scale sign

/-- What the flags decide about the terms `u` of a point, from the values `t` that lay there. -/
structure Decided (status : CalStatus) (t u : Terms α) : Prop where
  directivity : u.directivity = if status.has .load then t.get Standard.load.slot else 0
  isolation : u.isolation = if status.has .isolation then t.get Standard.isolation.slot else 0
  openAndShort : status.has .open = true → status.has .short = true →
    let o := t.get Standard.open.slot - u.directivity
    let s := t.get Standard.short.slot - u.directivity
    u.sourceMatch = (if (o - s).normSq ≤ degenerate then 0 else (o + s) / (o - s)) ∧
      u.reflectionTracking = tracking u.sourceMatch s (-1)
  openAlone : status.has .open = true → status.has .short = false →
    u.sourceMatch = 0 ∧
      u.reflectionTracking = tracking 0 (t.get Standard.open.slot - u.directivity) 1
  shortAlone : status.has .open = false → status.has .short = true →
    u.sourceMatch = 0 ∧
      u.reflectionTracking = tracking 0 (t.get Standard.short.slot - u.directivity) (-1)
  neither : status.has .open = false → status.has .short = false →
    u.sourceMatch = (if status.has .sourceMatch then t.sourceMatch else 0) ∧
      u.reflectionTracking = if status.has .reflectionTracking then t.reflectionTracking else 1
  thru : status.has .thru = true →
    let through := t.get Standard.thru.slot - u.isolation
    u.transmissionTracking = if through.normSq ≤ degenerate then 1 else 1 / through
  noThru : status.has .thru = false → u.transmissionTracking =
    if status.has .transmissionTracking then t.transmissionTracking else 1

theorem solve_decided (status : CalStatus) (t : Terms α) : Decided status t (t.solve status) := by
  rw [solve_eq]
  constructor
  · rfl
  · rfl
  · intro ho hs
    simp only [matchOf, trackingOf, ReflectionSet.of, ho, hs]
    exact ⟨rfl, rfl⟩
  · intro ho hs
    simp only [matchOf, trackingOf, ReflectionSet.of, ho, hs, true_and]
    rfl
  · intro ho hs
    simp only [matchOf, trackingOf, ReflectionSet.of, ho, hs, true_and]
    rfl
  · intro ho hs
    simp only [matchOf, trackingOf, ReflectionSet.of, ho, hs, true_and]
  · intro ht
    simp only [throughOf, ht, if_true]
    rfl
  · intro ht
    simp only [throughOf, ht, Bool.false_eq_true, if_false]

namespace Decided

variable {status : CalStatus} {t u : Terms α}

theorem unique {u' : Terms α} (h : Decided status t u) (h' : Decided status t u') : u = u' := by
  have hdirectivity : u.directivity = u'.directivity := h.directivity.trans h'.directivity.symm
  have hisolation : u.isolation = u'.isolation := h.isolation.trans h'.isolation.symm
  have hreflection : u.sourceMatch = u'.sourceMatch ∧
      u.reflectionTracking = u'.reflectionTracking := by
    cases ho : status.has .open <;> cases hs : status.has .short
    · obtain ⟨hmatch, htracking⟩ := h.neither ho hs
      obtain ⟨hmatch', htracking'⟩ := h'.neither ho hs
      exact ⟨hmatch.trans hmatch'.symm, htracking.trans htracking'.symm⟩
    · obtain ⟨hmatch, htracking⟩ := h.shortAlone ho hs
      obtain ⟨hmatch', htracking'⟩ := h'.shortAlone ho hs
      rw [hmatch, hmatch', htracking, htracking', hdirectivity]
      exact ⟨rfl, rfl⟩
    · obtain ⟨hmatch, htracking⟩ := h.openAlone ho hs
      obtain ⟨hmatch', htracking'⟩ := h'.openAlone ho hs
      rw [hmatch, hmatch', htracking, htracking', hdirectivity]
      exact ⟨rfl, rfl⟩
    · obtain ⟨hmatch, htracking⟩ := h.openAndShort ho hs
      obtain ⟨hmatch', htracking'⟩ := h'.openAndShort ho hs
      have hsame : u.sourceMatch = u'.sourceMatch := by rw [hmatch, hmatch', hdirectivity]
      rw [htracking, htracking', hsame, hdirectivity]
      exact ⟨rfl, rfl⟩
  have hthrough : u.transmissionTracking = u'.transmissionTracking := by
    cases ht : status.has .thru
    · exact (h.noThru ht).trans (h'.noThru ht).symm
    · rw [h.thru ht, h'.thru ht, hisolation]
  cases u
  cases u'
  simp_all

omit [Scalar α] in
theorem stays {keep : Bool} {z z' neutral : Phasor α} (h : z = if keep then z' else neutral) :
    z = if keep then z else neutral := by
  cases keep
  · exact h
  · rfl

/-- By the flags that solving leaves, no standard is left to solve a term from, and every term is
kept or neutral already. -/
theorem again (h : Decided status t u) : Decided (solvedStatus status) u u := by
  have hopen : (solvedStatus status).has .open = false := has_solvedStatus status .open
  have hshort : (solvedStatus status).has .short = false := has_solvedStatus status .short
  have hthru : (solvedStatus status).has .thru = false := has_solvedStatus status .thru
  constructor
  case directivity =>
    rw [has_solvedStatus]
    exact stays h.directivity
  case isolation =>
    rw [has_solvedStatus]
    exact stays h.isolation
  case openAndShort => exact fun ho => absurd (hopen.symm.trans ho) Bool.false_ne_true
  case openAlone => exact fun ho => absurd (hopen.symm.trans ho) Bool.false_ne_true
  case shortAlone => exact fun _ hs => absurd (hshort.symm.trans hs) Bool.false_ne_true
  case thru => exact fun ht => absurd (hthru.symm.trans ht) Bool.false_ne_true
  case neither =>
    intro _ _
    rw [has_solvedStatus, has_solvedStatus]
    cases ho : status.has .open <;> cases hs : status.has .short <;>
      simp only [Bool.or_true, Bool.or_false, Bool.and_true, Bool.and_false, if_true, and_true]
    · exact ⟨stays (h.neither ho hs).1, stays (h.neither ho hs).2⟩
    · exact stays ((h.shortAlone ho hs).1.trans (ite_self _).symm)
    · exact stays ((h.openAlone ho hs).1.trans (ite_self _).symm)
  case noThru =>
    intro _
    rw [has_solvedStatus]
    cases ht : status.has .thru
    · rw [Bool.or_false]
      exact stays (h.noThru ht)
    · rw [Bool.or_true, if_pos rfl]

end Decided

/-- Solving again changes no term. -/
theorem solve_solve (status : CalStatus) (t : Terms α) :
    (t.solve status).solve (solvedStatus status) = t.solve status :=
  (solve_decided _ _).unique (solve_decided status t).again

end

section Exact

variable {K : Type} [Field K] [LinearOrder K]

/-- Exactly computed, a standard that is alone is its own tracking, up to its sign. -/
theorem tracking_alone (z : Phasor K) : tracking 0 z 1 = z ∧ tracking 0 z (-1) = -z := by
  unfold tracking
  constructor <;> ext <;> simp

end Exact

end Terms

/-! ## Calibrations -/

theorem solvedStatus_solvedStatus (s : CalStatus) :
    solvedStatus (solvedStatus s) = solvedStatus s := by
  have hopen : (solvedStatus s).has .open = false := has_solvedStatus s .open
  have hshort : (solvedStatus s).has .short = false := has_solvedStatus s .short
  have hthru : (solvedStatus s).has .thru = false := has_solvedStatus s .thru
  have happly : (solvedStatus s).has .apply = true := has_solvedStatus s .apply
  rw [solvedStatus_eq (solvedStatus s)]
  unfold reflectedStatus ReflectionSet.of
  simp only [hopen, hshort]
  unfold passedStatus
  rw [if_neg (by rw [hthru]; exact Bool.false_ne_true)]
  exact Flags.put_has _ happly

namespace Calibration

/-- Solving the terms in place, one after the other over the plan, leaves at each of its points the
terms of the decision table, from the values that lay there before; the correction is on and the
result not stored yet. Solving again changes no flag and no term of a point. With exact numbers, an
open or a short that is alone is its own tracking, up to its sign. -/
theorem solve_table {α : Type} [Scalar α] {N : Nat} (c : Calibration α N)
    (hfits : c.plan.points.toNat ≤ N) :
    c.solve = c.solveInOrder ∧
    (∀ i < c.plan.points.toNat, ∃ t u, c.termsAt i = .ok t ∧ c.solve.termsAt i = .ok u ∧
      Terms.Decided c.status t u ∧ c.solve.solve.termsAt i = .ok u) ∧
    c.solve.status.has .apply = true ∧ c.solve.saveSlot = Parameters.noSaveSlot ∧
    c.solve.solve.status = c.solve.status ∧
    ∀ {K : Type} [Field K] [LinearOrder K] (z : Phasor K),
      Terms.tracking 0 z 1 = z ∧ Terms.tracking 0 z (-1) = -z := by
  refine ⟨c.solve_eq_inOrder, fun i hi => ?_, has_solvedStatus c.status .apply, rfl,
    solvedStatus_solvedStatus c.status, Terms.tracking_alone⟩
  have hN : i < N := Nat.lt_of_lt_of_le hi hfits
  have hpoints : i < c.points := by rwa [points_eq hfits]
  have hrow : c.table[i]? = some c.table[i] := Vector.getElem?_eq_getElem hN
  have hsolved := c.termsAt_solve hpoints hrow
  have hrow' : c.solve.table[i]? = some (c.table[i].solve c.status) := by
    unfold termsAt entryAt at hsolved
    rw [dif_pos hN] at hsolved
    rw [Vector.getElem?_eq_getElem hN, Except.ok.inj hsolved]
  have hagain := c.solve.termsAt_solve hpoints hrow'
  rw [show c.solve.status = solvedStatus c.status from rfl, Terms.solve_solve] at hagain
  refine ⟨c.table[i], _, ?_, hsolved, Terms.solve_decided c.status _, hagain⟩
  unfold termsAt entryAt
  rw [dif_pos hN]

/-- A load and an open over two points, and the transmission tracking of an earlier round. -/
def openOverLoad : Calibration ℚ 2 where
  status := ((Flags.none.put .load true).put .open true).put .transmissionTracking true
  plan := ⟨1000000, 2000000, 2⟩
  table := #v[⟨0, ⟨1, 0⟩, 0, 1, 0⟩, ⟨⟨1, 2⟩, ⟨3, 5⟩, ⟨7, 0⟩, ⟨4, 4⟩, ⟨9, 9⟩⟩]
  saveSlot := 3

/-- Nothing of what lay in the slot of the short is left, and the isolation that was not measured is
gone. -/
theorem solve_table_openOverLoad : openOverLoad.plan.points.toNat ≤ 2 ∧
    openOverLoad.solve.termsAt 1 = .ok ⟨⟨1, 2⟩, 0, ⟨2, 3⟩, ⟨4, 4⟩, 0⟩ ∧
    openOverLoad.solve.solve.termsAt 1 = .ok ⟨⟨1, 2⟩, 0, ⟨2, 3⟩, ⟨4, 4⟩, 0⟩ := by
  obtain ⟨-, hterms, -, -, -, hexact⟩ := solve_table openOverLoad (by decide)
  obtain ⟨t, u, ht, hu, hdecided, hagain⟩ := hterms 1 (by decide)
  cases ht
  have hdirectivity : u.directivity = ⟨1, 2⟩ := hdecided.directivity
  have hisolation : u.isolation = 0 := hdecided.isolation
  obtain ⟨hmatch, htracking⟩ := hdecided.openAlone (by decide) (by decide)
  have hthrough : u.transmissionTracking = ⟨4, 4⟩ := hdecided.noThru (by decide)
  have hopen : u.reflectionTracking = ⟨2, 3⟩ := by
    rw [htracking, (hexact _).1, hdirectivity]
    decide +kernel
  have hterms : u = ⟨⟨1, 2⟩, 0, ⟨2, 3⟩, ⟨4, 4⟩, 0⟩ := by
    cases u
    simp_all
  exact ⟨by decide, hterms ▸ hu, hterms ▸ hagain⟩

end Calibration

end NetworkAnalyzer
