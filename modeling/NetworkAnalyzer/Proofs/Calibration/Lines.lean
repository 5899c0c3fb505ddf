import Mathlib.Algebra.Order.Field.Basic
import NetworkAnalyzer.Proofs.Calibration.LookupArithmetic
import NetworkAnalyzer.Proofs.Calibration.NeutralTerms
import NetworkAnalyzer.Proofs.ExactPhasor
import NetworkAnalyzer.Proofs.SinglePrecision.Quotients

/-!
# Lines through stored points

A lookup that is not a stored point is a line through two of them, and the position of the query
on it. The query lies in the bracket that was found, above its lower point, so the position lies
in the unit interval before the bracket is moved, and in a neighbouring one after.

| bracket    | exactly           | in single precision |
|------------|-------------------|---------------------|
| kept       | above 0, up to 1  | above 0, up to 1    |
| moved down | above 1, up to 2  | from 1 to 2         |
| moved up   | above -1, up to 0 | from -1 to 0        |

Rounding keeps the position in its interval (`SinglePrecision.proper_quotient`), but may put it on
the end that it does not reach: a small fraction, plus one, is one. The two columns are `Position`
and `RoundedPosition`.

* `interpolate_answers`, `read_congr`: what a lookup reads of the tables, and what it answers.
* `coefficient_exact`, `coefficient_single`: where the position lies.
* `find_line`: the bracket that a line belongs to.
* `interpolate_safe`: every query is answered, from points of the plan, by an arithmetic that
  neither wraps nor cuts, at such a position. A plan without a point counts as one with the first
  entry of the tables.
* `coefficient_reaches_end`: a position that rounding put on the end.
-/

namespace NetworkAnalyzer

/-! ## What is read -/

namespace Calibration

variable {α : Type} [Scalar α] {N : Nat}

omit [Scalar α] in
theorem termsAt_of_lt (c : Calibration α N) {i : Nat} (h : i < N) : c.termsAt i = .ok c.table[i] :=
  dif_pos h

/-- Terms on the line through points `lower` and `lower + 1`. -/
def OnLine (c : Calibration α N) (lower : Nat) (k : α) (t : Terms α) : Prop :=
  ∃ lo hi, c.termsAt lower = .ok lo ∧ c.termsAt (lower + 1) = .ok hi ∧ t = lo.onLine hi k

/-- The terms that a lookup stands for. -/
def Answers (c : Calibration α N) : Lookup → Terms α → Prop
  | .stored i, t => c.termsAt i.toNat = .ok t
  | .line lower offset width shift, t =>
    c.OnLine lower.toNat (Lookup.coefficient offset width shift) t

theorem read_answers (c : Calibration α N) {l : Lookup} {n : Nat} (hl : l.Within n) (hn : n ≤ N) :
    ∃ t, c.read l = .ok t ∧ c.Answers l t := by
  cases l with
  | stored i =>
    have hterms := c.termsAt_of_lt (Nat.lt_of_lt_of_le hl hn)
    exact ⟨_, hterms, hterms⟩
  | line lower offset width shift =>
    have hnext : lower.toNat + 1 < N := Nat.lt_of_lt_of_le hl hn
    have hlo := c.termsAt_of_lt (Nat.lt_of_succ_lt hnext)
    have hhi := c.termsAt_of_lt hnext
    refine ⟨_, ?_, _, _, hlo, hhi, rfl⟩
    unfold read
    dsimp only
    rw [hlo, hhi]
    rfl

theorem read_congr {c d : Calibration α N} {l : Lookup} {n : Nat} (hl : l.Within n)
    (h : ∀ i < n, d.termsAt i = c.termsAt i) : d.read l = c.read l := by
  cases l with
  | stored i => exact h _ hl
  | line lower offset width shift =>
    unfold read
    dsimp only
    rw [h _ (Nat.lt_of_succ_lt hl), h _ hl]

end Calibration

theorem Lookup.find_within_max (plan : FrequencyPlan) (band : UInt32 → UInt32) (f : UInt32) :
    (find plan band f).Within (max plan.points.toNat 1) := by
  rcases Nat.eq_zero_or_pos plan.points.toNat with hnone | hsome
  · have hpoints : plan.points ≤ 1 := UInt16.le_iff_toNat_le.mpr (by rw [hnone]; exact Nat.zero_le _)
    unfold find
    rw [decide_eq_true hpoints, Bool.true_or, if_pos rfl]
    exact Nat.lt_of_lt_of_le Nat.one_pos (Nat.le_max_right _ _)
  · rw [max_eq_left hsome]
    exact find_within hsome band f

/-- On a plan that fits the tables, every query is answered. -/
theorem Calibration.interpolate_answers {α : Type} [Scalar α] {N : Nat} (c : Calibration α N)
    (hN : 0 < N) (hplan : c.plan.points.toNat ≤ N) (band : UInt32 → UInt32) (f : UInt32) :
    ∃ t, c.interpolate none f band = .ok t ∧ c.Answers (Lookup.find c.plan band f) t :=
  c.read_answers (Lookup.find_within_max c.plan band f) (max_le hplan hN)

/-! ## Positions -/

namespace BandShift

/-- The position in the bracket that the query is moved to. -/
def moved {α : Type} [Scalar α] : BandShift → α → α
  | .none, k => k
  | .down, k => k + 1
  | .up, k => k - 1

def Moves : BandShift → UInt16 → UInt16 → Prop
  | .none, i, lower => lower = i
  | .down, i, lower => lower.toNat + 1 = i.toNat
  | .up, i, lower => lower.toNat = i.toNat + 1

/-- Where the position on a line lies. -/
def Position {K : Type} [Field K] [LinearOrder K] : BandShift → K → Prop
  | .none, k => 0 < k ∧ k ≤ 1
  | .down, k => 1 < k ∧ k ≤ 2
  | .up, k => -1 < k ∧ k ≤ 0

/-- Where rounding may leave it. -/
def RoundedPosition : BandShift → Float32 → Prop
  | .none, k => 0 < k ∧ k ≤ 1
  | .down, k => 1 ≤ k ∧ k ≤ 2
  | .up, k => -1 ≤ k ∧ k ≤ 0

end BandShift

namespace Lookup

theorem coefficient_eq {α : Type} [Scalar α] {width : UInt32} (hwidth : 0 < width.toNat)
    (offset : UInt32) (shift : BandShift) :
    (coefficient offset width shift : α) =
      shift.moved (Scalar.ofNat offset.toNat / Scalar.ofNat width.toNat) := by
  have hne : width ≠ 0 := fun hz => by simp [hz] at hwidth
  unfold coefficient
  rw [if_neg hne]
  cases shift <;> rfl

section

variable {offset width : UInt32} (hoffset : 0 < offset.toNat) (hle : offset.toNat ≤ width.toNat)
include hoffset hle

theorem coefficient_exact {K : Type} [Field K] [LinearOrder K] [IsStrictOrderedRing K]
    (shift : BandShift) : shift.Position (coefficient offset width shift : K) := by
  have hwidth : 0 < width.toNat := Nat.lt_of_lt_of_le hoffset hle
  have hpos : (0 : K) < offset.toNat / width.toNat :=
    div_pos (Nat.cast_pos.mpr hoffset) (Nat.cast_pos.mpr hwidth)
  have hone : (offset.toNat : K) / width.toNat ≤ 1 :=
    (div_le_one (Nat.cast_pos.mpr hwidth)).mpr (Nat.cast_le.mpr hle)
  rw [coefficient_eq hwidth]
  change shift.Position (shift.moved ((offset.toNat : K) / width.toNat))
  generalize (offset.toNat : K) / width.toNat = k at hpos hone
  cases shift with
  | none => exact ⟨hpos, hone⟩
  | down =>
    change 1 < k + 1 ∧ k + 1 ≤ 2
    constructor <;> linarith
  | up =>
    change -1 < k - 1 ∧ k - 1 ≤ 0
    constructor <;> linarith

theorem coefficient_single (shift : BandShift) :
    shift.RoundedPosition (coefficient offset width shift) := by
  obtain ⟨hnone, hdown, hup⟩ := SinglePrecision.proper_quotient hoffset hle width.toNat_lt
  rw [coefficient_eq (Nat.lt_of_lt_of_le hoffset hle)]
  cases shift with
  | none => exact hnone
  | down => exact hdown
  | up => exact hup

end

theorem Between.offset_pos {plan : FrequencyPlan} {f : UInt32} {i : UInt16}
    (h : Between plan f i) : 0 < (f - plan.get i).toNat := by
  have hlower := UInt32.lt_iff_toNat_lt.mp h.lower
  rw [UInt32.toNat_sub_of_le _ _ (UInt32.le_of_lt h.lower)]
  omega

theorem Between.offset_le {plan : FrequencyPlan} {f : UInt32} {i : UInt16}
    (h : Between plan f i) : (f - plan.get i).toNat ≤ (plan.get (i + 1) - plan.get i).toNat := by
  have hle := UInt32.le_of_lt h.lower
  have hupper := UInt32.le_iff_toNat_le.mp h.upper
  rw [UInt32.toNat_sub_of_le _ _ hle, UInt32.toNat_sub_of_le _ _ (UInt32.le_trans hle h.upper)]
  omega

theorem find_line {plan : FrequencyPlan} {band : UInt32 → UInt32} {f : UInt32} {lower : UInt16}
    {offset width : UInt32} {shift : BandShift}
    (h : find plan band f = .line lower offset width shift) :
    ∃ i, Between plan f i ∧ shift.Moves i lower ∧
      offset = f - plan.get i ∧ width = plan.get (i + 1) - plan.get i := by
  have hchosen := find_chosen plan band f
  rw [h] at hchosen
  cases hchosen with
  | kept hbetween hband => exact ⟨_, hbetween, rfl, rfl, rfl⟩
  | down hbetween hband hquery hi =>
    refine ⟨_, hbetween, ?_, rfl, rfl⟩
    change (_ - 1 : UInt16).toNat + 1 = _
    rw [toNat_last hi, Nat.sub_add_cancel hi]
  | up hbetween hband hquery hi =>
    exact ⟨_, hbetween, hbetween.toNat_next, rfl, rfl⟩

end Lookup

/-! ## Every query is answered -/

namespace Calibration

variable {N : Nat}

/-- On a plan that fits the tables, every query is answered. The answer reads points of the plan
only, no operation on the way wraps, cuts or divides by zero, and a line is that of the bracket
the query lies in, with its position where the bracket was moved to. -/
theorem interpolate_safe (c : Calibration Float32 N) (hN : 0 < N)
    (hplan : c.plan.points.toNat ≤ N) (band : UInt32 → UInt32) (f : UInt32) :
    (∃ t, c.interpolate none f band = .ok t) ∧
    (Lookup.find c.plan band f).Within (max c.plan.points.toNat 1) ∧
    (∀ d : Calibration Float32 N, d.plan = c.plan →
      (∀ i < max c.plan.points.toNat 1, d.termsAt i = c.termsAt i) →
      d.interpolate none f band = c.interpolate none f band) ∧
    Lookup.findExactly c.plan band f = some (Lookup.find c.plan band f) ∧
    ∀ lower offset width shift, Lookup.find c.plan band f = .line lower offset width shift →
      (∃ i, Lookup.Between c.plan f i ∧ shift.Moves i lower ∧
        offset = f - c.plan.get i ∧ width = c.plan.get (i + 1) - c.plan.get i) ∧
      shift.Position (Lookup.coefficient offset width shift : ℚ) ∧
      shift.RoundedPosition (Lookup.coefficient offset width shift) := by
  have hwithin := Lookup.find_within_max c.plan band f
  obtain ⟨t, ht, -⟩ := c.interpolate_answers hN hplan band f
  refine ⟨⟨t, ht⟩, hwithin, ?_, Lookup.findExactly_eq _ _ _, ?_⟩
  · intro d hd hterms
    unfold interpolate
    rw [hd]
    exact read_congr hwithin hterms
  · intro lower offset width shift hline
    obtain ⟨i, hbetween, hmoves, rfl, rfl⟩ := Lookup.find_line hline
    exact ⟨⟨i, hbetween, hmoves, rfl, rfl⟩,
      Lookup.coefficient_exact hbetween.offset_pos hbetween.offset_le shift,
      Lookup.coefficient_single hbetween.offset_pos hbetween.offset_le shift⟩

def hundreds : Calibration Float32 4 := { empty with plan := ⟨0, 300000000, 4⟩ }

def bandsFrom (edge f : UInt32) : UInt32 := if f < edge then 0 else 1

theorem interpolate_safe_hundreds :
    0 < 4 ∧ hundreds.plan.points.toNat ≤ 4 ∧
    Lookup.find hundreds.plan (bandsFrom 150000000) 100000001 = .line 0 1 100000000 .down ∧
    (∃ t, hundreds.interpolate none 100000001 (bandsFrom 150000000) = .ok t) ∧
    BandShift.down.Position (Lookup.coefficient 1 100000000 .down : ℚ) ∧
    BandShift.down.RoundedPosition (Lookup.coefficient 1 100000000 .down) := by
  have hfind : Lookup.find hundreds.plan (bandsFrom 150000000) 100000001 =
      .line 0 1 100000000 .down := by decide
  obtain ⟨hanswer, -, -, -, hline⟩ :=
    interpolate_safe hundreds (by decide) (by decide) (bandsFrom 150000000) 100000001
  exact ⟨by decide, by decide, hfind, hanswer, (hline _ _ _ _ hfind).2⟩

/-- One hertz above a point, the position is rounded to the end it does not reach: after a shift
down it is not above one, after a shift up not above minus one. -/
theorem coefficient_reaches_end :
    (Lookup.find hundreds.plan (bandsFrom 150000000) 100000001 = .line 0 1 100000000 .down ∧
      ¬ (1 : Float32) < Lookup.coefficient 1 100000000 .down) ∧
    (Lookup.find hundreds.plan (bandsFrom 100000001) 100000001 = .line 2 1 100000000 .up ∧
      ¬ (-1 : Float32) < Lookup.coefficient 1 100000000 .up) := by
  decide

end Calibration

end NetworkAnalyzer
