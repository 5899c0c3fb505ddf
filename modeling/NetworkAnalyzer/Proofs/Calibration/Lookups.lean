import NetworkAnalyzer.Calibration.Lookup

/-!
# Lookups stay inside the plan

Which stored points a query reads is decided by proportion and then moved to stay in a
harmonic band. Wherever the query lies and whatever the bands are, the points read are
points of the plan, as soon as it has one. On a plan without a point, the first entry of the tables
is read, which is no point of it.

The statements are about words. The difference of a query and the start of the range does not wrap
since the query lies above it. The product with the number of intervals needs 48 bits and is taken
in 64. The quotient is smaller than the number of intervals, so nothing is lost when it is cut to
16 bits.

* `toNat_bracket`: the proportion as a natural number, without overflow.
* `bracket_lt`: it does not leave the last bracket.
* `ofBracket_within`: moving a bracket stays within the table.
* `find_within`: every lookup reads points of the plan only.
-/

namespace NetworkAnalyzer

namespace Lookup

/-- The lookup reads the first `n` points only. -/
def Within (n : Nat) : Lookup → Prop
  | .stored index => index.toNat < n
  | .line lower _ _ _ => lower.toNat + 1 < n

theorem toNat_last {n : UInt16} (h : 0 < n.toNat) : (n - 1).toNat = n.toNat - 1 := by
  have hone : (1 : UInt16) ≤ n := UInt16.le_iff_toNat_le.mpr h
  exact UInt16.toNat_sub_of_le _ _ hone

theorem toNat_next {i n : UInt16} (h : i.toNat + 1 < n.toNat) : (i + 1).toNat = i.toNat + 1 := by
  have hn := n.toNat_lt
  rw [UInt16.toNat_add]
  exact Nat.mod_eq_of_lt (by rw [show (1 : UInt16).toNat = 1 from rfl]; omega)

theorem toNat_pos {i : UInt16} (h : i ≠ 0) : 0 < i.toNat :=
  Nat.pos_of_ne_zero fun hz => h (UInt16.toNat_inj.mp hz)

section

variable {plan : FrequencyPlan} {f : UInt32} (hpoints : 1 < plan.points.toNat)
  (hstart : plan.start.toNat < f.toNat) (hstop : f.toNat < plan.stop.toNat)
include hpoints hstart

theorem toNat_product : ((f - plan.start).toUInt64 * (plan.points - 1).toUInt64).toNat =
    (f.toNat - plan.start.toNat) * (plan.points.toNat - 1) := by
  have hlast := toNat_last (n := plan.points) (by omega)
  have hoffset : (f - plan.start).toUInt64.toNat = f.toNat - plan.start.toNat :=
    UInt32.toNat_sub_of_le _ _ (UInt32.le_iff_toNat_le.mpr (by omega))
  have hf := f.toNat_lt
  have hn := plan.points.toNat_lt
  rw [UInt64.toNat_mul, hoffset, UInt16.toNat_toUInt64, hlast]
  refine Nat.mod_eq_of_lt ?_
  calc (f.toNat - plan.start.toNat) * (plan.points.toNat - 1)
      < 2 ^ 32 * 2 ^ 16 := Nat.mul_lt_mul_of_lt_of_le (by omega) (by omega) (by omega)
    _ ≤ 2 ^ 64 := by decide

include hstop

theorem proportion_lt :
    (f.toNat - plan.start.toNat) * (plan.points.toNat - 1) /
      (plan.stop.toNat - plan.start.toNat) < plan.points.toNat - 1 := by
  rw [Nat.div_lt_iff_lt_mul (by omega), Nat.mul_comm]
  exact Nat.mul_lt_mul_of_pos_left (by omega) (by omega)

/-- The proportion is taken without overflow, and no digit of it is cut off. -/
theorem toNat_bracket : (bracket plan f).toNat =
    (f.toNat - plan.start.toNat) * (plan.points.toNat - 1) /
      (plan.stop.toNat - plan.start.toNat) := by
  have hspan : (plan.stop - plan.start).toUInt64.toNat = plan.stop.toNat - plan.start.toNat :=
    UInt32.toNat_sub_of_le _ _ (UInt32.le_iff_toNat_le.mpr (by omega))
  have hn := plan.points.toNat_lt
  have hquotient := proportion_lt hpoints hstart hstop
  unfold bracket
  rw [UInt64.toNat_toUInt16, UInt64.toNat_div, toNat_product hpoints hstart, hspan]
  exact Nat.mod_eq_of_lt (by omega)

/-- A frequency strictly inside the range lies in a bracket of two points of the plan. -/
theorem bracket_lt : (bracket plan f).toNat + 1 < plan.points.toNat := by
  have hquotient := proportion_lt hpoints hstart hstop
  rw [← toNat_bracket hpoints hstart hstop] at hquotient
  omega

end

theorem ofBracket_within {plan : FrequencyPlan} (band : UInt32 → UInt32) (f : UInt32) {i : UInt16}
    (h : i.toNat + 1 < plan.points.toNat) : (ofBracket plan band f i).Within plan.points.toNat := by
  have hn := plan.points.toNat_lt
  have hlast := toNat_last (n := plan.points) (by omega)
  have hnext := toNat_next h
  unfold ofBracket
  dsimp only
  split
  · exact h
  · split
    · split
      · exact (by omega : 0 < plan.points.toNat)
      · rename_i hi
        have hpos := toNat_pos hi
        have hprevious := toNat_last hpos
        exact (by omega : (i - 1).toNat + 1 < plan.points.toNat)
    · split
      · exact (by omega : (plan.points - 1).toNat < plan.points.toNat)
      · rename_i hi
        rw [UInt16.le_iff_toNat_le] at hi
        exact (by omega : (i + 1).toNat + 1 < plan.points.toNat)

/-- A query past the first test of a lookup lies above the start of a plan with intervals. -/
theorem above_start {plan : FrequencyPlan} {f : UInt32}
    (h : ¬ (decide (plan.points ≤ 1) || decide (f ≤ plan.start)) = true) :
    1 < plan.points.toNat ∧ plan.start < f := by
  rw [Bool.or_eq_true, not_or, decide_eq_true_iff, decide_eq_true_iff, UInt16.le_iff_toNat_le,
    Nat.not_le, UInt32.not_le] at h
  exact h

/-- Whatever frequency is asked for, only points of the plan are read. -/
theorem find_within {plan : FrequencyPlan} (hpoints : 0 < plan.points.toNat)
    (band : UInt32 → UInt32) (f : UInt32) : (find plan band f).Within plan.points.toNat := by
  have hlast := toNat_last hpoints
  unfold find
  split
  · exact hpoints
  · rename_i hinside
    obtain ⟨hmany, hstart⟩ := above_start hinside
    split
    · exact (by omega : (plan.points - 1).toNat < plan.points.toNat)
    · rename_i hstop
      have hbracket : (bracket plan f).toNat + 1 < plan.points.toNat :=
        bracket_lt hmany (UInt32.lt_iff_toNat_lt.mp hstart)
          (UInt32.lt_iff_toNat_lt.mp (UInt32.not_le.mp hstop))
      dsimp only
      split
      · exact (by omega : (bracket plan f).toNat < plan.points.toNat)
      · exact ofBracket_within band f hbracket

end Lookup

end NetworkAnalyzer
