import Mathlib.Algebra.Order.Field.Rat
import Mathlib.Tactic.Linarith
import NetworkAnalyzer.Proofs.Frequencies.Checked

/-!
# Whole hertz

A plan divides its range into equal intervals; the ideal frequencies of its points are fractions of
a hertz. The words of `get` are at most half a hertz off them, and what that makes of the order of
the points is exact.

Since each point is rounded on its own, errors do not add up along the range. Neighbours are the
nominal distance apart or one hertz more. So the points ascend, and they ascend strictly exactly if
the range has at least one hertz for each interval; with less, the nominal distance is zero and
some neighbours coincide.

A range whose bounds are inverted, or with one point or none, has no intervals. All of its points
are at the start.

* `ideal`: point `i` of the range as a rational number.
* `nearest`: rounding half a divisor up leaves at most half a divisor.
* `get_eq_start`: a range without width, or without intervals, is a single frequency.
* `get_next`, `get_lt_iff`: how far neighbours are apart, and when no two points coincide.
* `get_nearest`: the frequencies of every plan.
-/

namespace NetworkAnalyzer.FrequencyPlan

/-- Point `i` of the range divided into equal intervals, in hertz. -/
def ideal (p : FrequencyPlan) (i : Nat) : ℚ :=
  p.start.toNat + ((p.stop.toNat : ℚ) - p.start.toNat) * i / (p.points.toNat - 1 : Nat)

/-- A quotient that is rounded by adding half the divisor is at most half off. -/
theorem nearest {n : Nat} (hn : 0 < n) (a : Nat) :
    |(((a + n / 2) / n : Nat) : ℚ) - a / n| ≤ 1 / 2 := by
  have hpos : (0 : ℚ) < n := Nat.cast_pos.mpr hn
  have hdiv := Nat.div_add_mod (a + n / 2) n
  have hmod := Nat.mod_lt (a + n / 2) hn
  generalize (a + n / 2) / n = q at hdiv
  generalize (a + n / 2) % n = r at hdiv hmod
  have hupper : 2 * (n * q) ≤ 2 * a + n := by omega
  have hlower : 2 * a ≤ 2 * (n * q) + n := by omega
  have hupper' : 2 * ((n : ℚ) * q) ≤ 2 * a + n := by exact_mod_cast hupper
  have hlower' : 2 * (a : ℚ) ≤ 2 * (n * q) + n := by exact_mod_cast hlower
  have hshare : (a : ℚ) / n * n = a := div_mul_cancel₀ _ hpos.ne'
  rw [abs_le]
  constructor <;> nlinarith

/-! ## Ranges that are a single frequency -/

theorem get_of_span_eq_zero {p : FrequencyPlan} (h : p.span = 0) (i : UInt16) :
    p.get i = p.start := by
  unfold get
  split
  · rfl
  · rename_i hmany
    have hstep : p.step = 0 := by
      unfold step
      rw [if_neg hmany, h]
      exact UInt32.zero_div
    have hremainder : p.remainder = 0 := by
      unfold remainder
      rw [if_neg hmany, h]
      exact UInt32.zero_mod
    have hpos : 0 < p.intervals.toNat := Nat.pos_of_ne_zero fun hzero =>
      hmany (UInt32.toNat_inj.mp hzero)
    have hcarry : p.carry i = 0 := by
      unfold carry
      rw [hremainder, show (0 : UInt32).toUInt64 = 0 from rfl, UInt64.zero_mul, UInt64.add_zero,
        ← UInt64.toNat_inj, UInt64.toNat_div, UInt64.toNat_div, UInt32.toNat_toUInt64]
      exact Nat.div_eq_of_lt (Nat.div_lt_self hpos Nat.one_lt_two)
    rw [hstep, hcarry]
    simp

theorem get_eq_start {p : FrequencyPlan} (h : p.stop < p.start ∨ p.points.toNat < 2)
    (i : UInt16) : p.get i = p.start := by
  rcases h with hrange | hone
  · refine get_of_span_eq_zero ?_ i
    unfold span
    rw [if_neg (UInt32.not_le.mpr hrange)]
  · exact get_of_le_one (Nat.le_of_lt_succ hone) i

/-! ## Distances -/

section

variable {p : FrequencyPlan} {n : Nat} (hp : p.points.toNat = n + 1) (hn : 0 < n)
include hp hn

/-- The frequency of a point is at most half a hertz off the ideal one. -/
theorem get_sub_ideal (hrange : p.start ≤ p.stop) {i : UInt16} (hi : i.toNat ≤ n) :
    |((p.get i).toNat : ℚ) - p.ideal i.toNat| ≤ 1 / 2 := by
  have hspan : ((p.stop.toNat : ℚ) - p.start.toNat) = p.span.toNat := by
    rw [toNat_span, Nat.cast_sub (UInt32.le_iff_toNat_le.mp hrange)]
  have hoff := nearest hn (p.span.toNat * i.toNat)
  unfold ideal
  rw [toNat_get hp hn hi, hspan, hp, Nat.add_sub_cancel, Nat.cast_add, add_sub_add_left_eq_sub]
  rwa [Nat.cast_mul] at hoff

theorem get_next {i : UInt16} (hi : i.toNat < n) :
    (p.get (i + 1)).toNat = (p.get i).toNat + p.step.toNat ∨
      (p.get (i + 1)).toNat = (p.get i).toNat + p.step.toNat + 1 := by
  have hlt := p.points.toNat_lt
  have hnext : (i + 1).toNat = i.toNat + 1 := by
    rw [UInt16.toNat_add, UInt16.toNat_one]
    exact Nat.mod_eq_of_lt (by omega)
  rw [toNat_step hp hn]
  exact get_succ_cases hp hn hnext (by omega)

/-- Ascending points are one hertz apart at least, each. -/
theorem add_le_get
    (hstrict : ∀ i j : UInt16, i < j → j.toNat ≤ n → p.get i < p.get j) :
    ∀ k ≤ n, p.start.toNat + k ≤ (p.get k.toUInt16).toNat := by
  have hlt := p.points.toNat_lt
  intro k
  induction k with
  | zero => exact fun _ => Nat.le_of_eq (congrArg UInt32.toNat p.get_zero).symm
  | succ k ih =>
    intro hk
    have hword : k.toUInt16.toNat = k := Nat.mod_eq_of_lt (by omega)
    have hnext : (k + 1).toUInt16.toNat = k + 1 := Nat.mod_eq_of_lt (by omega)
    have hstep := hstrict k.toUInt16 (k + 1).toUInt16
      (UInt16.lt_iff_toNat_lt.mpr (by omega)) (by omega)
    have hbefore := ih (by omega)
    have hafter := UInt32.lt_iff_toNat_lt.mp hstep
    omega

/-- The points ascend strictly exactly if there is a hertz for each interval. -/
theorem get_lt_iff : (∀ i j : UInt16, i < j → j.toNat ≤ n → p.get i < p.get j) ↔
    n ≤ p.stop.toNat - p.start.toNat := by
  have hlt := p.points.toNat_lt
  constructor
  · intro hstrict
    have hlast := add_le_get hp hn hstrict n (Nat.le_refl n)
    have hword : n.toUInt16.toNat = n := Nat.mod_eq_of_lt (by omega)
    rw [toNat_get hp hn (by omega)] at hlast
    have hbound := rounded_le hn (show n.toUInt16.toNat ≤ n by omega) p.span.toNat
    rw [← toNat_span]
    omega
  · intro hwide i j hij hj
    have hij' := UInt16.lt_iff_toNat_lt.mp hij
    have hnext : (i + 1).toNat = i.toNat + 1 := by
      rw [UInt16.toNat_add, UInt16.toNat_one]
      exact Nat.mod_eq_of_lt (by omega)
    have hstep : 0 < p.step.toNat := by
      rw [toNat_step hp hn, toNat_span]
      exact Nat.div_pos hwide hn
    have hrise : p.get i < p.get (i + 1) := by
      rw [UInt32.lt_iff_toNat_lt]
      rcases get_next hp hn (i := i) (by omega) with h | h <;> omega
    exact UInt32.lt_of_lt_of_le hrise (get_mono (by omega) (by omega))

end

/-! ## Every plan -/

/-- Over a range of `n` intervals, `n` at least one, no operation on the way to a frequency leaves
its word and the last narrowing cuts nothing off. Each point is the whole number of hertz nearest
to its ideal frequency, the ends are the bounds, neighbours are a nominal distance or one hertz
more apart; the points ascend, strictly so exactly if the range has a hertz for each interval. An
inverted range, or one without intervals, is at its start at every index. -/
theorem get_nearest (p : FrequencyPlan) :
    (p.start ≤ p.stop → ∀ n, p.points.toNat = n + 1 → 0 < n →
      (∀ i : UInt16, i.toNat ≤ n →
        p.getExactly i = some (p.get i) ∧
        (p.get i).toNat =
          p.start.toNat + ((p.stop.toNat - p.start.toNat) * i.toNat + n / 2) / n ∧
        |((p.get i).toNat : ℚ) - p.ideal i.toNat| ≤ 1 / 2) ∧
      p.get 0 = p.start ∧ p.get (p.points - 1) = p.stop ∧
      (∀ i : UInt16, i.toNat < n →
        (p.get (i + 1)).toNat = (p.get i).toNat + p.step.toNat ∨
          (p.get (i + 1)).toNat = (p.get i).toNat + p.step.toNat + 1) ∧
      (∀ i j : UInt16, i ≤ j → j.toNat ≤ n → p.get i ≤ p.get j) ∧
      ((∀ i j : UInt16, i < j → j.toNat ≤ n → p.get i < p.get j) ↔
        n ≤ p.stop.toNat - p.start.toNat)) ∧
    (p.stop < p.start ∨ p.points.toNat < 2 → ∀ i, p.get i = p.start) := by
  refine ⟨fun hrange n hp hn => ?_, get_eq_start⟩
  have hlast : (p.points - 1).toNat + 1 = p.points.toNat := by
    have hone : (1 : UInt16) ≤ p.points := UInt16.le_iff_toNat_le.mpr (by rw [hp]; simp)
    rw [UInt16.toNat_sub_of_le _ _ hone, UInt16.toNat_one]
    omega
  refine ⟨fun i hi => ⟨getExactly_eq (by omega), ?_, get_sub_ideal hp hn hrange hi⟩, p.get_zero,
    get_last (by omega) hrange hlast, fun i hi => get_next hp hn hi,
    fun i j hij hj => get_mono (UInt16.le_iff_toNat_le.mp hij) (by omega), get_lt_iff hp hn⟩
  rw [toNat_get hp hn hi, toNat_span]

/-- Ten hertz in three intervals: the points are at 0, 3, 7 and 10. -/
theorem get_nearest_tenHertz : (⟨0, 10, 4⟩ : FrequencyPlan).start ≤ 10 ∧
    (⟨0, 10, 4⟩ : FrequencyPlan).points.toNat = 3 + 1 ∧ 0 < 3 ∧
    (⟨0, 10, 4⟩ : FrequencyPlan).getExactly 2 = some 7 ∧
    |((7 : UInt32).toNat : ℚ) - (⟨0, 10, 4⟩ : FrequencyPlan).ideal 2| ≤ 1 / 2 ∧
    (∀ i j : UInt16, i < j → j.toNat ≤ 3 →
      (⟨0, 10, 4⟩ : FrequencyPlan).get i < (⟨0, 10, 4⟩ : FrequencyPlan).get j) ∧
    ∀ i, (⟨10, 0, 4⟩ : FrequencyPlan).get i = 10 := by
  obtain ⟨hpoints, -, -, -, -, hstrict⟩ :=
    (get_nearest ⟨0, 10, 4⟩).1 (by decide) 3 (by decide) (by decide)
  obtain ⟨hexactly, -, hnear⟩ := hpoints 2 (by decide)
  exact ⟨by decide, by decide, by decide, hexactly, hnear, hstrict.mpr (by decide),
    (get_nearest ⟨10, 0, 4⟩).2 (Or.inl (by decide))⟩

end NetworkAnalyzer.FrequencyPlan
