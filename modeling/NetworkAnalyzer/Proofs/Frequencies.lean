import Mathlib.Tactic.Ring
import NetworkAnalyzer.FrequencyPlan

/-!
# The frequencies of a plan

`get` works in fixed width: a nominal distance, and a remainder that is carried in shares.
Nothing overflows, and together they are the ideal frequency rounded to the nearest hertz.

With `n` intervals, point `i` is the start, plus `i` times the quotient of the range, plus
`(n / 2 + i * r) / n` for the remainder `r` of the range. The remainder is smaller than `n`, and
`n` and `i` fit 16 bits, so the numerator fits 32 bits and the sum is `(range * i + n / 2) / n`
above the start (`rounded_multiple`). For an index of the plan this is at most the range, so the
sum is at most the stop and the narrowing to 32 bits cuts nothing off.

An index behind the last point gives a frequency, too; nothing is said of it here.

* `toNat_step`, `toNat_remainder`, `toNat_carry`: the words, free of overflow.
* `toNat_get`: point `i` of `n + 1` points lies `(span * i + n / 2) / n` above the start.
* `get_zero`, `get_last`: the first point is the start, the last one the stop.
* `get_eq_stop_iff`: how far from the end a point may lie that still rounds to the stop.
* `get_mono`, `get_succ_cases`: the frequencies ascend, in intervals that differ by one hertz at
  most.
* `toNat_get_le`, `le_toNat_get`: rounding to nearest does not cross a whole number of hertz.
* `RoundedDown`: a point below its ideal frequency.
-/

namespace NetworkAnalyzer.FrequencyPlan

variable {p : FrequencyPlan} {i : UInt16}

theorem toNat_span (p : FrequencyPlan) : p.span.toNat = p.stop.toNat - p.start.toNat := by
  unfold span
  split
  · rename_i hle
    exact UInt32.toNat_sub_of_le _ _ hle
  · rename_i hlt
    have hlt' := UInt32.lt_iff_toNat_lt.mp (UInt32.not_le.mp hlt)
    simp only [UInt32.toNat_zero]
    omega

theorem toNat_intervals (p : FrequencyPlan) : p.intervals.toNat = p.points.toNat - 1 := by
  unfold intervals
  split
  · rename_i hzero
    simp [hzero]
  · rename_i hsome
    have hpos : p.points.toNat ≠ 0 := fun h => hsome (UInt16.toNat_inj.mp h)
    have hle : (1 : UInt32) ≤ p.points.toUInt32 := by
      rw [UInt32.le_iff_toNat_le, UInt16.toNat_toUInt32, UInt32.toNat_one]
      omega
    rw [UInt32.toNat_sub_of_le _ _ hle, UInt16.toNat_toUInt32, UInt32.toNat_one]

theorem intervals_eq_zero : p.intervals = 0 ↔ p.points.toNat ≤ 1 := by
  rw [← UInt32.toNat_inj, toNat_intervals, UInt32.toNat_zero]
  omega

theorem get_of_le_one (h : p.points.toNat ≤ 1) (i : UInt16) : p.get i = p.start := by
  unfold get
  rw [if_pos (intervals_eq_zero.mpr h)]

/-- A nominal distance and a rounded share of the remainder make a rounded multiple. -/
theorem rounded_multiple {n : Nat} (hn : 0 < n) (span i : Nat) :
    span / n * i + (n / 2 + span % n * i) / n = (span * i + n / 2) / n := by
  rw [Nat.add_comm, ← Nat.add_mul_div_left _ _ hn]
  congr 1
  calc n / 2 + span % n * i + n * (span / n * i)
      = (n * (span / n) + span % n) * i + n / 2 := by ring
    _ = span * i + n / 2 := by rw [Nat.div_add_mod]

theorem rounded_le {n i : Nat} (hn : 0 < n) (hi : i ≤ n) (span : Nat) :
    (span * i + n / 2) / n ≤ span := by
  have hmul : span * i ≤ span * n := Nat.mul_le_mul_left _ hi
  refine Nat.le_of_lt_succ ((Nat.div_lt_iff_lt_mul hn).mpr ?_)
  rw [Nat.succ_mul]
  omega

theorem nominal_le {n i : Nat} (hi : i ≤ n) (span : Nat) : span / n * i ≤ span :=
  Nat.le_trans (Nat.mul_le_mul_left _ hi) (Nat.div_mul_le_self _ _)

theorem sum_lt {n i : Nat} (hn : 0 < n) (hi : i ≤ n) (p : FrequencyPlan) :
    p.start.toNat + (p.span.toNat * i + n / 2) / n < 2 ^ 32 := by
  have hbound := rounded_le hn hi p.span.toNat
  have hspan := p.toNat_span
  have hstart := p.start.toNat_lt
  have hstop := p.stop.toNat_lt
  omega

section

variable {n : Nat} (hp : p.points.toNat = n + 1) (hn : 0 < n)
include hp

theorem toNat_intervals_of_succ : p.intervals.toNat = n := by
  rw [toNat_intervals, hp, Nat.add_sub_cancel]

include hn

theorem intervals_ne_zero : p.intervals ≠ 0 := mt intervals_eq_zero.mp (by omega)

theorem toNat_step : p.step.toNat = p.span.toNat / n := by
  unfold step
  rw [if_neg (intervals_ne_zero hp hn), UInt32.toNat_div, toNat_intervals_of_succ hp]

theorem toNat_remainder : p.remainder.toNat = p.span.toNat % n := by
  unfold remainder
  rw [if_neg (intervals_ne_zero hp hn), UInt32.toNat_mod, toNat_intervals_of_succ hp]

section

variable (hi : i.toNat ≤ n)
include hi

/-- The shares of the remainder stay below `2 ^ 32`: both factors are at most `n`. -/
theorem shares_lt : p.span.toNat % n * i.toNat < 2 ^ 32 := by
  have hn' : n ≤ 65535 := by
    have := p.points.toNat_lt
    omega
  calc p.span.toNat % n * i.toNat
      ≤ n * n := Nat.mul_le_mul (Nat.le_of_lt (Nat.mod_lt _ hn)) hi
    _ ≤ 65535 * 65535 := Nat.mul_le_mul hn' hn'
    _ < 2 ^ 32 := by decide

theorem toNat_share :
    (p.remainder.toUInt64 * i.toUInt64).toNat = p.span.toNat % n * i.toNat := by
  have hlt := shares_lt hp hn hi
  rw [UInt64.toNat_mul, UInt32.toNat_toUInt64, UInt16.toNat_toUInt64, toNat_remainder hp hn]
  exact Nat.mod_eq_of_lt (by omega)

theorem toNat_shares : (p.intervals.toUInt64 / 2 + p.remainder.toUInt64 * i.toUInt64).toNat =
    n / 2 + p.span.toNat % n * i.toNat := by
  have hlt := shares_lt hp hn hi
  have hn' := p.points.toNat_lt
  rw [UInt64.toNat_add, UInt64.toNat_div, toNat_share hp hn hi, UInt32.toNat_toUInt64,
    toNat_intervals_of_succ hp, show (2 : UInt64).toNat = 2 from rfl]
  exact Nat.mod_eq_of_lt (by omega)

theorem toNat_carry :
    (p.carry i).toNat = (n / 2 + p.span.toNat % n * i.toNat) / n := by
  unfold carry
  rw [UInt64.toNat_div, toNat_shares hp hn hi, UInt32.toNat_toUInt64, toNat_intervals_of_succ hp]

theorem toNat_nominal :
    (p.step.toUInt64 * i.toUInt64).toNat = p.span.toNat / n * i.toNat := by
  have hle := nominal_le hi p.span.toNat
  have hspan := p.span.toNat_lt
  rw [UInt64.toNat_mul, UInt32.toNat_toUInt64, UInt16.toNat_toUInt64, toNat_step hp hn]
  exact Nat.mod_eq_of_lt (by omega)

theorem toNat_start_add_nominal : (p.start.toUInt64 + p.step.toUInt64 * i.toUInt64).toNat =
    p.start.toNat + p.span.toNat / n * i.toNat := by
  have hle := nominal_le hi p.span.toNat
  have hspan := p.span.toNat_lt
  have hstart := p.start.toNat_lt
  rw [UInt64.toNat_add, UInt32.toNat_toUInt64, toNat_nominal hp hn hi]
  exact Nat.mod_eq_of_lt (by omega)

theorem toNat_sum : (p.start.toUInt64 + p.step.toUInt64 * i.toUInt64 + p.carry i).toNat =
    p.start.toNat + (p.span.toNat * i.toNat + n / 2) / n := by
  have hlt := sum_lt hn hi p
  rw [UInt64.toNat_add, toNat_start_add_nominal hp hn hi, toNat_carry hp hn hi, Nat.add_assoc,
    rounded_multiple hn]
  exact Nat.mod_eq_of_lt (by omega)

/-- The frequency of a point is the ideal one, rounded to nearest. -/
theorem toNat_get :
    (p.get i).toNat = p.start.toNat + (p.span.toNat * i.toNat + n / 2) / n := by
  unfold get
  rw [if_neg (intervals_ne_zero hp hn), UInt64.toNat_toUInt32, toNat_sum hp hn hi]
  exact Nat.mod_eq_of_lt (sum_lt hn hi p)

end

end

/-- A point that lies `k` intervals before the end is at the stop exactly when `k` ranges make at
most half the number of intervals: so few hertz that rounding hides the difference. -/
theorem get_eq_stop_iff {n k : Nat} (hp : p.points.toNat = n + 1) (hn : 0 < n)
    (hi : i.toNat + k = n) (hrange : p.start ≤ p.stop) :
    p.get i = p.stop ↔ p.span.toNat * k ≤ n / 2 := by
  have hspan := p.toNat_span
  have hle := UInt32.le_iff_toNat_le.mp hrange
  have hsplit : p.span.toNat * i.toNat + p.span.toNat * k = p.span.toNat * n := by
    rw [← Nat.mul_add, hi]
  have hbound := rounded_le hn (show i.toNat ≤ n by omega) p.span.toNat
  have hfull : p.span.toNat ≤ (p.span.toNat * i.toNat + n / 2) / n ↔ p.span.toNat * k ≤ n / 2 := by
    rw [Nat.le_div_iff_mul_le hn]
    omega
  rw [← UInt32.toNat_inj, toNat_get hp hn (by omega)]
  omega

theorem get_zero (p : FrequencyPlan) : p.get 0 = p.start := by
  rcases Nat.lt_or_ge p.points.toNat 2 with hone | hmany
  · exact get_of_le_one (by omega) 0
  · have hn : 0 < p.points.toNat - 1 := by omega
    rw [← UInt32.toNat_inj, toNat_get (n := p.points.toNat - 1) (by omega) hn (Nat.zero_le _)]
    have hhalf : (p.points.toNat - 1) / 2 / (p.points.toNat - 1) = 0 :=
      Nat.div_eq_of_lt (by omega)
    simp [hhalf]

theorem get_last (hmany : 2 ≤ p.points.toNat) (hrange : p.start ≤ p.stop)
    (hi : i.toNat + 1 = p.points.toNat) : p.get i = p.stop := by
  rw [get_eq_stop_iff (n := i.toNat) (k := 0) hi.symm (by omega) rfl hrange]
  omega

/-! ## Order and distance -/

theorem get_mono {i j : UInt16} (hij : i.toNat ≤ j.toNat) (hj : j.toNat < p.points.toNat) :
    p.get i ≤ p.get j := by
  rcases Nat.lt_or_ge p.points.toNat 2 with hone | hmany
  · rw [get_of_le_one (by omega), get_of_le_one (by omega)]
    exact UInt32.le_refl _
  · have hp : p.points.toNat = p.points.toNat - 1 + 1 := by omega
    have hn : 0 < p.points.toNat - 1 := by omega
    rw [UInt32.le_iff_toNat_le, toNat_get hp hn (by omega), toNat_get hp hn (by omega)]
    exact Nat.add_le_add_left
      (Nat.div_le_div_right (Nat.add_le_add_right (Nat.mul_le_mul_left _ hij) _)) _

theorem start_le_get (hi : i.toNat < p.points.toNat) : p.start ≤ p.get i := by
  rw [← get_zero p]
  exact get_mono (Nat.zero_le _) hi

section

variable {n : Nat} (hp : p.points.toNat = n + 1) (hn : 0 < n)
include hp hn

/-- A whole number of hertz that the ideal frequency does not exceed is not below the point. -/
theorem toNat_get_le {q : Nat} (hi : i.toNat ≤ n) (hq : p.span.toNat * i.toNat ≤ q * n) :
    (p.get i).toNat ≤ p.start.toNat + q := by
  rw [toNat_get hp hn hi]
  refine Nat.add_le_add_left (Nat.le_of_lt_succ ((Nat.div_lt_iff_lt_mul hn).mpr ?_)) _
  rw [Nat.succ_mul]
  omega

/-- A whole number of hertz that the ideal frequency reaches is not above the point. -/
theorem le_toNat_get {q : Nat} (hi : i.toNat ≤ n) (hq : q * n ≤ p.span.toNat * i.toNat) :
    p.start.toNat + q ≤ (p.get i).toNat := by
  rw [toNat_get hp hn hi]
  refine Nat.add_le_add_left ((Nat.le_div_iff_mul_le hn).mpr ?_) _
  omega

/-- Neighbouring points lie a whole share of the range apart, or one hertz more. -/
theorem get_succ_cases {j : UInt16} (hj : j.toNat = i.toNat + 1) (hjn : j.toNat ≤ n) :
    (p.get j).toNat = (p.get i).toNat + p.span.toNat / n ∨
      (p.get j).toNat = (p.get i).toNat + p.span.toNat / n + 1 := by
  rw [toNat_get hp hn hjn, toNat_get hp hn (by omega), hj, Nat.mul_succ, Nat.add_right_comm]
  generalize p.span.toNat * i.toNat + n / 2 = x
  rw [Nat.add_div hn]
  split <;> omega

end

/-- The point was given a frequency below its ideal one. -/
def RoundedDown (p : FrequencyPlan) (i : UInt16) : Prop :=
  ((p.get i).toNat - p.start.toNat) * (p.points.toNat - 1) < p.span.toNat * i.toNat

instance (p : FrequencyPlan) (i : UInt16) : Decidable (p.RoundedDown i) :=
  inferInstanceAs (Decidable (_ < _))

end NetworkAnalyzer.FrequencyPlan
