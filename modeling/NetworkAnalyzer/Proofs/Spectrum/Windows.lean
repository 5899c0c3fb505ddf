import Mathlib.Algebra.BigOperators.Intervals
import Mathlib.Order.Interval.Set.Basic
import Mathlib.Tactic.Positivity
import NetworkAnalyzer.Proofs.ExactPhasor
import NetworkAnalyzer.Spectrum.TimeDomain

/-!
# Window weights

The window is a power series without negative coefficients, taken at `x (last - x) β² / last²`.
Over the samples this is a parabola, 0 at both ends and largest in the middle, and without rounding
the series grows with it. So a window is symmetric, rises up to its middle and is nowhere below 1,
and what a response is divided by is positive.

None of this uses that the series is cut off from a Bessel function. The coefficients are positive
decimals and the sum begins with one; that is enough, for any field with an order.

The rectangular window has `β = 0` and is one throughout. It is guarded in the definition, and so
is a window of fewer than two samples, where the parabola would divide by zero. In exact numbers
the guard makes no difference (`window_eq`).

* `besselI0_strictMonoOn`: on arguments that are not negative, the series grows.
* `window_eq`: the window is the series at the parabola, for every length and shape.
* `one_le_window`, `window_mirror`, `window_mono`, `window_lt`: the course of a window.
* `weightSum_pos`, `norm_pos`: a response of at least one point has a positive normalization.
* `window_unimodal`: the course of every window, and every normalization.
-/

namespace NetworkAnalyzer

open Parameters

variable {K : Type} [Field K] [LinearOrder K]

namespace Kaiser

/-! ## The argument -/

/-- What the series is taken at: a parabola over the samples `x` from 0 to `last`. -/
def argument {F : Type} [Field F] (last x β : F) : F := x * (last - x) * β * β / (last * last)

section Argument

variable {last x y β : K}

theorem argument_mirror : argument last (last - x) β = argument last x β := by
  unfold argument
  rw [sub_sub_cancel, mul_comm (last - x) x]

theorem argument_sub : argument last y β - argument last x β =
    (y - x) * (last - x - y) * (β / last) ^ 2 := by
  unfold argument
  ring

variable [IsStrictOrderedRing K]

theorem argument_nonneg (hx : 0 ≤ x) (hlast : x ≤ last) : 0 ≤ argument last x β := by
  have hbehind : 0 ≤ last - x := sub_nonneg.mpr hlast
  calc 0 ≤ x * (last - x) * (β / last) ^ 2 := by positivity
    _ = argument last x β := by unfold argument; ring

theorem argument_mono (hxy : x ≤ y) (hy : 2 * y ≤ last) :
    argument last x β ≤ argument last y β := by
  have hstep : 0 ≤ y - x := sub_nonneg.mpr hxy
  have hroom : 0 ≤ last - x - y := by linarith
  rw [← sub_nonneg, argument_sub]
  positivity

theorem argument_lt (hx : 0 ≤ x) (hxy : x < y) (hy : 2 * y ≤ last) (hβ : β ≠ 0) :
    argument last x β < argument last y β := by
  have hstep : 0 < y - x := sub_pos.mpr hxy
  have hroom : 0 < last - x - y := by linarith
  have hlast : last ≠ 0 := by linarith
  rw [← sub_pos, argument_sub]
  positivity

end Argument

/-! ## The series -/

theorem series_zero : ∀ (cs : List K) (sum : K), series 0 cs 0 sum = sum
  | [], _ => rfl
  | c :: cs, sum => by
    rw [series, mul_zero, zero_mul, add_zero]
    exact series_zero cs sum

theorem besselI0_zero : besselI0 (0 : K) = 1 := (series_zero _ _).trans (add_zero 1)

section Series

variable [IsStrictOrderedRing K]

/-- The powers and the sums of two runs stay in the order of their arguments. -/
theorem series_lt {z w : K} (hz : 0 ≤ z) (hzw : z ≤ w) : ∀ {cs : List K} {p q s t : K},
    (∀ c ∈ cs, 0 ≤ c) → 0 ≤ p → p ≤ q → s < t → series z cs p s < series w cs q t
  | [], _, _, _, _, _, _, _, hst => hst
  | c :: cs, p, q, s, t, hcs, hp, hpq, hst => by
    have hpower : p * z ≤ q * w := mul_le_mul hpq hzw hz (hp.trans hpq)
    have hterm : p * z * c ≤ q * w * c :=
      mul_le_mul_of_nonneg_right hpower (hcs c List.mem_cons_self)
    have hrest : series z cs (p * z) (s + p * z * c) < series w cs (q * w) (t + q * w * c) :=
      series_lt hz hzw (fun d hd => hcs d (List.mem_cons_of_mem _ hd)) (mul_nonneg hp hz) hpower
        (add_lt_add_of_lt_of_le hst hterm)
    exact hrest

theorem ofDecimal_nonneg (m e : Nat) : (0 : K) ≤ Scalar.ofDecimal m e := by
  change (0 : K) ≤ m / 10 ^ e
  positivity

theorem coefficients_nonneg : ∀ c ∈ (coefficients : List K), 0 ≤ c := by
  simp only [coefficients, List.forall_mem_cons, ofDecimal_nonneg, List.not_mem_nil,
    false_implies, implies_true, and_self]

theorem besselI0_strictMonoOn : StrictMonoOn (besselI0 : K → K) (Set.Ici 0) :=
  fun _ hz _ _ hzw => series_lt hz hzw.le coefficients_nonneg hz hzw.le (by gcongr)

theorem one_le_besselI0 {z : K} (hz : 0 ≤ z) : 1 ≤ besselI0 z := by
  rw [← besselI0_zero]
  exact besselI0_strictMonoOn.monotoneOn Set.self_mem_Ici hz hz

end Series

/-! ## The window -/

theorem toNat_last {n : UInt32} (hn : 0 < n.toNat) : (n - 1).toNat = n.toNat - 1 :=
  UInt32.toNat_sub_of_le _ _ (UInt32.le_iff_toNat_le.mpr hn)

section Window

variable {j k n : UInt32}

theorem le_last (hk : k < n) : k.toNat ≤ (n - 1).toNat := by
  have hlt := UInt32.lt_iff_toNat_lt.mp hk
  rw [toNat_last (Nat.zero_lt_of_lt hlt)]
  omega

/-- In exact numbers the guard makes no difference: where it applies, the argument is 0. -/
theorem window_eq (hk : k < n) (β : UInt16) :
    window k n β = besselI0 (argument ((n - 1).toNat : K) k.toNat β.toNat) := by
  unfold window
  split
  · rename_i hguard
    rw [Bool.or_eq_true, decide_eq_true_eq, decide_eq_true_eq] at hguard
    have hzero : argument ((n - 1).toNat : K) k.toNat β.toNat = 0 := by
      unfold argument
      rcases hguard with rfl | hshort
      · simp
      · have hfirst : k.toNat = 0 := by
          have hlt := UInt32.lt_iff_toNat_lt.mp hk
          have htwo := UInt32.lt_iff_toNat_lt.mp hshort
          simp only [UInt32.reduceToNat] at htwo
          omega
        simp [hfirst]
    rw [hzero, besselI0_zero]
  · rfl

/-- The window reads the same from its end. -/
theorem window_mirror (hk : k < n) (β : UInt16) : (window (n - 1 - k) n β : K) = window k n β := by
  have hlast := le_last hk
  have hmirror : (n - 1 - k).toNat = (n - 1).toNat - k.toNat :=
    UInt32.toNat_sub_of_le _ _ (UInt32.le_iff_toNat_le.mpr hlast)
  have hinside : n - 1 - k < n := by
    have hlt := UInt32.lt_iff_toNat_lt.mp hk
    rw [UInt32.lt_iff_toNat_lt, hmirror, toNat_last (Nat.zero_lt_of_lt hlt)]
    omega
  rw [window_eq hinside, window_eq hk, hmirror, Nat.cast_sub hlast, argument_mirror]

variable [IsStrictOrderedRing K]

theorem zero_le_argument (hk : k < n) (β : UInt16) :
    0 ≤ argument ((n - 1).toNat : K) k.toNat β.toNat :=
  argument_nonneg (Nat.cast_nonneg _) (Nat.cast_le.mpr (le_last hk))

theorem one_le_window (hk : k < n) (β : UInt16) : (1 : K) ≤ window k n β := by
  rw [window_eq hk]
  exact one_le_besselI0 (zero_le_argument hk β)

theorem two_mul_le_last (hk : k ≤ (n - 1) / 2) : 2 * (k.toNat : K) ≤ (n - 1).toNat := by
  have hhalf : k.toNat ≤ (n - 1).toNat / 2 := UInt32.le_iff_toNat_le.mp hk
  have hdouble : 2 * k.toNat ≤ (n - 1).toNat := by omega
  exact_mod_cast hdouble

theorem window_mono (hk : k < n) (hjk : j ≤ k) (hhalf : k ≤ (n - 1) / 2) (β : UInt16) :
    (window j n β : K) ≤ window k n β := by
  have hj : j < n := UInt32.lt_of_le_of_lt hjk hk
  have hsamples : (j.toNat : K) ≤ k.toNat := Nat.cast_le.mpr (UInt32.le_iff_toNat_le.mp hjk)
  rw [window_eq hj, window_eq hk]
  exact besselI0_strictMonoOn.monotoneOn (zero_le_argument hj β) (zero_le_argument hk β)
    (argument_mono hsamples (two_mul_le_last hhalf))

theorem window_lt (hk : k < n) (hjk : j < k) (hhalf : k ≤ (n - 1) / 2) {β : UInt16} (hβ : β ≠ 0) :
    (window j n β : K) < window k n β := by
  have hj : j < n := UInt32.lt_trans hjk hk
  have hsamples : (j.toNat : K) < k.toNat := Nat.cast_lt.mpr (UInt32.lt_iff_toNat_lt.mp hjk)
  have hshape : (β.toNat : K) ≠ 0 := Nat.cast_ne_zero.mpr fun h => hβ (UInt16.toNat_inj.mp h)
  rw [window_eq hj, window_eq hk]
  exact besselI0_strictMonoOn (zero_le_argument hj β) (zero_le_argument hk β)
    (argument_lt (Nat.cast_nonneg _) hsamples (two_mul_le_last hhalf) hshape)

end Window

end Kaiser

namespace ResponseSetup

variable (s : ResponseSetup)

theorem offset_le : s.offset ≤ s.points := by
  unfold offset
  split
  · exact le_refl _
  · exact Nat.zero_le _

theorem weightSum_eq : (s.weightSum : K) = ∑ k ∈ Finset.range s.points, s.weight k := by
  unfold weightSum
  generalize s.points = n
  induction n with
  | zero => rfl
  | succ n ih =>
    rw [List.range_succ, List.foldl_append, List.foldl_cons, List.foldl_nil, ih,
      Finset.sum_range_succ]

variable [IsStrictOrderedRing K]

theorem one_le_weight {k : Nat} (hk : k < s.points) : (1 : K) ≤ s.weight k := by
  refine Kaiser.one_le_window ?_ _
  have hpoints := s.points_le
  have hoffset := s.offset_le
  simp only [transformLength] at hpoints
  rw [UInt32.lt_iff_toNat_lt]
  simp only [Nat.toUInt32, UInt32.toNat_ofNat']
  omega

theorem weightSum_pos (h : 0 < s.points) : (0 : K) < s.weightSum := by
  rw [weightSum_eq]
  refine Finset.sum_pos (fun k hk => ?_) ⟨0, Finset.mem_range.mpr h⟩
  exact zero_lt_one.trans_le (s.one_le_weight (Finset.mem_range.mp hk))

theorem norm_pos (h : 0 < s.points) : (0 : K) < s.norm := by
  have hsum : (0 : K) < s.weightSum := s.weightSum_pos h
  unfold norm
  split
  · have hpeak : (1 : K) ≤ Kaiser.besselI0
        ((s.window.beta.toNat : K) * s.window.beta.toNat / (4 : Nat)) :=
      Kaiser.one_le_besselI0 (by positivity)
    exact mul_pos (Nat.cast_pos.mpr (by decide)) (zero_lt_one.trans_le hpeak)
  · exact mul_pos (Nat.cast_pos.mpr Nat.two_pos) hsum
  · exact hsum

theorem scale_pos (h : 0 < s.points) : (0 : K) < s.scale := one_div_pos.mpr (s.norm_pos h)

end ResponseSetup

namespace Kaiser

/-- Without rounding, every window is symmetric and nowhere below 1. Up to its middle it does not
fall, and it rises unless it is rectangular. So what a response of at least one point is divided
by is positive, whatever is computed and whichever window is used. -/
theorem window_unimodal [IsStrictOrderedRing K] :
    (∀ (n k : UInt32) (β : UInt16), k < n →
      (window k n β : K) = window (n - 1 - k) n β ∧ (1 : K) ≤ window k n β ∧
      (k ≤ (n - 1) / 2 → ∀ j ≤ k, (window j n β : K) ≤ window k n β ∧
        (β ≠ 0 → j < k → (window j n β : K) < window k n β))) ∧
    ∀ s : ResponseSetup, 1 ≤ s.points → (0 : K) < s.norm := by
  refine ⟨fun n k β hk => ⟨(window_mirror hk β).symm, one_le_window hk β, ?_⟩,
    fun s hpoints => s.norm_pos hpoints⟩
  intro hhalf j hjk
  exact ⟨window_mono hk hjk hhalf β, fun hβ hlt => window_lt hk hlt hhalf hβ⟩

/-- A window of even length, whose upper half weights a lowpass response of eleven points. Its
middle lies between samples 10 and 11. -/
theorem window_unimodal_even :
    (10 : UInt32) < 22 ∧ (9 : UInt32) < 10 ∧ (10 : UInt32) ≤ (22 - 1) / 2 ∧
    1 ≤ (ResponseSetup.ofTrace .lowpassImpulse .normal 11 401).points ∧
    (window 10 22 6 : ℚ) = window 11 22 6 ∧ (1 : ℚ) ≤ window 10 22 6 ∧
    (window 9 22 6 : ℚ) < window 10 22 6 ∧
    (0 : ℚ) < (ResponseSetup.ofTrace .lowpassImpulse .normal 11 401).norm := by
  have hinside : (10 : UInt32) < 22 := by decide
  have hbefore : (9 : UInt32) < 10 := by decide
  have hhalf : (10 : UInt32) ≤ (22 - 1) / 2 := by decide
  have hpoints : 1 ≤ (ResponseSetup.ofTrace .lowpassImpulse .normal 11 401).points := by decide
  obtain ⟨hwindow, hnorm⟩ := window_unimodal (K := ℚ)
  obtain ⟨hmirror, hone, hrises⟩ := hwindow 22 10 6 hinside
  obtain ⟨-, hstrict⟩ := hrises hhalf 9 (UInt32.le_of_lt hbefore)
  exact ⟨hinside, hbefore, hhalf, hpoints, hmirror, hone, hstrict (by decide) hbefore,
    hnorm _ hpoints⟩

end Kaiser

end NetworkAnalyzer
