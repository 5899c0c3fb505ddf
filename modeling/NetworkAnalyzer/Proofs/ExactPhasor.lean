import Mathlib.Algebra.Order.Field.Basic
import Mathlib.Tactic.FieldSimp
import Mathlib.Tactic.Linarith
import Mathlib.Tactic.Ring
import NetworkAnalyzer.Phasor

/-!
# Exact phasors

Over a linearly ordered field the scalar operations do not round, and phasors
with the operations of `Phasor` are themselves a field: the complex numbers over
it. A formula that is written over `Scalar` can then be computed with `ring` and
`field_simp`.

The operations stay those of `Phasor`. The product is the sum of four products, the quotient is
divided by the squared magnitude, and the field laws are proved of them; nothing is replaced by a
complex number of the library. So a statement over `Phasor K` is about the definition that also
runs in single precision, with `K` in the place of the singles.

The inverse of a phasor needs a squared magnitude that is zero for the zero phasor only
(`normSq_eq_zero`). This is what the order of the field is for. Square roots are never taken.

* `Scalar.exact`: the numbers of an ordered field as scalars.
* `normSq_eq_zero`: only the zero phasor has squared magnitude zero.
* `normSq_mul`, `normSq_div`: squared magnitudes multiply and divide.
* `divOr_of_lt`: above its threshold the guarded quotient is the quotient.
* `scale_eq_mul`, `scale_share`: scaling is a product with a real phasor, and scaling by one over a
  number is dividing by it.
-/

namespace NetworkAnalyzer

/-- The numbers of an ordered field. Nothing is rounded. -/
instance Scalar.exact {K : Type} [Field K] [LinearOrder K] : Scalar K where
  ofNat n := n
  ofDecimal m e := m / 10 ^ e
  decLE := inferInstance

attribute [ext] Phasor

namespace Phasor

variable {K : Type} [Field K] [LinearOrder K]

instance : Neg (Phasor K) := ⟨fun z => ⟨-z.re, -z.im⟩⟩
instance : Inv (Phasor K) := ⟨fun z => ⟨z.re / z.normSq, -z.im / z.normSq⟩⟩

@[simp] theorem neg_re (z : Phasor K) : (-z).re = -z.re := rfl
@[simp] theorem neg_im (z : Phasor K) : (-z).im = -z.im := rfl
@[simp] theorem inv_re (z : Phasor K) : z⁻¹.re = z.re / z.normSq := rfl
@[simp] theorem inv_im (z : Phasor K) : z⁻¹.im = -z.im / z.normSq := rfl
@[simp] theorem div_re (z w : Phasor K) :
    (z / w).re = (z.re * w.re + z.im * w.im) / w.normSq := rfl
@[simp] theorem div_im (z w : Phasor K) :
    (z / w).im = (z.im * w.re - z.re * w.im) / w.normSq := rfl

instance : CommRing (Phasor K) where
  add_assoc z w v := by ext <;> simp [add_assoc]
  zero_add z := by ext <;> simp
  add_zero z := by ext <;> simp
  add_comm z w := by ext <;> simp [add_comm]
  left_distrib z w v := by ext <;> simp <;> ring
  right_distrib z w v := by ext <;> simp <;> ring
  zero_mul z := by ext <;> simp
  mul_zero z := by ext <;> simp
  mul_assoc z w v := by ext <;> simp <;> ring
  one_mul z := by ext <;> simp
  mul_one z := by ext <;> simp
  mul_comm z w := by ext <;> simp <;> ring
  sub_eq_add_neg z w := by ext <;> simp [sub_eq_add_neg]
  neg_add_cancel z := by ext <;> simp
  nsmul := nsmulRec
  zsmul := zsmulRec

theorem divOr_of_lt {z w d : Phasor K} {ε : K} (h : ε < w.normSq) : z.divOr w ε d = z / w := by
  unfold divOr
  rw [if_neg (not_le.mpr h)]

theorem scale_eq_mul (z : Phasor K) (k : K) : z.scale k = z * real k := by
  ext <;> simp [real]

theorem real_one : real (1 : K) = 1 := rfl

theorem real_add (a b : K) : real (a + b) = real a + real b := by
  ext <;> simp [real]

theorem real_mul (a b : K) : real (a * b) = real a * real b := by
  ext <;> simp [real]

theorem real_ne_zero {a : K} (h : a ≠ 0) : real a ≠ 0 := fun e => h (congrArg re e)

theorem normSq_mul (z w : Phasor K) : (z * w).normSq = z.normSq * w.normSq := by
  simp only [normSq, mul_re, mul_im]
  ring

variable [IsStrictOrderedRing K]

theorem normSq_eq_zero {z : Phasor K} : z.normSq = 0 ↔ z = 0 := by
  constructor
  · intro h
    have hre : z.re * z.re = 0 := by
      have h₁ := mul_self_nonneg z.re
      have h₂ := mul_self_nonneg z.im
      unfold normSq at h
      linarith
    have him : z.im * z.im = 0 := by
      unfold normSq at h
      linarith
    exact Phasor.ext (mul_self_eq_zero.mp hre) (mul_self_eq_zero.mp him)
  · rintro rfl
    simp [normSq]

theorem normSq_pos {z : Phasor K} (h : z ≠ 0) : 0 < z.normSq := by
  have h₁ := mul_self_nonneg z.re
  have h₂ := mul_self_nonneg z.im
  have h₃ : z.normSq ≠ 0 := fun e => h (normSq_eq_zero.mp e)
  unfold normSq at h₃ ⊢
  exact lt_of_le_of_ne (add_nonneg h₁ h₂) h₃.symm

theorem ne_zero_of_lt_normSq {z : Phasor K} {ε : K} (hε : 0 ≤ ε) (h : ε < z.normSq) : z ≠ 0 := by
  rintro rfl
  rw [normSq_eq_zero.mpr rfl] at h
  exact absurd h (not_lt.mpr hε)

instance : Field (Phasor K) where
  exists_pair_ne := ⟨0, 1, fun h => zero_ne_one (congrArg Phasor.re h)⟩
  mul_inv_cancel z h := by
    have hz : z.normSq ≠ 0 := (normSq_pos h).ne'
    ext
    · calc (z * z⁻¹).re = z.normSq / z.normSq := by
            simp only [mul_re, inv_re, inv_im, normSq]
            ring
        _ = 1 := div_self hz
    · simp only [mul_im, inv_re, inv_im, one_im]
      ring
  inv_zero := by ext <;> simp
  div_eq_mul_inv z w := by
    ext
    · simp only [div_re, mul_re, inv_re, inv_im]
      ring
    · simp only [div_im, mul_im, inv_re, inv_im]
      ring
  nnqsmul := _
  nnqsmul_def _ _ := rfl
  qsmul := _
  qsmul_def _ _ := rfl

theorem normSq_div {z w : Phasor K} (hw : w ≠ 0) : (z / w).normSq = z.normSq / w.normSq := by
  rw [eq_div_iff (normSq_pos hw).ne', ← normSq_mul, div_mul_cancel₀ _ hw]

theorem natCast_eq (n : Nat) : (n : Phasor K) = real (n : K) := by
  induction n with
  | zero => ext <;> simp [real]
  | succ n ih =>
    rw [Nat.cast_succ, ih]
    ext <;> simp [real]

theorem natCast_ne_zero {n : Nat} (hn : n ≠ 0) : (n : Phasor K) ≠ 0 := by
  rw [natCast_eq]
  exact fun h => hn (Nat.cast_eq_zero.mp (congrArg Phasor.re h))

theorem scale_share {count : Nat} (hcount : count ≠ 0) (z : Phasor K) :
    z.scale (1 / Scalar.ofNat count) = z / count := by
  have hne : (count : K) ≠ 0 := Nat.cast_ne_zero.mpr hcount
  rw [eq_div_iff (natCast_ne_zero hcount), natCast_eq, scale_eq_mul, mul_assoc]
  have hone : real (1 / Scalar.ofNat count) * real (count : K) = 1 := by
    ext
    · change 1 / (count : K) * count - 0 * 0 = 1
      rw [one_div_mul_cancel hne]
      simp
    · change 1 / (count : K) * 0 + 0 * (count : K) = 0
      simp
  rw [hone, mul_one]

end Phasor

end NetworkAnalyzer
