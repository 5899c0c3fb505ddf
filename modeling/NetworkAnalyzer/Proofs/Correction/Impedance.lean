import Mathlib.Tactic.LinearCombination
import NetworkAnalyzer.Correction
import NetworkAnalyzer.Proofs.ExactPhasor

/-!
# Changing the impedance

A reflection is relative to an impedance. The reflection of a real load is its mismatch, and the
mismatch of a further load adds to it as velocities do:

  `mismatch c a = (mismatch b a + mismatch c b) / (1 + mismatch b a * mismatch c b)`.

Referring a reflection to another impedance is the same addition with the sign turned, so changes of
the impedance compose. A mismatch of positive impedances is smaller than one in magnitude, so a
change maps the unit disc into itself.

A denominator whose squared magnitude is at or below `renormalizeGuard` leaves the value. Changes
above the guard are `Regular`, and the laws of composition hold of them. The guard is met by
passive loads, too: an open end referred to ten megohms is one. That a passive load stays passive
holds either way, because leaving a value does no harm.

* `mismatch_add`: how mismatches add.
* `renormalize_of_regular`: above the guard a reflection is referred by the quotient.
* `renormalize_mismatch`: the reflection of a load becomes the reflection of the same load.
* `renormalize_self`, `renormalize_trans`, `renormalize_back`: identity, composition and inverse.
* `normSq_renormalize_le`: the unit disc.
* `renormalize_composes`: composition, identity, inverse and passive loads together.
-/

namespace NetworkAnalyzer

variable {K : Type} [Field K] [LinearOrder K]

namespace Correction

open Phasor

/-! ## Mismatches -/

def mismatch (load reference : K) : K := (load - reference) / (load + reference)

theorem mismatch_self (z : K) : mismatch z z = 0 := by
  unfold mismatch
  rw [sub_self, zero_div]

section Positive

variable [IsStrictOrderedRing K] {load reference a b c : K}

theorem mismatch_sq_lt (hl : 0 < load) (hr : 0 < reference) : mismatch load reference ^ 2 < 1 := by
  unfold mismatch
  rw [div_pow, div_lt_one (by positivity)]
  nlinarith [mul_pos hl hr]

theorem one_add_mismatch_mul_pos (ha : 0 < a) (hb : 0 < b) (hc : 0 < c) :
    0 < 1 + mismatch b a * mismatch c b := by
  nlinarith [mismatch_sq_lt hb ha, mismatch_sq_lt hc hb, sq_nonneg (mismatch b a + mismatch c b)]

/-- The mismatch of `c` at `a`, from the mismatches over `b`. -/
theorem mismatch_add (ha : 0 < a) (hb : 0 < b) (hc : 0 < c) :
    mismatch c a * (1 + mismatch b a * mismatch c b) = mismatch b a + mismatch c b := by
  have hba : b + a ≠ 0 := (add_pos hb ha).ne'
  have hcb : c + b ≠ 0 := (add_pos hc hb).ne'
  have hca : c + a ≠ 0 := (add_pos hc ha).ne'
  unfold mismatch
  field_simp
  ring

theorem real_mismatch_add (ha : 0 < a) (hb : 0 < b) (hc : 0 < c) :
    real (mismatch c a) * (1 + real (mismatch b a) * real (mismatch c b)) =
      real (mismatch b a) + real (mismatch c b) := by
  rw [← real_mul, ← real_one, ← real_add, ← real_mul, mismatch_add ha hb hc, real_add]

end Positive

/-! ## One change -/

/-- What a change of the impedance divides by. -/
def denominator (γ : Phasor K) (load reference : K) : Phasor K :=
  1 - γ * real (mismatch load reference)

/-- The denominator is above the guard. -/
def Regular (γ : Phasor K) (load reference : K) : Prop :=
  renormalizeGuard < (denominator γ load reference).normSq

instance (γ : Phasor K) (load reference : K) : Decidable (Regular γ load reference) :=
  inferInstanceAs (Decidable (_ < _))

variable {γ : Phasor K} {load reference a b c : K}

theorem denominator_eq (γ : Phasor K) (load reference : K) :
    denominator γ load reference =
      ⟨1 - γ.re * mismatch load reference, -γ.im * mismatch load reference⟩ := by
  unfold denominator
  ext <;> simp [real]

theorem sub_mismatch (γ : Phasor K) (load reference : K) :
    γ - real (mismatch load reference) = ⟨γ.re - mismatch load reference, γ.im⟩ := by
  ext <;> simp [real]

theorem renormalize_of_regular (h : Regular γ load reference) :
    renormalize γ load reference =
      (γ - real (mismatch load reference)) / denominator γ load reference := by
  unfold Regular at h
  rw [denominator_eq] at h ⊢
  rw [sub_mismatch]
  exact if_neg (not_le.mpr h)

theorem renormalize_of_not_regular (h : ¬Regular γ load reference) :
    renormalize γ load reference = γ := by
  unfold Regular at h
  rw [denominator_eq] at h
  exact if_pos (not_lt.mp h)

theorem denominator_self (γ : Phasor K) (z : K) : denominator γ z z = 1 := by
  unfold denominator
  rw [mismatch_self]
  ext <;> simp [real]

variable [IsStrictOrderedRing K]

theorem Regular.denominator_ne_zero (h : Regular γ load reference) :
    denominator γ load reference ≠ 0 := by
  have hguard : (0 : K) ≤ renormalizeGuard := by
    change (0 : K) ≤ (1 : Nat) / 10 ^ 9
    positivity
  exact ne_zero_of_lt_normSq hguard h

theorem regular_self (γ : Phasor K) (z : K) : Regular γ z z := by
  unfold Regular
  rw [denominator_self]
  change ((1 : Nat) : K) / 10 ^ 9 < 1 * 1 + 0 * 0
  norm_num

theorem renormalize_self (γ : Phasor K) (z : K) : renormalize γ z z = γ := by
  rw [renormalize_of_regular (regular_self γ z), denominator_self, mismatch_self, div_one]
  ext <;> simp [real]

/-! ## Two changes -/

/-- Two changes, each of them regular, are the change to the last impedance. -/
theorem renormalize_trans (ha : 0 < a) (hb : 0 < b) (hc : 0 < c) (hab : Regular γ b a)
    (hbc : Regular (renormalize γ b a) c b) (hac : Regular γ c a) :
    renormalize (renormalize γ b a) c b = renormalize γ c a := by
  have hsum := real_mismatch_add ha hb hc
  have hpos : 1 + real (mismatch b a) * real (mismatch c b) ≠ 0 := by
    rw [← real_mul, ← real_one, ← real_add]
    exact real_ne_zero (one_add_mismatch_mul_pos ha hb hc).ne'
  have hfirst : renormalize γ b a * denominator γ b a = γ - real (mismatch b a) := by
    rw [renormalize_of_regular hab, div_mul_cancel₀ _ hab.denominator_ne_zero]
  have hnonzero : denominator γ b a * (1 + real (mismatch b a) * real (mismatch c b)) ≠ 0 :=
    mul_ne_zero hab.denominator_ne_zero hpos
  rw [renormalize_of_regular hbc, renormalize_of_regular hac,
    div_eq_div_iff hbc.denominator_ne_zero hac.denominator_ne_zero]
  -- both sides are compared after multiplying by what the first change and the sum divide by
  refine mul_left_cancel₀ hnonzero ?_
  unfold denominator at hfirst ⊢
  generalize renormalize γ b a = δ at hfirst ⊢
  generalize real (mismatch b a) = k at hsum hfirst ⊢
  generalize real (mismatch c b) = l at hsum hfirst ⊢
  generalize real (mismatch c a) = m at hsum hfirst ⊢
  linear_combination
    ((1 + k * l) * (1 - γ * m) + l * ((1 + k * l) * (γ - m))) * hfirst +
      ((1 - γ * k) - l * (γ - k) - γ * ((γ - k) - l * (1 - γ * k))) * hsum

theorem renormalize_back (ha : 0 < a) (hb : 0 < b) (hab : Regular γ b a)
    (hba : Regular (renormalize γ b a) a b) : renormalize (renormalize γ b a) a b = γ := by
  rw [renormalize_trans ha hb ha hab hba (regular_self γ a), renormalize_self]

/-- The reflection of a load becomes the reflection of the same load. -/
theorem renormalize_mismatch (ha : 0 < a) (hb : 0 < b) (hc : 0 < c)
    (h : Regular (real (mismatch c a)) b a) :
    renormalize (real (mismatch c a)) b a = real (mismatch c b) := by
  rw [renormalize_of_regular h, div_eq_iff h.denominator_ne_zero]
  unfold denominator
  linear_combination real_mismatch_add ha hb hc

/-! ## Passive loads -/

omit [IsStrictOrderedRing K] in
theorem normSq_denominator_sub (γ : Phasor K) (load reference : K) :
    (denominator γ load reference).normSq - (γ - real (mismatch load reference)).normSq =
      (1 - γ.normSq) * (1 - mismatch load reference ^ 2) := by
  rw [denominator_eq, sub_mismatch]
  simp only [normSq]
  ring

/-- Of a passive load no more comes back than went in, whatever it is referred to. -/
theorem normSq_renormalize_le (hl : 0 < load) (hr : 0 < reference) (hγ : γ.normSq ≤ 1) :
    (renormalize γ load reference).normSq ≤ 1 := by
  by_cases h : Regular γ load reference
  · have hgap : 0 ≤ (1 - γ.normSq) * (1 - mismatch load reference ^ 2) :=
      mul_nonneg (sub_nonneg.mpr hγ) (sub_nonneg.mpr (mismatch_sq_lt hl hr).le)
    rw [← normSq_denominator_sub] at hgap
    rw [renormalize_of_regular h, normSq_div h.denominator_ne_zero,
      div_le_one (normSq_pos h.denominator_ne_zero)]
    exact sub_nonneg.mp hgap
  · rw [renormalize_of_not_regular h]
    exact hγ

/-- An open end is below the guard when it is referred to ten megohms. -/
example : ¬Regular (1 : Phasor ℚ) 10000000 50 := by decide +kernel

/-- Between positive impedances, changes above the guard compose, change nothing if the impedance
stays, and are undone by the change back; above the guard or not, they keep a passive load
passive. -/
theorem renormalize_composes {z₀ z₁ z₂ : K} (h₀ : 0 < z₀) (h₁ : 0 < z₁) (h₂ : 0 < z₂)
    (γ : Phasor K) :
    (Regular γ z₁ z₀ → Regular (renormalize γ z₁ z₀) z₂ z₁ → Regular γ z₂ z₀ →
      renormalize (renormalize γ z₁ z₀) z₂ z₁ = renormalize γ z₂ z₀) ∧
    renormalize γ z₀ z₀ = γ ∧
    (Regular γ z₁ z₀ → Regular (renormalize γ z₁ z₀) z₀ z₁ →
      renormalize (renormalize γ z₁ z₀) z₀ z₁ = γ) ∧
    (γ.normSq ≤ 1 → (renormalize γ z₁ z₀).normSq ≤ 1) :=
  ⟨renormalize_trans h₀ h₁ h₂, renormalize_self γ z₀, renormalize_back h₀ h₁,
    normSq_renormalize_le h₁ h₀⟩

def lossyCoil : Phasor ℚ := ⟨3 / 10, 2 / 5⟩

theorem renormalize_composes_lossyCoil :
    Regular lossyCoil 75 50 ∧ Regular (renormalize lossyCoil 75 50) 200 75 ∧
    Regular lossyCoil 200 50 ∧ Regular (renormalize lossyCoil 75 50) 50 75 ∧
    lossyCoil.normSq ≤ 1 ∧
    renormalize (renormalize lossyCoil 75 50) 200 75 = renormalize lossyCoil 200 50 ∧
    renormalize lossyCoil 50 50 = lossyCoil ∧
    renormalize (renormalize lossyCoil 75 50) 50 75 = lossyCoil ∧
    (renormalize lossyCoil 75 50).normSq ≤ 1 := by
  obtain ⟨htrans, hself, hback, hpassive⟩ :=
    renormalize_composes (show (0 : ℚ) < 50 by norm_num) (show (0 : ℚ) < 75 by norm_num)
      (show (0 : ℚ) < 200 by norm_num) lossyCoil
  have hfirst : Regular lossyCoil 75 50 := by decide +kernel
  have hsecond : Regular (renormalize lossyCoil 75 50) 200 75 := by decide +kernel
  have hdirect : Regular lossyCoil 200 50 := by decide +kernel
  have hreturn : Regular (renormalize lossyCoil 75 50) 50 75 := by decide +kernel
  have hload : lossyCoil.normSq ≤ 1 := by decide +kernel
  exact ⟨hfirst, hsecond, hdirect, hreturn, hload, htrans hfirst hsecond hdirect, hself,
    hback hfirst hreturn, hpassive hload⟩

end Correction

end NetworkAnalyzer
