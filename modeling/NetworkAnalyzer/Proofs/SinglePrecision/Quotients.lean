import NetworkAnalyzer.Proofs.SinglePrecision

/-!
# Quotients of whole numbers in single precision

A quotient of two counts is rounded three times: both counts, then their quotient. Rounding
keeps the order of counts and does not cross a power of two, so a proper fraction stays in the
unit interval, and the number one above or below it stays in the neighbouring one. The bounds
can be reached: a fraction small enough, plus one, is rounded to one.

Magnitudes in normal form are compared by exponent and then by mantissa (`Below`). No real numbers
are needed for this, and no error bounds either: to stay between two powers of two is a statement
about the exponent (`Octaves`), and the case that a mantissa is rounded up to the next power of two
is part of it.

A count may lose up to eight bits when it is rounded, so a numerator and a denominator that differ
may become equal. Their quotient is then exactly one (`quotient_self`), which is why the upper end
belongs to the interval.

* `ofNat_below`: rounding keeps the order of counts.
* `round_octaves`: rounding stays within the powers of two around a number.
* `number_quotient`: a proper fraction is one, or a number in a lower octave.
* `add_one_octaves`, `sub_one_octaves`: one above and one below such a number.
* `proper_quotient`: where a proper fraction, and the numbers one above and below it, can lie.
-/

namespace NetworkAnalyzer.SinglePrecision

open Float.Model (Format UnpackedFloat totalExponent)
open Float.Model.UnpackedFloat

/-! ## Order of numbers -/

/-- The order of two magnitudes in normal form, by exponent and then by mantissa. -/
def Below (m₁ : Nat) (e₁ : Int) (m₂ : Nat) (e₂ : Int) : Prop := e₁ < e₂ ∨ e₁ = e₂ ∧ m₁ ≤ m₂

theorem Below.isLE {m₁ m₂ : Nat} {e₁ e₂ : Int} (h : Below m₁ e₁ m₂ e₂) :
    ((compare e₁ e₂).then (compare m₁ m₂)).isLE := by
  rcases h with he | ⟨rfl, hm⟩
  · rw [Int.compare_eq_lt.mpr he]
    rfl
  · rw [Int.compare_eq_eq.mpr rfl]
    exact Nat.isLE_compare.mpr hm

theorem Below.isGE {m₁ m₂ : Nat} {e₁ e₂ : Int} (h : Below m₁ e₁ m₂ e₂) :
    ((compare e₂ e₁).then (compare m₂ m₁)).isGE := by
  rcases h with he | ⟨rfl, hm⟩
  · rw [Int.compare_eq_gt.mpr he]
    rfl
  · rw [Int.compare_eq_eq.mpr rfl]
    exact Nat.isGE_compare.mpr hm

theorem number_two : number 2 = .finite .positive (2 ^ 23) (-22) (by decide) := rfl

theorem number_neg_one : number (-1) = .finite .negative (2 ^ 23) (-23) (by decide) := rfl

theorem le_iff {x y : Float32} : x ≤ y ↔ (number x).le (number y) = true := decide_eq_true_iff

theorem lt_iff {x y : Float32} : x < y ↔ (number x).lt (number y) = true := decide_eq_true_iff

theorem le_of_positive {x y : Float32} {m₁ m₂ : Nat} {e₁ e₂ : Int} {h₁ : 0 < m₁} {h₂ : 0 < m₂}
    (hx : number x = .finite .positive m₁ e₁ h₁) (hy : number y = .finite .positive m₂ e₂ h₂)
    (h : Below m₁ e₁ m₂ e₂) : x ≤ y := by
  rw [le_iff, hx, hy]
  exact h.isLE

theorem le_of_negative {x y : Float32} {m₁ m₂ : Nat} {e₁ e₂ : Int} {h₁ : 0 < m₁} {h₂ : 0 < m₂}
    (hx : number x = .finite .negative m₁ e₁ h₁) (hy : number y = .finite .negative m₂ e₂ h₂)
    (h : Below m₂ e₂ m₁ e₁) : x ≤ y := by
  rw [le_iff, hx, hy]
  change ((compare e₁ e₂).then (compare m₁ m₂)).swap.isLE = true
  rw [Ordering.isLE_swap]
  exact h.isGE

theorem pos_of_positive {x : Float32} {m : Nat} {e : Int} {h : 0 < m}
    (hx : number x = .finite .positive m e h) : 0 < x := by
  rw [lt_iff, hx]
  rfl

theorem le_zero_of_negative {x : Float32} {m : Nat} {e : Int} {h : 0 < m}
    (hx : number x = .finite .negative m e h) : x ≤ 0 := by
  rw [le_iff, hx]
  rfl

/-! ## Rounding keeps the order of counts -/

/-- A mantissa and its two residual bits as one number, by which rounding proceeds. -/
def residual (em : ExtendedMantissa) : Nat :=
  4 * em.mantissa + 2 * em.roundBit.toNat + em.stickyBit.toNat

theorem residual_shiftRightOne (em : ExtendedMantissa) :
    residual em.shiftRightOne = 2 * em.mantissa + (em.roundBit || em.stickyBit).toNat := by
  obtain ⟨m, r, s⟩ := em
  rcases Nat.mod_two_eq_zero_or_one m with h | h <;>
    simp only [residual, ExtendedMantissa.shiftRightOne, h] <;>
    simp <;> omega

theorem shiftRightOne_mono {em em' : ExtendedMantissa} (h : residual em ≤ residual em') :
    residual em.shiftRightOne ≤ residual em'.shiftRightOne := by
  rw [residual_shiftRightOne, residual_shiftRightOne]
  obtain ⟨m, r, s⟩ := em
  obtain ⟨m', r', s'⟩ := em'
  unfold residual at h
  cases r <;> cases s <;> cases r' <;> cases s' <;>
    simp only [Bool.toNat_false, Bool.toNat_true, Bool.or_false, Bool.or_true] at h ⊢ <;> omega

theorem shiftRight_mono {em em' : ExtendedMantissa} (h : residual em ≤ residual em') (k : Nat) :
    residual (em >>> k) ≤ residual (em' >>> k) := by
  change residual (k.repeat ExtendedMantissa.shiftRightOne em) ≤
    residual (k.repeat ExtendedMantissa.shiftRightOne em')
  induction k with
  | zero => exact h
  | succ k ih => exact shiftRightOne_mono ih

theorem roundedMantissa_mono {em em' : ExtendedMantissa} (h : residual em ≤ residual em') :
    em.roundedMantissa ≤ em'.roundedMantissa := by
  obtain ⟨m, r, s⟩ := em
  obtain ⟨m', r', s'⟩ := em'
  unfold residual at h
  cases r <;> cases s <;> cases r' <;> cases s' <;>
    simp only [Bool.toNat_false, Bool.toNat_true, ExtendedMantissa.roundedMantissa,
      ExtendedMantissa.accuracy, Accuracy.roundToNearestEven] at h ⊢ <;> omega

/-- A count of 32 bits: its leading 24 bits, rounded. -/
theorem ofNat_rounded {n : Nat} (hn : 0 < n) :
    ∃ r m e h, UnpackedFloat.ofNat .binary32 n = .finite .positive m e h ∧
      r = ((⟨n * 2 ^ (23 - n.log2), false, false⟩ : ExtendedMantissa) >>>
        (n.log2 - 23)).roundedMantissa ∧ 2 ^ 23 ≤ r ∧ r ≤ 2 ^ 24 ∧
      m = (if r = 2 ^ 24 then 2 ^ 23 else r) ∧
      e = (if r = 2 ^ 24 then (n.log2 : Int) - 22 else n.log2 - 23) := by
  have hlog := log2_mul_two_pow hn.ne' (23 - n.log2)
  have hround : UnpackedFloat.ofNat .binary32 n = roundWithAccuracy .binary32 .positive
      (n * 2 ^ (23 - n.log2)) (-(23 - n.log2 : Nat)) .exact := by
    rw [ofNat_eq_round hn]
    unfold UnpackedFloat.round decreaseExponent
    dsimp only
    rw [targetExponent_eq, Nat.shiftLeft_eq,
      show (0 - max ((n.log2 : Int) + 0 - 23) (-149)).toNat = 23 - n.log2 by omega, Int.zero_sub]
  obtain ⟨r, m, e, hr, hr', hlo, hm, he, hcases⟩ :=
    roundWithAccuracy_eq (Nat.mul_pos hn (Nat.two_pow_pos _)) (e := -(23 - n.log2 : Nat))
      (t := (n.log2 : Int) - 23) (by rw [hlog]; omega) (by omega) .positive .exact
  have hmin := hlo (by omega)
  have hpos : m ≠ 0 := by split at hm <;> omega
  rw [hround, hcases, dif_neg hpos]
  refine ⟨r, m, e, _, rfl, ?_, hmin, hr', hm, by split at he <;> omega⟩
  rw [hr, show ((n.log2 : Int) - 23 - -(23 - n.log2 : Nat)).toNat = n.log2 - 23 by omega]
  rfl

theorem ofNat_below {n d m₁ m₂ : Nat} {e₁ e₂ : Int} {h₁ : 0 < m₁} {h₂ : 0 < m₂} (hn : 0 < n)
    (hle : n ≤ d) (hf₁ : UnpackedFloat.ofNat .binary32 n = .finite .positive m₁ e₁ h₁)
    (hf₂ : UnpackedFloat.ofNat .binary32 d = .finite .positive m₂ e₂ h₂) :
    Below m₁ e₁ m₂ e₂ := by
  have hd : 0 < d := Nat.lt_of_lt_of_le hn hle
  obtain ⟨r₁, m, e, h, hn', hr₁, hlo₁, hhi₁, hm₁, he₁⟩ := ofNat_rounded hn
  rw [hf₁] at hn'
  cases hn'
  obtain ⟨r₂, m, e, h, hd', hr₂, hlo₂, hhi₂, hm₂, he₂⟩ := ofNat_rounded hd
  rw [hf₂] at hd'
  cases hd'
  have hlog : n.log2 ≤ d.log2 :=
    (Nat.le_log2 hd.ne').mpr (Nat.le_trans (Nat.log2_self_le hn.ne') hle)
  unfold Below
  rcases Nat.lt_or_eq_of_le hlog with hlt | heq
  · -- The smaller count ends in a lower octave, or it was rounded up to where that one begins.
    split at hm₁ <;> split at he₁ <;> split at hm₂ <;> split at he₂ <;> omega
  · have hr : r₁ ≤ r₂ := by
      rw [hr₁, hr₂, heq]
      refine roundedMantissa_mono (shiftRight_mono ?_ _)
      unfold residual
      have := Nat.mul_le_mul_right (2 ^ (23 - d.log2)) hle
      simp only [Bool.toNat_false]
      omega
    split at hm₁ <;> split at he₁ <;> split at hm₂ <;> split at he₂ <;> omega

/-! ## Rounding within powers of two -/

/-- The magnitude `m * 2 ^ e` in normal form lies from `2 ^ lo` up to `2 ^ hi`. -/
def Octaves (lo hi : Int) (m : Nat) (e : Int) : Prop :=
  lo ≤ e + 23 ∧ (e + 23 < hi ∨ e + 23 = hi ∧ m = 2 ^ 23)

theorem Octaves.below {lo hi : Int} {m : Nat} {e : Int} (h : Octaves lo hi m e) :
    Below m e (2 ^ 23) (hi - 23) := by
  unfold Octaves at h
  unfold Below
  omega

theorem Octaves.above {lo hi : Int} {s : Sign} {m : Nat} {e : Int} {hm : 0 < m}
    (h : Octaves lo hi m e) (hf : Kept (.finite s m e hm)) (hlo : -126 < lo) :
    Below (2 ^ 23) (lo - 23) m e := by
  unfold Octaves at h
  unfold Below
  cases hf with
  | subnormal => omega
  | normal => omega

/-- Rounding at the target exponent stays within the powers of two around a mantissa. -/
theorem octaves_of_target {m m' i j : Nat} {e e' : Int} (hm : 0 < m) (hlo : 2 ^ i ≤ m)
    (hhi : m < 2 ^ j) (hle : (m.log2 : Int) + e - 23 ≤ e')
    (hge : e' ≤ (m.log2 : Int) + e - 23 + 1 ∧ (e' = (m.log2 : Int) + e - 23 + 1 → m' = 2 ^ 23)) :
    Octaves (i + e) (j + e) m' e' := by
  have hlog : i ≤ m.log2 := (Nat.le_log2 hm.ne').mpr hlo
  have hlog' : m.log2 < j := (Nat.log2_lt hm.ne').mpr hhi
  unfold Octaves
  omega

theorem roundWithAccuracy_octaves {m i j : Nat} {e : Int} (hm : 0 < m) (hlo : 2 ^ i ≤ m)
    (hhi : m < 2 ^ j) (hi : 23 ≤ i) (hnormal : -126 < i + e) (hmax : j + e ≤ 100) (s : Sign)
    (a : Accuracy) :
    ∃ m' e' h, roundWithAccuracy .binary32 s m e a = .finite s m' e' h ∧
      Kept (.finite s m' e' h) ∧ Octaves (i + e) (j + e) m' e' := by
  have hlog : i ≤ m.log2 := (Nat.le_log2 hm.ne').mpr hlo
  have hlog' : m.log2 < j := (Nat.log2_lt hm.ne').mpr hhi
  rcases roundWithAccuracy_cases (e := e) (t := m.log2 + e - 23) hm (by omega) (by omega)
    (by omega) s a with ⟨ht, -⟩ | ⟨m', e', h, hf, hkept, hle, hge⟩
  · omega
  · exact ⟨m', e', h, hf, hkept, octaves_of_target hm hlo hhi hle hge⟩

theorem round_octaves {m i j : Nat} {e : Int} (hm : 0 < m) (hlo : 2 ^ i ≤ m) (hhi : m < 2 ^ j)
    (hnormal : -126 < i + e) (hmax : j + e ≤ 100) (s : Sign) :
    ∃ m' e' h, UnpackedFloat.round .binary32 s m e = .finite s m' e' h ∧
      Kept (.finite s m' e' h) ∧ Octaves (i + e) (j + e) m' e' := by
  have hlog : i ≤ m.log2 := (Nat.le_log2 hm.ne').mpr hlo
  have hlog' : m.log2 < j := (Nat.log2_lt hm.ne').mpr hhi
  rcases round_cases (e := e) (t := m.log2 + e - 23) hm (by omega) (by omega) s with
    ⟨ht, -⟩ | ⟨m', e', h, hf, hkept, hle, hge⟩
  · omega
  · exact ⟨m', e', h, hf, hkept, octaves_of_target hm hlo hhi hle hge⟩

/-! ## Quotients -/

section

variable {m₁ m₂ : Nat} {e₁ e₂ : Int} (h₁ : 0 < m₁) (h₂ : 0 < m₂)
  (hm₁ : 2 ^ 23 ≤ m₁ ∧ m₁ < 2 ^ 24) (hm₂ : 2 ^ 23 ≤ m₂ ∧ m₂ < 2 ^ 24)
  (he₁ : -23 ≤ e₁ ∧ e₁ ≤ 9) (he₂ : -23 ≤ e₂ ∧ e₂ ≤ 9)
include hm₁ he₁

theorem div_self_normal :
    UnpackedFloat.div .binary32 (.finite .positive m₁ e₁ h₁) (.finite .positive m₁ e₁ h₁) =
      number 1 := by
  rw [div_normal h₁ h₁ hm₁ hm₁ he₁ he₁, Nat.mul_div_cancel_left _ h₁, Nat.mul_mod_right,
    show e₁ - e₁ - 24 = -23 - (1 : Nat) by omega, show 2 ^ 24 = 2 ^ 23 * 2 ^ 1 by rfl]
  exact roundWithAccuracy_exact (h := by decide)
    (.normal (by decide) (by decide) (by decide) (by decide)) 1

include hm₂ he₂

theorem div_octaves (h : Below m₁ e₁ m₂ e₂) (hne : ¬ (m₁ = m₂ ∧ e₁ = e₂)) :
    ∃ m e h, UnpackedFloat.div .binary32 (.finite .positive m₁ e₁ h₁)
        (.finite .positive m₂ e₂ h₂) = .finite .positive m e h ∧
      Kept (.finite .positive m e h) ∧ Octaves (-33) 0 m e := by
  have hq := le_quotient h₂ hm₁.1 hm₂.2
  -- Below one, the quotient has 24 bits, or 25 bits one octave lower.
  obtain ⟨j, hj, hje⟩ : ∃ j : Nat, m₁ * 2 ^ 24 / m₂ < 2 ^ j ∧ j + (e₁ - e₂ - 24) ≤ 0 := by
    rcases h with he | ⟨he, hm⟩
    · refine ⟨25, ?_, by omega⟩
      rw [Nat.div_lt_iff_lt_mul h₂]
      omega
    · refine ⟨24, ?_, by omega⟩
      rw [Nat.div_lt_iff_lt_mul h₂]
      omega
  obtain ⟨m, e, hpos, hf, hkept, hoct⟩ := roundWithAccuracy_octaves (e := e₁ - e₂ - 24) (i := 23)
    (by omega) hq hj (by omega) (by omega) (by omega) .positive
    (accuracyOfFraction (m₁ * 2 ^ 24 % m₂) m₂)
  refine ⟨m, e, hpos, ?_, hkept, ?_⟩
  · rw [div_normal h₁ h₂ hm₁ hm₂ he₁ he₂]
    exact hf
  · unfold Octaves at hoct ⊢
    omega

end

/-- What a count of 32 bits is as a number. -/
theorem number_ofNat {n : Nat} (hn : 0 < n) (hlt : n < 2 ^ 32) :
    ∃ m e h, UnpackedFloat.ofNat .binary32 n = .finite .positive m e h ∧
      number (Scalar.ofNat n) = .finite .positive m e h ∧
      (2 ^ 23 ≤ m ∧ m < 2 ^ 24) ∧ (-23 ≤ e ∧ e ≤ 9) := by
  obtain ⟨m, e, h, hf, hlo, hhi, helo, hehi⟩ := ofNat_normal hn hlt
  refine ⟨m, e, h, hf, ?_, ⟨hlo, hhi⟩, helo, hehi⟩
  rw [ofNat_eq n hlt, hf]
  exact number_word (.normal hlo hhi (by omega) (by omega))

theorem quotient_self {n : Nat} (hn : 0 < n) (hlt : n < 2 ^ 32) :
    (Scalar.ofNat n / Scalar.ofNat n : Float32) = 1 := by
  obtain ⟨m, e, h, -, hnum, hm, he⟩ := number_ofNat hn hlt
  change word (UnpackedFloat.div .binary32 (number (Scalar.ofNat n)) (number (Scalar.ofNat n))) = 1
  rw [hnum]
  exact eq_word (div_self_normal h hm he)

/-- A proper fraction is one or a number in a lower octave. -/
theorem number_quotient {n d : Nat} (hn : 0 < n) (hle : n ≤ d) (hd : d < 2 ^ 32) :
    (Scalar.ofNat n / Scalar.ofNat d : Float32) = 1 ∨
      ∃ m e h, number (Scalar.ofNat n / Scalar.ofNat d) = .finite .positive m e h ∧
        m < 2 ^ 24 ∧ -100 ≤ e ∧ e ≤ -24 := by
  obtain ⟨m₁, e₁, h₁, hf₁, hnum₁, hm₁, he₁⟩ := number_ofNat hn (by omega)
  obtain ⟨m₂, e₂, h₂, hf₂, hnum₂, hm₂, he₂⟩ := number_ofNat (by omega : 0 < d) hd
  have hdiv : (Scalar.ofNat n / Scalar.ofNat d : Float32) =
      word (UnpackedFloat.div .binary32 (.finite .positive m₁ e₁ h₁)
        (.finite .positive m₂ e₂ h₂)) := by
    rw [← hnum₁, ← hnum₂]
    rfl
  rw [hdiv]
  by_cases hsame : m₁ = m₂ ∧ e₁ = e₂
  · obtain ⟨rfl, rfl⟩ := hsame
    exact Or.inl (eq_word (div_self_normal h₁ hm₁ he₁))
  · obtain ⟨m, e, h, hf, hkept, hlo, hlower | ⟨hone, rfl⟩⟩ :=
      div_octaves h₁ h₂ hm₁ hm₂ he₁ he₂ (ofNat_below hn hle hf₁ hf₂) hsame
    · rw [hf]
      exact Or.inr ⟨m, e, h, number_word hkept, hkept.lt, by omega, by omega⟩
    · obtain rfl : e = -23 := by omega
      rw [hf]
      exact Or.inl rfl

/-! ## One above and one below -/

section

variable {m : Nat} {e : Int} (hm : m < 2 ^ 24) (he : -100 ≤ e ∧ e ≤ -24)
include he

theorem aligned_one (m : Nat) : ∃ p : Nat, (p : Int) = -e ∧ 2 ^ 24 ≤ 2 ^ p ∧
    decreaseExponent m e (min e (-23)) = (m, e) ∧
    decreaseExponent (2 ^ 23) (-23) (min e (-23)) = (2 ^ p, e) := by
  obtain ⟨p, hp⟩ : ∃ p : Nat, (p : Int) = -e := ⟨_, Int.toNat_of_nonneg (by omega)⟩
  have hpow : 2 ^ 24 ≤ 2 ^ p := Nat.pow_le_pow_right (by decide) (by omega)
  rw [min_eq_left (by omega : e ≤ -23)]
  unfold decreaseExponent
  dsimp only
  refine ⟨p, hp, hpow, ?_, ?_⟩
  · rw [Int.sub_self, Int.toNat_zero, Nat.shiftLeft_zero]
    exact congrArg _ (Int.sub_zero e)
  · rw [Nat.shiftLeft_eq, ← Nat.pow_add, show 23 + (-23 - e).toNat = p by omega]
    exact congrArg _ (by omega)

include hm

theorem add_one_octaves (h : 0 < m) :
    ∃ m' e' h', UnpackedFloat.add .binary32 (.finite .positive m e h) (number 1) =
        .finite .positive m' e' h' ∧
      Kept (.finite .positive m' e' h') ∧ Octaves 0 1 m' e' := by
  obtain ⟨p, hp, hpow, halign, halign'⟩ := aligned_one he m
  obtain ⟨m', e', h', hf, hkept, hoct⟩ := round_octaves (m := m + 2 ^ p) (i := p) (j := p + 1)
    (e := e) (by omega) (by omega) (by rw [Nat.pow_succ]; omega) (by omega) (by omega) .positive
  refine ⟨m', e', h', ?_, hkept, ?_⟩
  · rw [← hf, number_one, ← normalize_positive (by omega) e .positive]
    unfold UnpackedFloat.add
    dsimp only
    rw [halign, halign', min_eq_left (by omega : e ≤ -23)]
    rfl
  · unfold Octaves at hoct ⊢
    omega

theorem sub_one_octaves (h : 0 < m) :
    ∃ m' e' h', UnpackedFloat.sub .binary32 (.finite .positive m e h) (number 1) =
        .finite .negative m' e' h' ∧
      Kept (.finite .negative m' e' h') ∧ Octaves e 0 m' e' := by
  obtain ⟨p, hp, hpow, halign, halign'⟩ := aligned_one he m
  obtain ⟨m', e', h', hf, hkept, hoct⟩ := round_octaves (m := 2 ^ p - m) (i := 0) (j := p)
    (e := e) (by omega) (by omega) (by omega) (by omega) (by omega) .negative
  refine ⟨m', e', h', ?_, hkept, ?_⟩
  · rw [← hf, number_one, ← normalize_negative (by omega) e .positive]
    unfold UnpackedFloat.sub
    dsimp only
    rw [halign, halign', min_eq_left (by omega : e ≤ -23)]
    refine congrArg (UnpackedFloat.normalize .binary32 · e .positive) ?_
    change (m : Int) - (2 ^ p : Nat) = -((2 ^ p - m : Nat) : Int)
    omega
  · unfold Octaves at hoct ⊢
    omega

end

/-- A proper fraction lies above zero and up to one; one more is from one up to two, one less from
minus one up to zero. -/
theorem proper_quotient {n d : Nat} (hn : 0 < n) (hle : n ≤ d) (hd : d < 2 ^ 32) :
    let k : Float32 := Scalar.ofNat n / Scalar.ofNat d
    (0 < k ∧ k ≤ 1) ∧ (1 ≤ k + 1 ∧ k + 1 ≤ 2) ∧ (-1 ≤ k - 1 ∧ k - 1 ≤ 0) := by
  dsimp only
  rcases number_quotient hn hle hd with hone | ⟨m, e, h, hk, hm, he⟩
  · rw [hone]
    decide
  · generalize (Scalar.ofNat n / Scalar.ofNat d : Float32) = k at hk ⊢
    obtain ⟨m₁, e₁, h₁, hadd, hkept₁, hoct₁⟩ := add_one_octaves hm he h
    obtain ⟨m₂, e₂, h₂, hsub, hkept₂, hoct₂⟩ := sub_one_octaves hm he h
    have hmore : number (k + 1) = .finite .positive m₁ e₁ h₁ := by
      change number (word (UnpackedFloat.add .binary32 (number k) (number 1))) = _
      rw [hk, hadd, number_word hkept₁]
    have hless : number (k - 1) = .finite .negative m₂ e₂ h₂ := by
      change number (word (UnpackedFloat.sub .binary32 (number k) (number 1))) = _
      rw [hk, hsub, number_word hkept₂]
    refine ⟨⟨pos_of_positive hk, ?_⟩, ⟨?_, ?_⟩, ?_, le_zero_of_negative hless⟩
    · exact le_of_positive hk number_one (Or.inl (by omega))
    · exact le_of_positive number_one hmore (hoct₁.above hkept₁ (by omega))
    · exact le_of_positive hmore number_two hoct₁.below
    · exact le_of_negative number_neg_one hless hoct₂.below

end NetworkAnalyzer.SinglePrecision
