import Mathlib
import NetworkAnalyzer.Scalar

/-!
# Single precision, word by word

What corrections need to know of the arithmetic they run in. A float is a word of 32
bits; `number` is what the word holds and `word` packs a number again. An operation unpacks its
operands, computes exactly, rounds, and packs.

**Numbers.** A word holds a signed zero, an infinity, no number, or a mantissa and an exponent.
`Kept` are those that fit: a mantissa of exactly 24 bits with an exponent from -149 to 104, or a
shorter one with the exponent -149.

**Rounding.** A mantissa is shifted to its target exponent, with two residual bits for what was
shifted out, and rounded to nearest. Everything about rounding here comes from
`roundWithAccuracy_eq`, which says what is left of a number whose bits reach down to the target
exponent. Two consequences are used: a number the format can hold is rounded to itself, and a
rounded number far below the largest exponent is finite.

**Results.**
* `word_number`, `number_word`: words and the numbers of the format correspond.
* `ofBits_toBits`: a float is determined by its bits. All words that hold no number are one.
* `mul_one`, `div_one`, `sub_zero`: exact for every float.
* `add_isZero`, `sub_isZero`: a zero of either sign keeps the value (`SameValue`).
* `quotient_steps_finite`: a quotient of two whole numbers of 32 bits is a number, and so is
  the number one above or below it. A lookup between points multiplies by such a number.
-/

namespace NetworkAnalyzer.SinglePrecision

open Float.Model (Format UnpackedFloat totalExponent)
open Float.Model.UnpackedFloat

/-! ## Words and the numbers they hold -/

/-- The numbers a word can hold. -/
inductive Kept : UnpackedFloat → Prop
  | notANumber : Kept .notANumber
  | infinity (s : Sign) : Kept (.infinity s)
  | zero (s : Sign) : Kept (.zero s)
  | subnormal {s : Sign} {m : Nat} {h : 0 < m} (hm : m < 2 ^ 23) : Kept (.finite s m (-149) h)
  | normal {s : Sign} {m : Nat} {e : Int} {h : 0 < m} (hlo : 2 ^ 23 ≤ m) (hhi : m < 2 ^ 24)
      (helo : -149 ≤ e) (hehi : e ≤ 104) : Kept (.finite s m e h)

theorem log2_of_normal {m : Nat} (hlo : 2 ^ 23 ≤ m) (hhi : m < 2 ^ 24) : m.log2 = 23 :=
  (Nat.log2_eq_iff (by omega)).mpr ⟨hlo, hhi⟩

theorem packComponents_unpack (b : BitVec Format.binary32.numBits) :
    packComponents .binary32 (Sign.ofBitVec (unpackSign b)) (unpackExponent b)
      (unpackMantissa b) = b := by
  have hsign : ∀ s : BitVec 1, (Sign.ofBitVec s).toBitVec = s := by decide
  unfold packComponents
  rw [hsign]
  simp only [unpackSign, unpackExponent, unpackMantissa, BitVec.extractLsb]
  ext i hi
  grind

theorem unpackSign_packComponents (s : Sign) (e : BitVec 8) (m : BitVec 23) :
    Sign.ofBitVec (unpackSign (packComponents .binary32 s e m)) = s := by
  simp only [unpackSign, packComponents, BitVec.extractLsb]
  rw [BitVec.extractLsb'_append_eq_of_le (by omega),
    BitVec.extractLsb'_append_eq_of_le (by omega)]
  cases s <;> rfl

theorem toNat_implicit (m : BitVec 23) : (1#1 ++ m).toNat = 2 ^ 23 + m.toNat := by
  rw [BitVec.toNat_append, ← Nat.shiftLeft_add_eq_or_of_lt m.isLt]
  rfl

theorem pack_normal {s : Sign} {m : Nat} {e : Int} {h : 0 < m} (hlo : 2 ^ 23 ≤ m)
    (hhi : m < 2 ^ 24) (helo : -149 ≤ e) (hehi : e ≤ 104) :
    UnpackedFloat.pack .binary32 (.finite s m e h) =
      packComponents .binary32 s (BitVec.ofNat 8 (e + 150).toNat) (BitVec.ofNat 23 m) := by
  have hb : e + (Format.binary32.exponentBias : Int) + (23 : Nat) = e + 150 := by
    rw [show Format.binary32.exponentBias = 127 from rfl]
    omega
  unfold UnpackedFloat.pack
  dsimp only
  rw [hb, log2_of_normal hlo hhi, if_neg (by omega), if_pos (by decide)]

theorem pack_subnormal {s : Sign} {m : Nat} {h : 0 < m} (hm : m < 2 ^ 23) :
    UnpackedFloat.pack .binary32 (.finite s m (-149) h) =
      packComponents .binary32 s 0 (BitVec.ofNat 23 m) := by
  have hlog : m.log2 < 23 := (Nat.log2_lt (by omega)).mpr hm
  unfold UnpackedFloat.pack
  dsimp only
  rw [if_neg (by decide), if_neg]
  · rfl
  · rw [show Format.binary32.mantissaBits = 24 from rfl]
    omega

/-- A word holds a number of the format, and packing that number gives the word back. -/
theorem unpack_kept {b : BitVec Format.binary32.numBits} (hb : Format.binary32.Valid b) :
    Kept (UnpackedFloat.unpack .binary32 b) ∧
      UnpackedFloat.pack .binary32 (UnpackedFloat.unpack .binary32 b) = b := by
  have hparts := packComponents_unpack b
  have hmant : (unpackMantissa b).toNat < 2 ^ 23 := (unpackMantissa b).isLt
  have hexp : (unpackExponent b).toNat < 2 ^ 8 := (unpackExponent b).isLt
  unfold UnpackedFloat.unpack
  dsimp only
  split
  · rename_i he
    split
    · rename_i hm
      rw [he, hm] at hparts
      exact ⟨.infinity _, hparts⟩
    · rename_i hm
      exact ⟨.notANumber, (hb.eq_packedNaN he hm).symm⟩
  · rename_i hne
    split
    · rename_i he
      split
      · rename_i hm
        rw [he, hm] at hparts
        exact ⟨.zero _, hparts⟩
      · rename_i hm
        rw [he] at hparts ⊢
        refine ⟨.subnormal hmant, (pack_subnormal hmant).trans ?_⟩
        rw [BitVec.ofNat_toNat, BitVec.setWidth_eq]
        exact hparts
    · rename_i hnz
      have hpos : (unpackExponent b).toNat ≠ 0 := fun h => hnz (BitVec.toNat_inj.mp h)
      have hmax : (unpackExponent b).toNat ≠ 2 ^ 8 - 1 := fun h => hne (BitVec.toNat_inj.mp h)
      have hbias : ((unpackExponent b).toNat : Int) -
          ((Format.binary32.exponentBias : Int) + (23 : Nat)) = (unpackExponent b).toNat - 150 := by
        rw [show Format.binary32.exponentBias = 127 from rfl]
        omega
      have himp := toNat_implicit (unpackMantissa b)
      have hlo : 2 ^ 23 ≤ (1#1 ++ unpackMantissa b).toNat := by omega
      have hhi : (1#1 ++ unpackMantissa b).toNat < 2 ^ 24 := by omega
      simp only [hbias]
      refine ⟨.normal hlo hhi (by omega) (by omega),
        (pack_normal hlo hhi (by omega) (by omega)).trans ?_⟩
      have hexponent : BitVec.ofNat 8 (((unpackExponent b).toNat : Int) - 150 + 150).toNat =
          unpackExponent b := by
        rw [Int.sub_add_cancel, Int.toNat_natCast, BitVec.ofNat_toNat, BitVec.setWidth_eq]
      have hmantissa : BitVec.ofNat 23 (1#1 ++ unpackMantissa b).toNat = unpackMantissa b := by
        rw [← BitVec.toNat_inj, BitVec.toNat_ofNat, himp]
        omega
      rw [hexponent, hmantissa]
      exact hparts

theorem unpack_pack {f : UnpackedFloat} (hf : Kept f) :
    UnpackedFloat.unpack .binary32 (UnpackedFloat.pack .binary32 f) = f := by
  cases hf with
  | notANumber => rfl
  | infinity s => cases s <;> rfl
  | zero s => cases s <;> rfl
  | @subnormal s m h hm =>
    have hne : BitVec.ofNat 23 m ≠ 0#23 := by
      intro he
      have := congrArg BitVec.toNat he
      rw [BitVec.toNat_ofNat, Nat.mod_eq_of_lt hm] at this
      exact absurd this h.ne'
    rw [pack_subnormal hm]
    unfold UnpackedFloat.unpack
    simp only [unpackMantissa_packComponents, unpackExponent_packComponents,
      unpackSign_packComponents]
    rw [if_neg (by decide), if_pos (by decide), dif_neg hne]
    simp only [BitVec.toNat_ofNat, Nat.mod_eq_of_lt hm]
    rfl
  | @normal s m e h hlo hhi helo hehi =>
    have hexp : (BitVec.ofNat 8 (e + 150).toNat).toNat = (e + 150).toNat := by
      rw [BitVec.toNat_ofNat, Nat.mod_eq_of_lt (by omega)]
    have hmax : BitVec.ofNat 8 (e + 150).toNat ≠ -1#8 := by
      intro he
      have := congrArg BitVec.toNat he
      rw [hexp, show (-1#8).toNat = 255 from rfl] at this
      omega
    have hpos : BitVec.ofNat 8 (e + 150).toNat ≠ 0#8 := by
      intro he
      have := congrArg BitVec.toNat he
      rw [hexp, show (0#8).toNat = 0 from rfl] at this
      omega
    have hmantissa : (1#1 ++ BitVec.ofNat 23 m).toNat = m := by
      rw [toNat_implicit, BitVec.toNat_ofNat]
      omega
    rw [pack_normal hlo hhi helo hehi]
    unfold UnpackedFloat.unpack
    simp only [unpackMantissa_packComponents, unpackExponent_packComponents,
      unpackSign_packComponents]
    rw [if_neg hmax, if_neg hpos]
    simp only [hmantissa, hexp]
    congr 1
    rw [show Format.binary32.exponentBias = 127 from rfl]
    omega

/-! ## Numbers -/

def number (x : Float32) : UnpackedFloat := x.toModel.unpack

def word (f : UnpackedFloat) : Float32 := .ofModel (.pack f)

theorem number_kept (x : Float32) : Kept (number x) := (unpack_kept x.toModel.valid).1

theorem number_word {f : UnpackedFloat} (hf : Kept f) : number (word f) = f := unpack_pack hf

theorem word_number (x : Float32) : word (number x) = x := by
  obtain ⟨bits, hvalid⟩ := x
  have h : UnpackedFloat.pack .binary32 (UnpackedFloat.unpack .binary32 bits.toBitVec) =
      bits.toBitVec := (unpack_kept hvalid).2
  unfold word number Float32.Model.pack Float32.Model.unpack
  simp only [h]

theorem ofBits_toBits (x : Float32) : Float32.ofBits x.toBits = x := word_number x

/-! ## Rounding -/

theorem shiftRight_mantissa (em : ExtendedMantissa) (k : Nat) :
    (em >>> k).mantissa = em.mantissa / 2 ^ k := by
  change (k.repeat ExtendedMantissa.shiftRightOne em).mantissa = _
  induction k with
  | zero => simp [Nat.repeat]
  | succ k ih =>
    rw [Nat.repeat, ExtendedMantissa.shiftRightOne]
    dsimp only
    rw [ih, Nat.div_div_eq_div_mul, Nat.pow_succ]

theorem shiftRight_exact (m k : Nat) :
    (⟨m * 2 ^ k, false, false⟩ : ExtendedMantissa) >>> k = ⟨m, false, false⟩ := by
  change k.repeat ExtendedMantissa.shiftRightOne _ = _
  induction k generalizing m with
  | zero => simp [Nat.repeat]
  | succ k ih =>
    rw [Nat.repeat, show m * 2 ^ (k + 1) = m * 2 * 2 ^ k by ring, ih]
    simp [ExtendedMantissa.shiftRightOne]

theorem roundedMantissa_bounds (em : ExtendedMantissa) :
    em.mantissa ≤ em.roundedMantissa ∧ em.roundedMantissa ≤ em.mantissa + 1 := by
  obtain ⟨m, r, s⟩ := em
  cases r <;> cases s <;> simp only [ExtendedMantissa.roundedMantissa, ExtendedMantissa.accuracy,
    Accuracy.roundToNearestEven] <;> omega

/-- The exponent a number is kept with. -/
theorem targetExponent_eq (m : Nat) (e : Int) :
    Format.binary32.targetExponent (totalExponent m e) = max (m.log2 + e - 23) (-149) := by
  unfold Format.targetExponent totalExponent
  rw [show Format.binary32.mantissaBits = 24 from rfl,
    show Format.binary32.minExponent = -149 from rfl]
  omega

/-- A rounded mantissa of at most 24 bits, or the power of two above them. -/
theorem shift_carry {r : Nat} {t : Int} (hr : r ≤ 2 ^ 24) (ht : -149 ≤ t) :
    (shiftToTargetExponent .binary32 r t .exact).1.mantissa = (if r = 2 ^ 24 then 2 ^ 23 else r) ∧
      (shiftToTargetExponent .binary32 r t .exact).2 = (if r = 2 ^ 24 then t + 1 else t) := by
  unfold shiftToTargetExponent
  dsimp only
  rw [targetExponent_eq]
  unfold shiftToExponent
  dsimp only
  rw [shiftRight_mantissa]
  split
  · rename_i hcarry
    subst hcarry
    rw [show (2 ^ 24 : Nat).log2 = 24 from Nat.log2_two_pow,
      show (max ((24 : Nat) + t - 23) (-149) - t).toNat = 1 by omega]
    exact ⟨rfl, rfl⟩
  · rename_i hkeep
    have hlog : r.log2 ≤ 23 := by
      by_cases hz : r = 0
      · subst hz; decide
      · exact Nat.le_of_lt_succ ((Nat.log2_lt hz).mpr (by omega))
    rw [show (max ((r.log2 : Int) + t - 23) (-149) - t).toNat = 0 by omega]
    exact ⟨by simp [ExtendedMantissa.ofMantissaAndAccuracy], by omega⟩

/-- Shifted to its target exponent, a mantissa has at most 24 bits, and exactly 24 unless the
exponent is the least one. -/
theorem shifted_bounds {m : Nat} {e t : Int} (hm : 0 < m)
    (ht : max ((m.log2 : Int) + e - 23) (-149) = t) (he : e ≤ t) :
    m / 2 ^ (t - e).toNat < 2 ^ 24 ∧ (t ≠ -149 → 2 ^ 23 ≤ m / 2 ^ (t - e).toNat) := by
  have hlog := Nat.log2_self_le hm.ne'
  have hlog' : m < 2 ^ (m.log2 + 1) := Nat.lt_log2_self
  constructor
  · rw [Nat.div_lt_iff_lt_mul (Nat.two_pow_pos _), ← Nat.pow_add]
    exact Nat.lt_of_lt_of_le hlog' (Nat.pow_le_pow_right (by omega) (by omega))
  · intro hne
    rw [Nat.le_div_iff_mul_le (Nat.two_pow_pos _), ← Nat.pow_add]
    exact Nat.le_trans (Nat.pow_le_pow_right (by omega) (by omega)) hlog

/-- What rounding makes of a number whose bits reach down to the target exponent: the shifted
mantissa rounded to a whole number, carried into the exponent if it became a power of two. -/
theorem roundWithAccuracy_eq {m : Nat} {e t : Int} (hm : 0 < m)
    (ht : max ((m.log2 : Int) + e - 23) (-149) = t) (he : e ≤ t) (s : Sign) (a : Accuracy) :
    ∃ r m' e', r = ((ExtendedMantissa.ofMantissaAndAccuracy m a) >>> (t - e).toNat).roundedMantissa ∧
      r ≤ 2 ^ 24 ∧ (t ≠ -149 → 2 ^ 23 ≤ r) ∧ m' = (if r = 2 ^ 24 then 2 ^ 23 else r) ∧
      e' = (if r = 2 ^ 24 then t + 1 else t) ∧
      roundWithAccuracy .binary32 s m e a =
        if h : m' = 0 then .zero s else .finite s m' e' (Nat.pos_of_ne_zero h) := by
  obtain ⟨em, hem⟩ : ∃ em, em = (ExtendedMantissa.ofMantissaAndAccuracy m a) >>> (t - e).toNat :=
    ⟨_, rfl⟩
  have hshift : shiftToTargetExponent .binary32 m e a = (em, t) := by
    unfold shiftToTargetExponent shiftToExponent
    dsimp only
    rw [targetExponent_eq, ht, hem]
    exact congrArg _ (by omega)
  have hq : em.mantissa = m / 2 ^ (t - e).toNat := by
    rw [hem, shiftRight_mantissa]
    congr 1
    cases a with
    | exact => rfl
    | inexact o => cases o <;> rfl
  obtain ⟨hhi, hlo⟩ := shifted_bounds hm ht he
  rw [← hq] at hhi hlo
  obtain ⟨hr, hr'⟩ := roundedMantissa_bounds em
  obtain ⟨hmant, hexp⟩ := shift_carry (r := em.roundedMantissa) (t := t) (by omega) (by omega)
  refine ⟨em.roundedMantissa, _, _, by rw [hem], by omega,
    fun hne => Nat.le_trans (hlo hne) hr, hmant, hexp, ?_⟩
  unfold roundWithAccuracy
  rw [hshift]

/-- A number whose bits reach down to the target exponent is rounded there, or to the power of
two above. -/
theorem roundWithAccuracy_cases {m : Nat} {e t : Int} (hm : 0 < m)
    (ht : max ((m.log2 : Int) + e - 23) (-149) = t) (he : e ≤ t) (hmax : t ≤ 103) (s : Sign)
    (a : Accuracy) :
    (t = -149 ∧ roundWithAccuracy .binary32 s m e a = .zero s) ∨
      ∃ m' e' h, roundWithAccuracy .binary32 s m e a = .finite s m' e' h ∧
        Kept (.finite s m' e' h) ∧ t ≤ e' ∧ e' ≤ t + 1 ∧ (e' = t + 1 → m' = 2 ^ 23) := by
  obtain ⟨r, m', e', -, hr, hlo, hmant, hexp, hround⟩ := roundWithAccuracy_eq hm ht he s a
  rw [hround]
  split
  · rename_i hzero
    refine Or.inl ⟨?_, rfl⟩
    by_contra hne
    have := hlo hne
    split at hmant <;> omega
  · rename_i hpos
    refine Or.inr ⟨m', e', Nat.pos_of_ne_zero hpos, rfl, ?_, ?_⟩
    · by_cases hsub : m' < 2 ^ 23
      · obtain rfl : e' = -149 := by
          by_cases hne : t = -149
          · split at hexp
            · split at hmant <;> omega
            · omega
          · have := hlo hne
            split at hmant <;> omega
        exact .subnormal hsub
      · exact .normal (by omega) (by split at hmant <;> omega) (by split at hexp <;> omega)
          (by split at hexp <;> omega)
    · split at hexp
      · rw [if_pos ‹_›] at hmant
        omega
      · omega

theorem log2_mul_two_pow {m : Nat} (hm : m ≠ 0) (k : Nat) : (m * 2 ^ k).log2 = m.log2 + k := by
  refine (Nat.log2_eq_iff (Nat.mul_ne_zero hm (Nat.two_pow_pos k).ne')).mpr ⟨?_, ?_⟩
  · rw [Nat.pow_add]
    exact Nat.mul_le_mul_right _ (Nat.log2_self_le hm)
  · rw [show m.log2 + k + 1 = m.log2 + 1 + k by omega, Nat.pow_add]
    exact Nat.mul_lt_mul_of_pos_right Nat.lt_log2_self (Nat.two_pow_pos k)

/-- A number that the format can hold is rounded to itself, however far its bits are shifted. -/
theorem roundWithAccuracy_exact {s : Sign} {m : Nat} {e : Int} {h : 0 < m}
    (hf : Kept (.finite s m e h)) (k : Nat) :
    roundWithAccuracy .binary32 s (m * 2 ^ k) (e - k) .exact = .finite s m e h := by
  have hlog := log2_mul_two_pow h.ne' k
  have ht : max ((m.log2 : Int) + e - 23) (-149) = e ∧ m < 2 ^ 24 ∧ -149 ≤ e := by
    cases hf with
    | subnormal hm =>
      have : m.log2 < 23 := (Nat.log2_lt h.ne').mpr hm
      omega
    | normal hlo hhi helo hehi =>
      rw [log2_of_normal hlo hhi]
      omega
  obtain ⟨ht, hm, he⟩ := ht
  have hshift : shiftToTargetExponent .binary32 (m * 2 ^ k) (e - k) .exact =
      (⟨m, false, false⟩, e) := by
    unfold shiftToTargetExponent shiftToExponent
    dsimp only
    rw [targetExponent_eq, hlog,
      show max (((m.log2 + k : Nat) : Int) + (e - k) - 23) (-149) = e by omega,
      show (e - (e - k)).toNat = k by omega]
    exact Prod.ext (shiftRight_exact m k) (by dsimp only; omega)
  have hround : (⟨m, false, false⟩ : ExtendedMantissa).roundedMantissa = m := rfl
  obtain ⟨hmant, hexp⟩ := shift_carry (r := m) (t := e) (by omega) he
  rw [if_neg (by omega)] at hmant hexp
  unfold roundWithAccuracy
  rw [hshift]
  dsimp only
  rw [hround]
  generalize shiftToTargetExponent .binary32 m e .exact = p at hmant hexp ⊢
  obtain ⟨⟨m', b, b'⟩, e'⟩ := p
  dsimp only at hmant hexp ⊢
  subst hmant hexp
  rw [dif_neg h.ne']

/-- Rounding keeps a number below the largest exponent finite. -/
theorem round_cases {m : Nat} {e t : Int} (hm : 0 < m)
    (ht : max ((m.log2 : Int) + e - 23) (-149) = t) (hmax : t ≤ 103) (s : Sign) :
    (t = -149 ∧ UnpackedFloat.round .binary32 s m e = .zero s) ∨
      ∃ m' e' h, UnpackedFloat.round .binary32 s m e = .finite s m' e' h ∧
        Kept (.finite s m' e' h) ∧ t ≤ e' ∧ e' ≤ t + 1 ∧ (e' = t + 1 → m' = 2 ^ 23) := by
  have hlog := log2_mul_two_pow hm.ne' (e - t).toNat
  unfold UnpackedFloat.round decreaseExponent
  dsimp only
  rw [targetExponent_eq, ht, Nat.shiftLeft_eq]
  exact roundWithAccuracy_cases (Nat.mul_pos hm (Nat.two_pow_pos _)) (by rw [hlog]; omega)
    (by omega) hmax s .exact

theorem normalize_finite {n : Int} {e : Int} {k : Nat} (hn : n.natAbs < 2 ^ k)
    (hk : (k : Int) + e ≤ 126) (z : Sign) :
    Kept (UnpackedFloat.normalize .binary32 n e z) ∧
      (UnpackedFloat.normalize .binary32 n e z).isFinite := by
  have hround : ∀ (s : Sign) (m : Nat), 0 < m → m < 2 ^ k →
      Kept (UnpackedFloat.round .binary32 s m e) ∧
        (UnpackedFloat.round .binary32 s m e).isFinite := by
    intro s m hm hmk
    have hlog : m.log2 < k := (Nat.log2_lt hm.ne').mpr hmk
    rcases round_cases (e := e) hm rfl (by omega) s with ⟨-, hz⟩ | ⟨m', e', h, hz, hkept, -⟩
    · rw [hz]
      exact ⟨.zero s, rfl⟩
    · rw [hz]
      exact ⟨hkept, rfl⟩
  unfold UnpackedFloat.normalize
  split
  · rename_i hc
    rw [Int.compare_eq_lt] at hc
    exact hround _ _ (by omega) (by omega)
  · exact ⟨.zero z, rfl⟩
  · rename_i hc
    rw [Int.compare_eq_gt] at hc
    exact hround _ _ (by omega) (by omega)

/-! ## Operations with zero and one -/

theorem number_one : number 1 = .finite .positive (2 ^ 23) (-23) (by decide) := rfl

theorem number_zero : number 0 = .zero .positive := rfl

def IsZero (x : Float32) : Prop := ∃ s, number x = .zero s

theorem eq_word {x : Float32} {f : UnpackedFloat} (h : f = number x) : word f = x := by
  rw [h, word_number]

theorem mul_one (x : Float32) : x * 1 = x := by
  change word (UnpackedFloat.mul .binary32 (number x) (number 1)) = x
  refine eq_word ?_
  have hx := number_kept x
  rw [number_one]
  generalize number x = f at hx ⊢
  cases f with
  | notANumber => rfl
  | infinity s => cases s <;> rfl
  | zero s => cases s <;> rfl
  | finite s m e h =>
    have hs : s * .positive = s := by cases s <;> rfl
    unfold UnpackedFloat.mul
    dsimp only
    rw [hs]
    exact roundWithAccuracy_exact hx 23

/-- Dividing a mantissa by one restores it, whatever the shift before was. -/
theorem round_quotient_one {s : Sign} {m : Nat} {e : Int} {h : 0 < m}
    (hf : Kept (.finite s m e h)) :
    roundWithAccuracy .binary32 s (divCore .binary32 m e (2 ^ 23) (-23)).1
      (divCore .binary32 m e (2 ^ 23) (-23)).2.1 (divCore .binary32 m e (2 ^ 23) (-23)).2.2 =
      .finite s m e h := by
  obtain ⟨t, ht⟩ : ∃ t, min (e - (-23)) (Format.binary32.targetExponent
      (totalExponent m e - totalExponent (2 ^ 23) (-23))) = t := ⟨_, rfl⟩
  have hle : t ≤ e := by
    rw [show totalExponent m e - totalExponent (2 ^ 23) (-23) = totalExponent m (e - 1) by
      unfold totalExponent; rw [Nat.log2_two_pow]; omega, targetExponent_eq] at ht
    cases hf with
    | subnormal hm =>
      have : m.log2 < 23 := (Nat.log2_lt h.ne').mpr hm
      omega
    | normal hlo hhi helo hehi =>
      rw [log2_of_normal hlo hhi] at ht
      omega
  have hshift : m <<< (e - (-23) - t).toNat = m * 2 ^ (e - t).toNat * 2 ^ 23 := by
    rw [Nat.shiftLeft_eq, Nat.mul_assoc, ← Nat.pow_add]
    congr 2
    omega
  unfold divCore
  dsimp only
  rw [ht, hshift, Nat.mul_div_cancel _ (by decide), Nat.mul_mod_left]
  have hround := roundWithAccuracy_exact hf (e - t).toNat
  rw [show e - ((e - t).toNat : Int) = t by omega] at hround
  exact hround

theorem div_one (x : Float32) : x / 1 = x := by
  change word (UnpackedFloat.div .binary32 (number x) (number 1)) = x
  refine eq_word ?_
  have hx := number_kept x
  rw [number_one]
  generalize number x = f at hx ⊢
  cases f with
  | notANumber => rfl
  | infinity s => cases s <;> rfl
  | zero s => cases s <;> rfl
  | finite s m e h =>
    have hs : s / .positive = s := by cases s <;> rfl
    unfold UnpackedFloat.div
    dsimp only
    rw [hs]
    exact round_quotient_one hx

theorem sub_zero (x : Float32) : x - 0 = x := by
  change word (UnpackedFloat.sub .binary32 (number x) (number 0)) = x
  refine eq_word ?_
  rw [number_zero]
  cases number x with
  | notANumber => rfl
  | infinity s => rfl
  | zero s => cases s <;> rfl
  | finite s m e h => rfl

theorem isFinite_iff (x : Float32) : x.isFinite = (number x).isFinite := rfl

theorem number_of_isFinite {x : Float32} (hx : x.isFinite) :
    (∃ s, number x = .zero s) ∨ ∃ s m e h, number x = .finite s m e h := by
  rw [isFinite_iff] at hx
  cases h : number x with
  | notANumber => rw [h] at hx; cases hx
  | infinity s => rw [h] at hx; cases hx
  | zero s => exact Or.inl ⟨s, rfl⟩
  | finite s m e hm => exact Or.inr ⟨s, m, e, hm, rfl⟩

theorem isZero_mul_zero {x : Float32} (hx : x.isFinite) : IsZero (x * 0) := by
  change IsZero (word (UnpackedFloat.mul .binary32 (number x) (number 0)))
  rw [number_zero]
  obtain ⟨s, hs⟩ | ⟨s, m, e, h, hf⟩ := number_of_isFinite hx
  · rw [hs]
    exact ⟨_, number_word (.zero _)⟩
  · rw [hf]
    exact ⟨_, number_word (.zero _)⟩

theorem isZero_zero_mul {x : Float32} (hx : x.isFinite) : IsZero (0 * x) := by
  change IsZero (word (UnpackedFloat.mul .binary32 (number 0) (number x)))
  rw [number_zero]
  obtain ⟨s, hs⟩ | ⟨s, m, e, h, hf⟩ := number_of_isFinite hx
  · rw [hs]
    exact ⟨_, number_word (.zero _)⟩
  · rw [hf]
    exact ⟨_, number_word (.zero _)⟩

theorem IsZero.add {x y : Float32} (hx : IsZero x) (hy : IsZero y) : IsZero (x + y) := by
  obtain ⟨s, hx⟩ := hx
  obtain ⟨t, hy⟩ := hy
  change IsZero (word (UnpackedFloat.add .binary32 (number x) (number y)))
  rw [hx, hy]
  cases s <;> cases t <;> exact ⟨_, number_word (.zero _)⟩

theorem IsZero.sub {x y : Float32} (hx : IsZero x) (hy : IsZero y) : IsZero (x - y) := by
  obtain ⟨s, hx⟩ := hx
  obtain ⟨t, hy⟩ := hy
  change IsZero (word (UnpackedFloat.sub .binary32 (number x) (number y)))
  rw [hx, hy]
  cases s <;> cases t <;> exact ⟨_, number_word (.zero _)⟩

theorem zero_add {z : Float32} (hz : IsZero z) : 0 + z = 0 := by
  obtain ⟨s, hz⟩ := hz
  change word (UnpackedFloat.add .binary32 (number 0) (number z)) = 0
  rw [hz]
  cases s <;> rfl

theorem zero_sub {z : Float32} (hz : IsZero z) : 0 - z = 0 := by
  obtain ⟨s, hz⟩ := hz
  change word (UnpackedFloat.sub .binary32 (number 0) (number z)) = 0
  rw [hz]
  cases s <;> rfl

theorem one_add {z : Float32} (hz : IsZero z) : 1 + z = 1 := by
  obtain ⟨s, hz⟩ := hz
  change word (UnpackedFloat.add .binary32 (number 1) (number z)) = 1
  rw [hz]
  cases s <;> rfl

theorem one_sub {z : Float32} (hz : IsZero z) : 1 - z = 1 := by
  obtain ⟨s, hz⟩ := hz
  change word (UnpackedFloat.sub .binary32 (number 1) (number z)) = 1
  rw [hz]
  cases s <;> rfl

/-! ## Equal values -/

/-- The same number, zeros of either sign being one. -/
def SameValue (x y : Float32) : Prop := x = y ∨ IsZero x ∧ IsZero y

theorem SameValue.trans {x y z : Float32} (h : SameValue x y) (h' : SameValue y z) :
    SameValue x z := by
  rcases h with rfl | ⟨hx, hy⟩
  · exact h'
  · rcases h' with rfl | ⟨-, hz⟩
    · exact Or.inr ⟨hx, hy⟩
    · exact Or.inr ⟨hx, hz⟩

theorem SameValue.isFinite {x y : Float32} (h : SameValue x y) (hy : y.isFinite) : x.isFinite := by
  rcases h with rfl | ⟨⟨s, hx⟩, -⟩
  · exact hy
  · rw [isFinite_iff, hx]
    rfl

theorem SameValue.beq {x y : Float32} (h : SameValue x y) (hy : y.isFinite) : (x == y) = true := by
  change (number x).beq (number y) = true
  rcases h with rfl | ⟨⟨s, hx⟩, t, hy'⟩
  · obtain ⟨s, hs⟩ | ⟨s, m, e, h, hf⟩ := number_of_isFinite hy
    · rw [hs]
      rfl
    · rw [hf]
      cases s <;> simp [UnpackedFloat.beq, UnpackedFloat.compare]
  · rw [hx, hy']
    rfl

/-- Adding or subtracting a zero keeps the value. -/
theorem add_isZero (x : Float32) {z : Float32} (hz : IsZero z) : SameValue (x + z) x := by
  by_cases h : IsZero x
  · exact Or.inr ⟨h.add hz, h⟩
  · left
    change word (UnpackedFloat.add .binary32 (number x) (number z)) = x
    refine eq_word ?_
    obtain ⟨s, hz⟩ := hz
    rw [hz]
    cases hf : number x with
    | zero s => exact absurd ⟨s, hf⟩ h
    | _ => rfl

theorem isZero_add {z : Float32} (hz : IsZero z) (x : Float32) : SameValue (z + x) x := by
  by_cases h : IsZero x
  · exact Or.inr ⟨hz.add h, h⟩
  · left
    change word (UnpackedFloat.add .binary32 (number z) (number x)) = x
    refine eq_word ?_
    obtain ⟨s, hz⟩ := hz
    rw [hz]
    cases hf : number x with
    | zero s => exact absurd ⟨s, hf⟩ h
    | _ => rfl

theorem sub_isZero (x : Float32) {z : Float32} (hz : IsZero z) : SameValue (x - z) x := by
  by_cases h : IsZero x
  · exact Or.inr ⟨h.sub hz, h⟩
  · left
    change word (UnpackedFloat.sub .binary32 (number x) (number z)) = x
    refine eq_word ?_
    obtain ⟨s, hz⟩ := hz
    rw [hz]
    cases hf : number x with
    | zero s => exact absurd ⟨s, hf⟩ h
    | _ => rfl

/-! ## Numbers that stay finite -/

theorem normalize_positive {n : Nat} (hn : 0 < n) (e : Int) (z : Sign) :
    UnpackedFloat.normalize .binary32 n e z = UnpackedFloat.round .binary32 .positive n e := by
  unfold UnpackedFloat.normalize
  rw [show compare (n : Int) 0 = .gt from Int.compare_eq_gt.mpr (by omega)]
  rfl

theorem normalize_negative {n : Nat} (hn : 0 < n) (e : Int) (z : Sign) :
    UnpackedFloat.normalize .binary32 (-(n : Int)) e z =
      UnpackedFloat.round .binary32 .negative n e := by
  unfold UnpackedFloat.normalize
  rw [show compare (-(n : Int)) 0 = .lt from Int.compare_eq_lt.mpr (by omega)]
  dsimp only
  rw [Int.neg_neg, Int.toNat_natCast]

theorem ofNat_eq_round {n : Nat} (hn : 0 < n) :
    UnpackedFloat.ofNat .binary32 n = UnpackedFloat.round .binary32 .positive n 0 :=
  normalize_positive hn 0 .positive

theorem ofNat_normal {n : Nat} (hn : 0 < n) (hlt : n < 2 ^ 32) :
    ∃ m e h, UnpackedFloat.ofNat .binary32 n = .finite .positive m e h ∧
      2 ^ 23 ≤ m ∧ m < 2 ^ 24 ∧ -23 ≤ e ∧ e ≤ 9 := by
  have hlog : n.log2 < 32 := (Nat.log2_lt hn.ne').mpr hlt
  rw [ofNat_eq_round hn]
  rcases round_cases (e := 0) hn rfl (by omega) .positive with
    ⟨ht, -⟩ | ⟨m, e, h, hf, hkept, hlo, hhi⟩
  · omega
  · refine ⟨m, e, h, hf, ?_⟩
    cases hkept with
    | subnormal => omega
    | normal hm hm' => exact ⟨hm, hm', by omega, by omega⟩

/-- The quotient of two numbers in normal form, with 24 bits more than its mantissa has. -/
theorem div_normal {m₁ m₂ : Nat} {e₁ e₂ : Int} (h₁ : 0 < m₁) (h₂ : 0 < m₂)
    (hm₁ : 2 ^ 23 ≤ m₁ ∧ m₁ < 2 ^ 24) (hm₂ : 2 ^ 23 ≤ m₂ ∧ m₂ < 2 ^ 24)
    (he₁ : -23 ≤ e₁ ∧ e₁ ≤ 9) (he₂ : -23 ≤ e₂ ∧ e₂ ≤ 9) (s₁ s₂ : Sign) :
    UnpackedFloat.div .binary32 (.finite s₁ m₁ e₁ h₁) (.finite s₂ m₂ e₂ h₂) =
      roundWithAccuracy .binary32 (s₁ / s₂) (m₁ * 2 ^ 24 / m₂) (e₁ - e₂ - 24)
        (accuracyOfFraction (m₁ * 2 ^ 24 % m₂) m₂) := by
  have hlog₁ := log2_of_normal hm₁.1 hm₁.2
  have hlog₂ := log2_of_normal hm₂.1 hm₂.2
  have htarget : min (e₁ - e₂) (Format.binary32.targetExponent
      (totalExponent m₁ e₁ - totalExponent m₂ e₂)) = e₁ - e₂ - 24 := by
    rw [show totalExponent m₁ e₁ - totalExponent m₂ e₂ = totalExponent m₁ (e₁ - e₂ - 24) by
      unfold totalExponent; omega, targetExponent_eq]
    omega
  unfold UnpackedFloat.div divCore
  dsimp only
  rw [htarget, show (e₁ - e₂ - (e₁ - e₂ - 24)).toNat = 24 by omega, Nat.shiftLeft_eq]

/-- The quotient of two mantissas has at least 24 bits. -/
theorem le_quotient {m₁ m₂ : Nat} (h₂ : 0 < m₂) (hm₁ : 2 ^ 23 ≤ m₁) (hm₂ : m₂ < 2 ^ 24) :
    2 ^ 23 ≤ m₁ * 2 ^ 24 / m₂ := by
  rw [Nat.le_div_iff_mul_le h₂]
  nlinarith

theorem quotient_finite {m₁ m₂ : Nat} {e₁ e₂ : Int} (h₁ : 0 < m₁) (h₂ : 0 < m₂)
    (hm₁ : 2 ^ 23 ≤ m₁ ∧ m₁ < 2 ^ 24) (hm₂ : 2 ^ 23 ≤ m₂ ∧ m₂ < 2 ^ 24)
    (he₁ : -23 ≤ e₁ ∧ e₁ ≤ 9) (he₂ : -23 ≤ e₂ ∧ e₂ ≤ 9) (s₁ s₂ : Sign) :
    ∃ s m e h, UnpackedFloat.div .binary32 (.finite s₁ m₁ e₁ h₁) (.finite s₂ m₂ e₂ h₂) =
      .finite s m e h ∧ Kept (.finite s m e h) ∧ e ≤ 12 := by
  have hq := le_quotient h₂ hm₁.1 hm₂.2
  have hq' : m₁ * 2 ^ 24 / m₂ < 2 ^ 26 := by
    rw [Nat.div_lt_iff_lt_mul h₂]
    omega
  have hlog : 23 ≤ (m₁ * 2 ^ 24 / m₂).log2 ∧ (m₁ * 2 ^ 24 / m₂).log2 < 26 :=
    ⟨(Nat.le_log2 (by omega)).mpr hq, (Nat.log2_lt (by omega)).mpr hq'⟩
  rw [div_normal h₁ h₂ hm₁ hm₂ he₁ he₂]
  rcases roundWithAccuracy_cases (e := e₁ - e₂ - 24)
      (t := (m₁ * 2 ^ 24 / m₂).log2 + (e₁ - e₂ - 24) - 23)
      (by omega : 0 < m₁ * 2 ^ 24 / m₂) (by omega) (by omega) (by omega) (s₁ / s₂)
      (accuracyOfFraction (m₁ * 2 ^ 24 % m₂) m₂) with ⟨ht, -⟩ | ⟨m, e, h, hf, hkept, hlo, hhi⟩
  · omega
  · exact ⟨_, m, e, h, hf, hkept, by omega⟩

theorem Kept.lt {s : Sign} {m : Nat} {e : Int} {h : 0 < m} (hf : Kept (.finite s m e h)) :
    m < 2 ^ 24 := by
  cases hf with
  | subnormal hm => omega
  | normal _ hm => exact hm

/-- Two aligned mantissas together stay far below the largest exponent. -/
theorem align_finite {m₁ m₂ : Nat} {e₁ e₂ : Int} (hm₁ : m₁ < 2 ^ 24) (hm₂ : m₂ < 2 ^ 24)
    (he₁ : e₁ ≤ 100) (he₂ : e₂ ≤ 100) {n : Int}
    (hn : n.natAbs ≤ (decreaseExponent m₁ e₁ (min e₁ e₂)).1 +
      (decreaseExponent m₂ e₂ (min e₁ e₂)).1) :
    Kept (UnpackedFloat.normalize .binary32 n (min e₁ e₂) .positive) ∧
      (UnpackedFloat.normalize .binary32 n (min e₁ e₂) .positive).isFinite := by
  obtain ⟨k, hk⟩ : ∃ k : Nat, (k : Int) = max e₁ e₂ - min e₁ e₂ :=
    ⟨_, Int.toNat_of_nonneg (by omega)⟩
  have hbound : ∀ {m : Nat} {e : Int}, m < 2 ^ 24 → e ≤ max e₁ e₂ →
      (decreaseExponent m e (min e₁ e₂)).1 < 2 ^ (24 + k) := by
    intro m e hm he
    unfold decreaseExponent
    dsimp only
    rw [Nat.shiftLeft_eq, Nat.pow_add]
    exact Nat.mul_lt_mul_of_lt_of_le hm (Nat.pow_le_pow_right (by omega) (by omega))
      (Nat.two_pow_pos _)
  refine normalize_finite (k := 25 + k) ?_ (by omega) .positive
  have h₁ := hbound hm₁ (le_max_left _ _)
  have h₂ := hbound hm₂ (le_max_right _ _)
  have hdouble : 2 ^ (25 + k) = 2 ^ (24 + k) + 2 ^ (24 + k) := by ring
  omega

theorem natAbs_apply (s : Sign) (n : Nat) : (s.apply n).natAbs = n := by
  cases s <;> simp [Sign.apply]

theorem add_finite {s₁ s₂ : Sign} {m₁ m₂ : Nat} {e₁ e₂ : Int} {h₁ : 0 < m₁} {h₂ : 0 < m₂}
    (hf₁ : Kept (.finite s₁ m₁ e₁ h₁)) (hf₂ : Kept (.finite s₂ m₂ e₂ h₂)) (he₁ : e₁ ≤ 100)
    (he₂ : e₂ ≤ 100) :
    Kept (UnpackedFloat.add .binary32 (.finite s₁ m₁ e₁ h₁) (.finite s₂ m₂ e₂ h₂)) ∧
      (UnpackedFloat.add .binary32 (.finite s₁ m₁ e₁ h₁) (.finite s₂ m₂ e₂ h₂)).isFinite :=
  align_finite hf₁.lt hf₂.lt he₁ he₂ ((Int.natAbs_add_le _ _).trans_eq
    (congrArg₂ (· + ·) (natAbs_apply s₁ _) (natAbs_apply s₂ _)))

theorem sub_finite {s₁ s₂ : Sign} {m₁ m₂ : Nat} {e₁ e₂ : Int} {h₁ : 0 < m₁} {h₂ : 0 < m₂}
    (hf₁ : Kept (.finite s₁ m₁ e₁ h₁)) (hf₂ : Kept (.finite s₂ m₂ e₂ h₂)) (he₁ : e₁ ≤ 100)
    (he₂ : e₂ ≤ 100) :
    Kept (UnpackedFloat.sub .binary32 (.finite s₁ m₁ e₁ h₁) (.finite s₂ m₂ e₂ h₂)) ∧
      (UnpackedFloat.sub .binary32 (.finite s₁ m₁ e₁ h₁) (.finite s₂ m₂ e₂ h₂)).isFinite :=
  align_finite hf₁.lt hf₂.lt he₁ he₂ ((Int.natAbs_sub_le _ _).trans_eq
    (congrArg₂ (· + ·) (natAbs_apply s₁ _) (natAbs_apply s₂ _)))

/-- Adding or subtracting one keeps a number of moderate size finite. -/
theorem step_one_finite {f : UnpackedFloat} (hf : Kept f) (hsize : ∃ s, f = .zero s ∨
    ∃ m e h, f = .finite s m e h ∧ e ≤ 12) :
    (word f).isFinite ∧ (word f + 1).isFinite ∧ (word f - 1).isFinite := by
  obtain ⟨s, rfl | ⟨m, e, h, rfl, he⟩⟩ := hsize
  · cases s <;> exact ⟨rfl, rfl, rfl⟩
  · have hone := number_kept 1
    rw [number_one] at hone
    have hadd := add_finite hf hone (by omega) (by omega)
    have hsub := sub_finite hf hone (by omega) (by omega)
    refine ⟨?_, ?_, ?_⟩
    · rw [isFinite_iff, number_word hf]
      rfl
    · change (number (word (UnpackedFloat.add .binary32 (number (word _)) (number 1)))).isFinite
      rw [number_word hf, number_one, number_word hadd.1]
      exact hadd.2
    · change (number (word (UnpackedFloat.sub .binary32 (number (word _)) (number 1)))).isFinite
      rw [number_word hf, number_one, number_word hsub.1]
      exact hsub.2

theorem ofNat_eq (n : Nat) (hn : n < 2 ^ 32) :
    (Scalar.ofNat n : Float32) = word (UnpackedFloat.ofNat .binary32 n) := by
  change word (UnpackedFloat.ofNat .binary32 n.toUInt64.toNat) = _
  rw [Nat.toUInt64, UInt64.toNat_ofNat', Nat.mod_eq_of_lt (by omega)]

/-- A quotient of two 32-bit whole numbers, and the same moved by one, is a number. -/
theorem quotient_steps_finite {n d : Nat} (hn : n < 2 ^ 32) (hd : 0 < d) (hd' : d < 2 ^ 32) :
    let k : Float32 := Scalar.ofNat n / Scalar.ofNat d
    k.isFinite ∧ (k + 1).isFinite ∧ (k - 1).isFinite := by
  obtain ⟨m₂, e₂, h₂, hf₂, hlo₂, hhi₂, helo₂, hehi₂⟩ := ofNat_normal hd hd'
  have hnum₂ := number_word (Kept.normal (s := .positive) (h := h₂) hlo₂ hhi₂ (by omega)
    (by omega : e₂ ≤ 104))
  rw [ofNat_eq n hn, ofNat_eq d hd', hf₂]
  rcases Nat.eq_zero_or_pos n with rfl | hpos
  · have hk : word (UnpackedFloat.ofNat .binary32 0) / word (.finite .positive m₂ e₂ h₂) =
        word (.zero .positive) := by
      change word (UnpackedFloat.div .binary32 (.zero .positive) (number (word _))) = _
      rw [hnum₂]
      rfl
    rw [hk]
    exact step_one_finite (.zero _) ⟨_, Or.inl rfl⟩
  · obtain ⟨m₁, e₁, h₁, hf₁, hlo₁, hhi₁, helo₁, hehi₁⟩ := ofNat_normal hpos hn
    have hnum₁ := number_word (Kept.normal (s := .positive) (h := h₁) hlo₁ hhi₁ (by omega)
      (by omega : e₁ ≤ 104))
    obtain ⟨s, m, e, h, hdiv, hkept, he⟩ := quotient_finite h₁ h₂ ⟨hlo₁, hhi₁⟩ ⟨hlo₂, hhi₂⟩
      ⟨helo₁, hehi₁⟩ ⟨helo₂, hehi₂⟩ .positive .positive
    have hk : word (UnpackedFloat.ofNat .binary32 n) / word (.finite .positive m₂ e₂ h₂) =
        word (.finite s m e h) := by
      change word (UnpackedFloat.div .binary32 (number (word _)) (number (word _))) = _
      rw [hf₁, hnum₁, hnum₂, hdiv]
    rw [hk]
    exact step_one_finite hkept ⟨s, Or.inr ⟨m, e, h, rfl, he⟩⟩

end NetworkAnalyzer.SinglePrecision
