import Mathlib.Algebra.BigOperators.Fin
import Mathlib.RingTheory.RootsOfUnity.Complex
import NetworkAnalyzer.Proofs.ExactPhasor
import NetworkAnalyzer.Proofs.Spectrum.InPlace

/-!
# The exact transform

Without rounding, phasors are the complex numbers (`Phasor.toComplex`), and the table of roots
holds the first half turn of the 512th roots of unity (`Roots.exact`).

**One level.** `halved_eq_sum` is an induction over the levels. A level turns by powers of a root
whose square is the root of the level below, so the sum over the even samples and the turned sum
over the odd ones make up the whole sum; half a turn on, the odd part changes its sign.

**All levels.** Each level reads the one table with a stride of its own. That these strides give the
roots that the induction asks for is `toComplex_twiddle`; it needs nine levels at most, for which
the table was made.

**Both directions.** They differ in the sign of the exponent. The turns of one bin on the way back
against those of another sample on the way forward are a geometric sum of a root of unity, which is
zero, and only the sample itself is left, once for every bin.

* `transform_spectrum`: every bin is the sum over all samples, each turned by its share.
* `sum_turns`: the turns of one bin against another cancel.
* `transform_back`: forward and back multiplies every sample by the number of samples.
* `run_exact`: the transform in both directions, and what is left of forward and back.
* `run_exact_impulse`: the spectrum of an impulse is flat.
-/

namespace NetworkAnalyzer

open Finset Parameters

namespace Fourier

/-! ## Halving a sum -/

theorem sum_halves {M : Type} [AddCommMonoid M] (g : Nat → M) (m : Nat) :
    ∑ s ∈ range (2 * m), g s = ∑ s ∈ range m, g (2 * s) + ∑ s ∈ range m, g (2 * s + 1) := by
  induction m with
  | zero => simp
  | succ m ih =>
    rw [Nat.mul_succ, sum_range_succ, sum_range_succ, ih, sum_range_succ, sum_range_succ]
    abel

variable {K : Type} [Field K] [LinearOrder K] {roots : Roots K} {d : Direction}
  {levels : Nat}

/-- Half a turn further on, even samples are turned alike. -/
theorem turn_even {η : Phasor K} {m : Nat} (hhalf : η ^ m = -1) (i s : Nat) :
    η ^ ((i + m) * (2 * s)) = η ^ (i * (2 * s)) := by
  rw [Nat.add_mul, pow_add, pow_mul η m, hhalf, pow_mul (-1), neg_one_sq, one_pow, mul_one]

/-- Half a turn further on, odd samples change their sign. -/
theorem turn_odd {η : Phasor K} {m : Nat} (hhalf : η ^ m = -1) (i s : Nat) :
    η ^ ((i + m) * (2 * s + 1)) = -η ^ (i * (2 * s + 1)) := by
  rw [Nat.add_mul, pow_add, pow_mul η m, hhalf, pow_succ (-1), pow_mul (-1), neg_one_sq, one_pow,
    one_mul, mul_neg_one]

/-- One level: `η` is the root of the level, and its square is the root of the level below. -/
theorem joined_eq_sum {η : Phasor K} {m : Nat} (hhalf : η ^ m = -1) {f w : Nat → Phasor K}
    (hw : ∀ j < m, w j = η ^ j) {e o : Nat → Phasor K}
    (he : ∀ i < m, e i = ∑ s ∈ range m, f (2 * s) * (η ^ 2) ^ (i * s))
    (ho : ∀ i < m, o i = ∑ s ∈ range m, f (2 * s + 1) * (η ^ 2) ^ (i * s)) {i : Nat}
    (hi : i < 2 * m) : joined m w e o i = ∑ s ∈ range (2 * m), f s * η ^ (i * s) := by
  have heven : ∀ i < m, e i = ∑ s ∈ range m, f (2 * s) * η ^ (i * (2 * s)) := fun i hi => by
    rw [he i hi]
    refine sum_congr rfl fun s _ => ?_
    rw [← pow_mul, Nat.mul_left_comm]
  have hodd : ∀ i < m, o i * w i = ∑ s ∈ range m, f (2 * s + 1) * η ^ (i * (2 * s + 1)) :=
    fun i hi => by
      rw [ho i hi, hw i hi, sum_mul]
      refine sum_congr rfl fun s _ => ?_
      rw [mul_assoc, ← pow_mul, ← pow_add, Nat.mul_succ, Nat.mul_left_comm]
  rw [sum_halves]
  rcases Nat.lt_or_ge i m with hlow | hhigh
  · rw [joined_low hlow, heven i hlow, hodd i hlow]
  · obtain ⟨j, rfl⟩ := Nat.exists_eq_add_of_le' hhigh
    have hj : j < m := by omega
    rw [joined_high, heven j hj, hodd j hj]
    simp only [turn_even hhalf, turn_odd hhalf, mul_neg, sum_neg_distrib]
    exact sub_eq_add_neg _ _

/-- The transform by halving is the sum over all samples, each turned by its share. -/
theorem halved_eq_sum (ζ : Nat → Phasor K) (hturn : ∀ l < levels, ∀ j < samples l,
      twiddle roots d (samples (l + 1)) j = ζ (l + 1) ^ j)
    (hsquare : ∀ l, ζ (l + 1) ^ 2 = ζ l) (hhalf : ∀ l, ζ (l + 1) ^ samples l = -1) :
    ∀ {l : Nat}, l ≤ levels → ∀ {f : Nat → Phasor K} {i : Nat}, i < samples l →
      halved roots d l f i = ∑ s ∈ range (samples l), f s * ζ l ^ (i * s) := by
  intro l
  induction l with
  | zero =>
    intro _ f i hi
    obtain rfl : i = 0 := Nat.lt_one_iff.mp hi
    simp [halved, samples]
  | succ l ih =>
    intro hl f i hi
    exact joined_eq_sum (hhalf l) (hturn l hl)
      (fun i hi => by rw [hsquare]; exact ih (Nat.le_of_lt hl) hi)
      (fun i hi => by rw [hsquare]; exact ih (Nat.le_of_lt hl) hi) hi

theorem samples_eq_pow (k : Nat) : samples k = 2 ^ k := by
  induction k with
  | zero => rfl
  | succ k ih => rw [samples_succ, ih, pow_succ']

theorem samples_pos (k : Nat) : 0 < samples k := by
  rw [samples_eq_pow]
  positivity

theorem samples_cast_ne_zero (k : Nat) : (samples k : ℂ) ≠ 0 :=
  Nat.cast_ne_zero.mpr (samples_pos k).ne'

end Fourier

/-! ## Complex numbers -/

/-- Exact phasors are the complex numbers. -/
def Phasor.toComplex : Phasor ℝ ≃+* ℂ where
  toFun z := ⟨z.re, z.im⟩
  invFun z := ⟨z.re, z.im⟩
  left_inv _ := rfl
  right_inv _ := rfl
  map_mul' _ _ := rfl
  map_add' _ _ := rfl

theorem Phasor.toComplex_conj (z : Phasor ℝ) : z.conj.toComplex = starRingEnd ℂ z.toComplex := rfl

noncomputable def Roots.exact : Roots ℝ := fun j =>
  if j < transformLength / 2 then
    ⟨Real.cos ((2 * j : Nat) * Real.pi / transformLength),
      Real.sin ((2 * j : Nat) * Real.pi / transformLength)⟩
  else 0

def Direction.sign : Direction → ℤ
  | .forward => -1
  | .inverse => 1

@[simp]
theorem Direction.forward_sign : (Direction.forward.sign : ℂ) = -1 := by norm_num [Direction.sign]

@[simp]
theorem Direction.inverse_sign : (Direction.inverse.sign : ℂ) = 1 := Int.cast_one

/-- The `n`-th root of unity by which a transform turns. -/
noncomputable def Direction.turn (d : Direction) (n : Nat) : ℂ :=
  Complex.exp (d.sign * ((2 : Nat) * Real.pi * Complex.I) / n)

theorem Roots.toComplex_exact {j : Nat} (hj : j < transformLength / 2) :
    (Roots.exact j).toComplex = Complex.exp (2 * Real.pi * Complex.I * j / transformLength) := by
  have hangle : (2 * Real.pi * Complex.I * j / transformLength : ℂ) =
      (((2 * j : Nat) * Real.pi / transformLength : ℝ) : ℂ) * Complex.I := by
    push_cast
    ring
  unfold Roots.exact
  rw [if_pos hj, hangle]
  exact Complex.ext (Complex.exp_ofReal_mul_I_re _).symm (Complex.exp_ofReal_mul_I_im _).symm

theorem Direction.turn_pow (d : Direction) (n j : Nat) :
    d.turn n ^ j = Complex.exp (d.sign * (2 * Real.pi * Complex.I * j / n)) := by
  rw [Direction.turn, ← Complex.exp_nat_mul]
  congr 1
  push_cast
  ring

theorem Direction.inverse_turn (n : Nat) :
    Direction.inverse.turn n = Complex.exp (2 * Real.pi * Complex.I / n) := by
  rw [Direction.turn, inverse_sign, one_mul, Nat.cast_ofNat]

theorem Direction.forward_turn (n : Nat) :
    Direction.forward.turn n = (Direction.inverse.turn n)⁻¹ := by
  rw [turn, turn, ← Complex.exp_neg, forward_sign, inverse_sign, neg_one_mul, one_mul, neg_div]

namespace Fourier

/-- The strides of all levels meet in one table: a level reads the roots of its own length. -/
theorem toComplex_twiddle (d : Direction) {l j : Nat} (hl : l < 9) (hj : j < samples l) :
    (twiddle Roots.exact d (samples (l + 1)) j).toComplex = d.turn (samples (l + 1)) ^ j := by
  have hlength : transformLength = samples (l + 1) * samples (8 - l) := by
    rw [← samples_add, show l + 1 + (8 - l) = 9 by omega]
    rfl
  have hstride : transformLength / samples (l + 1) = samples (8 - l) := by
    rw [hlength, Nat.mul_div_cancel_left _ (samples_pos _)]
  have hroot : j * samples (8 - l) < transformLength / 2 := by
    rw [hlength, samples_succ, Nat.mul_assoc, Nat.mul_div_cancel_left _ Nat.two_pos]
    exact Nat.mul_lt_mul_of_pos_right hj (samples_pos _)
  have hangle : (2 * Real.pi * Complex.I * (j * samples (8 - l) : Nat) / transformLength : ℂ) =
      2 * Real.pi * Complex.I * j / samples (l + 1) := by
    rw [hlength, Nat.cast_mul, Nat.cast_mul, ← mul_assoc]
    exact mul_div_mul_right _ _ (samples_cast_ne_zero _)
  unfold twiddle
  rw [hstride, Direction.turn_pow, ← hangle]
  cases d with
  | inverse =>
    rw [Direction.inverse_sign, one_mul]
    exact Roots.toComplex_exact hroot
  | forward =>
    rw [Direction.forward_sign, neg_one_mul, Phasor.toComplex_conj, Roots.toComplex_exact hroot,
      ← Complex.exp_conj]
    congr 1
    simp only [map_div₀, map_mul, map_ofNat, map_natCast, Complex.conj_ofReal, Complex.conj_I]
    ring

/-- Turning twice by a root turns by the root of half the length. -/
theorem turn_sq (d : Direction) (l : Nat) :
    d.turn (samples (l + 1)) ^ 2 = d.turn (samples l) := by
  have hne := samples_cast_ne_zero l
  rw [Direction.turn_pow, Direction.turn, samples_succ, Nat.cast_mul]
  congr 1
  push_cast
  field_simp

theorem turn_half (d : Direction) (l : Nat) : d.turn (samples (l + 1)) ^ samples l = -1 := by
  have hne := samples_cast_ne_zero l
  have hhalf : (2 * Real.pi * Complex.I * samples l / samples (l + 1) : ℂ) =
      Real.pi * Complex.I := by
    rw [samples_succ, Nat.cast_mul]
    push_cast
    field_simp
  rw [Direction.turn_pow, hhalf, Complex.exp_int_mul, Complex.exp_pi_mul_I]
  cases d <;> norm_num [Direction.sign]

/-- Every bin is the sum over all samples, each turned by its share. -/
theorem transform_spectrum (d : Direction) {k : Nat} (hk : k ≤ 9)
    (x : Vector (Phasor ℝ) (samples k)) (m : Fin (samples k)) :
    ((transform Roots.exact d k x).get m).toComplex =
      ∑ s : Fin (samples k), (x.get s).toComplex * d.turn (samples k) ^ (m.val * s.val) := by
  let f : Nat → Phasor ℝ := fun s => if h : s < samples k then x.get ⟨s, h⟩ else 0
  have hx : Holds x 0 (samples k) f := fun s hs => by
    simp only [f, Nat.zero_add, hs, dif_pos, Vector.getElem?_eq_getElem]
    rfl
  have hhalved : (transform Roots.exact d k x).get m = halved Roots.exact d k f m := by
    have hm := transform_eq Roots.exact d hx m m.isLt
    rw [Nat.zero_add, Vector.getElem?_eq_getElem m.isLt] at hm
    exact Option.some.inj hm
  have hturn : ∀ l < 9, ∀ j < samples l, twiddle Roots.exact d (samples (l + 1)) j =
      Phasor.toComplex.symm (d.turn (samples (l + 1))) ^ j := fun l hl j hj => by
    rw [← map_pow, RingEquiv.eq_symm_apply, toComplex_twiddle d hl hj]
  have hsum := halved_eq_sum (fun l => Phasor.toComplex.symm (d.turn (samples l))) hturn
    (fun l => by rw [← map_pow, turn_sq])
    (fun l => by rw [← map_pow, turn_half, map_neg, map_one]) hk (f := f) m.isLt
  rw [hhalved, hsum, map_sum, sum_range]
  refine sum_congr rfl fun s _ => ?_
  rw [map_mul, map_pow, RingEquiv.apply_symm_apply]
  simp only [f, s.isLt, dif_pos]

/-- The turns of bin `i` on the way back against those of sample `j` on the way forward. -/
theorem sum_turns {n : Nat} (hn : n ≠ 0) (i j : Fin n) :
    ∑ m : Fin n, Direction.forward.turn n ^ (m.val * j.val) *
      Direction.inverse.turn n ^ (i.val * m.val) = if i = j then (n : ℂ) else 0 := by
  have hroot : IsPrimitiveRoot (Direction.inverse.turn n) n := by
    rw [Direction.inverse_turn]
    exact Complex.isPrimitiveRoot_exp n hn
  have hne : Direction.inverse.turn n ≠ 0 := hroot.ne_zero hn
  have hinv := Direction.forward_turn n
  generalize Direction.inverse.turn n = ω at hroot hne hinv
  have hterm : ∀ m : Fin n, Direction.forward.turn n ^ (m.val * j.val) * ω ^ (i.val * m.val) =
      (ω ^ i.val / ω ^ j.val) ^ m.val := fun m => by
    rw [hinv, Nat.mul_comm m.val, pow_mul, pow_mul, ← mul_pow, inv_pow, mul_comm, div_eq_mul_inv]
  simp only [hterm]
  rw [← sum_range fun m => (ω ^ i.val / ω ^ j.val) ^ m]
  split
  · rename_i hij
    rw [hij, div_self (pow_ne_zero _ hne)]
    simp
  · rename_i hij
    have hother : ω ^ i.val / ω ^ j.val - 1 ≠ 0 := fun h => by
      rw [sub_eq_zero, div_eq_one_iff_eq (pow_ne_zero _ hne)] at h
      exact hij (Fin.ext (hroot.pow_inj i.isLt j.isLt h))
    have hround : (ω ^ i.val / ω ^ j.val) ^ n = 1 := by
      rw [div_pow, ← pow_mul, ← pow_mul, Nat.mul_comm i.val, Nat.mul_comm j.val, pow_mul, pow_mul,
        hroot.pow_eq_one, one_pow, one_pow, div_one]
    have hsum := geom_sum_mul (ω ^ i.val / ω ^ j.val) n
    rw [hround, sub_self] at hsum
    exact (mul_eq_zero.mp hsum).resolve_right hother

/-- Forward and back multiplies every sample by the number of samples. -/
theorem transform_back {k : Nat} (hk : k ≤ 9) (x : Vector (Phasor ℝ) (samples k)) :
    transform Roots.exact .inverse k (transform Roots.exact .forward k x) =
      x.map (·.scale (samples k)) := by
  refine Vector.ext fun i hi => Phasor.toComplex.injective ?_
  rw [Vector.getElem_map, Phasor.scale_eq_mul, map_mul]
  let bin : Fin (samples k) := ⟨i, hi⟩
  calc ((transform Roots.exact .inverse k (transform Roots.exact .forward k x)).get bin).toComplex
      = ∑ m : Fin (samples k), (∑ s : Fin (samples k), (x.get s).toComplex *
            Direction.forward.turn (samples k) ^ (m.val * s.val)) *
          Direction.inverse.turn (samples k) ^ (bin.val * m.val) := by
        rw [transform_spectrum .inverse hk]
        simp only [transform_spectrum .forward hk]
    _ = ∑ s : Fin (samples k), (x.get s).toComplex * ∑ m : Fin (samples k),
          Direction.forward.turn (samples k) ^ (m.val * s.val) *
            Direction.inverse.turn (samples k) ^ (bin.val * m.val) := by
        simp only [sum_mul, mul_sum, mul_assoc]
        exact sum_comm
    _ = ∑ s : Fin (samples k), (x.get s).toComplex * if bin = s then (samples k : ℂ) else 0 := by
        simp only [sum_turns (samples_pos k).ne']
    _ = (x.get bin).toComplex * (Phasor.real (samples k : ℝ)).toComplex := by
        simp only [mul_ite, mul_zero, sum_ite_eq, mem_univ, if_true, ← Phasor.natCast_eq,
          map_natCast]

theorem run_vector {α : Type} [Scalar α] (roots : Roots α) (d : Direction) {k : Nat}
    (hmax : samples k ≤ transformLength) (x : Vector (Phasor α) (samples k)) :
    run roots d x.toArray = .ok (transform roots d k x).toArray := by
  obtain ⟨x, hx⟩ := x
  obtain rfl : x.size.log2 = k := by rw [hx, samples_eq_pow, Nat.log2_two_pow]
  unfold run
  exact dif_pos ⟨hx, hx.trans_le hmax⟩

/-- Exactly computed, the transform of a power of two of samples is the sum over all samples, turned
in the sense of the direction. Forward and back multiplies every sample by their number. -/
theorem run_exact {n : Nat} (hn : n.isPowerOfTwo) (hmax : n ≤ transformLength)
    (x : Vector (Phasor ℝ) n) : ∃ y z : Vector (Phasor ℝ) n,
      run Roots.exact .forward x.toArray = .ok y.toArray ∧
      run Roots.exact .inverse x.toArray = .ok z.toArray ∧
      run Roots.exact .inverse y.toArray = .ok (x.map (·.scale n)).toArray ∧
      (∀ m : Fin n, (y.get m).toComplex =
        ∑ j : Fin n, (x.get j).toComplex * Complex.exp (-(2 * Real.pi * Complex.I * j * m / n))) ∧
      ∀ m : Fin n, (z.get m).toComplex =
        ∑ j : Fin n, (x.get j).toComplex * Complex.exp (2 * Real.pi * Complex.I * j * m / n) := by
  obtain ⟨k, rfl⟩ : ∃ k, n = samples k := hn.imp fun k hk => hk.trans (samples_eq_pow k).symm
  have hk : k ≤ 9 := (Nat.pow_le_pow_iff_right Nat.one_lt_two).mp (samples_eq_pow k ▸ hmax)
  refine ⟨_, _, run_vector _ _ hmax x, run_vector _ _ hmax x, ?_, fun m => ?_, fun m => ?_⟩
  · rw [run_vector _ _ hmax, transform_back hk]
  · rw [transform_spectrum .forward hk x m]
    refine sum_congr rfl fun j _ => ?_
    rw [Direction.turn_pow, Direction.forward_sign, neg_one_mul, Nat.mul_comm, Nat.cast_mul,
      ← mul_assoc]
  · rw [transform_spectrum .inverse hk x m]
    refine sum_congr rfl fun j _ => ?_
    rw [Direction.turn_pow, Direction.inverse_sign, one_mul, Nat.mul_comm, Nat.cast_mul,
      ← mul_assoc]

/-- The spectrum of an impulse is flat. -/
theorem run_exact_impulse : Nat.isPowerOfTwo 4 ∧ 4 ≤ transformLength ∧
    ∃ y : Vector (Phasor ℝ) 4, run Roots.exact .forward #[1, 0, 0, 0] = .ok y.toArray ∧
      ∀ m : Fin 4, (y.get m).toComplex = 1 := by
  have hfour : Nat.isPowerOfTwo 4 := ⟨2, rfl⟩
  obtain ⟨y, -, hy, -, -, hbins, -⟩ := run_exact hfour (by decide) (#v[1, 0, 0, 0])
  refine ⟨hfour, by decide, y, hy, fun m => ?_⟩
  rw [hbins, Fin.sum_univ_four]
  simp [Vector.get]

end Fourier

end NetworkAnalyzer
