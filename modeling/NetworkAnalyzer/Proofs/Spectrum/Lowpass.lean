import NetworkAnalyzer.Proofs.Spectrum.Windows
import NetworkAnalyzer.Proofs.Spectrum.Shares

/-!
# The lowpass impulse response

A lowpass function takes the trace as the positive half of a real signal's spectrum. `complete`
writes the conjugates of the points into the upper half of the buffer, which they share with the
upper points of a long trace: every place `j` above the middle ends up as the mirror image of
place `512 - j`, and what the trace had put there is gone (`get_complete`).

The loop runs upwards. A point above the middle is itself overwritten before its turn comes; what
is then written in its name, far below, is the conjugate of a conjugate, the point that stands
there already. So the lower half is always the trace.

| points              | places that show point `k`                     |
|---------------------|------------------------------------------------|
| `k` = 0             | one                                            |
| below the middle    | two, its own and its mirror image              |
| in the middle       | one                                            |
| above the middle    | none                                           |

* `re_bin_complete`: the real part of a bin of a completed spectrum, as a sum over its lower half.
* `copies`, `sum_copies`: the table, and the sum that it weights.
* `impulse_of_short`: as long as the points stay below the middle, all but the first are there
  twice.
* `impulse_response`: a point below the middle is counted twice, a point above it not at all.
* `impulse_response_lost`: a long trace of which nothing is left.
-/

namespace NetworkAnalyzer

open Finset NetworkAnalyzer.Fourier Parameters

variable {N : Nat}

/-! ## The completed spectrum -/

/-- The turns of a bin and of its mirror image are each other's conjugates. -/
theorem turned_mirror (i : Nat) {k : Nat} (hk : k ≤ transformLength) :
    turned i (transformLength - k) = starRingEnd ℂ (turned i k) := by
  have hround : turned i (transformLength - k) * turned i k = 1 := by
    have hlength : (transformLength : ℂ) ≠ 0 := Nat.cast_ne_zero.mpr (by decide)
    unfold turned
    rw [← Complex.exp_add, Complex.exp_eq_one_iff, Nat.cast_sub hk]
    refine ⟨i, ?_⟩
    push_cast
    field_simp
    ring
  rw [eq_inv_of_mul_eq_one_left hround, Complex.inv_eq_conj (norm_turned i k)]

namespace ResponseSetup

variable (s : ResponseSetup) (data : Vector (Phasor ℝ) N)

/-- Place `j` of a completed spectrum. -/
def completed {α : Type} [Scalar α] (f : Nat → Phasor α) (j : Nat) : Phasor α :=
  if transformLength ≤ 2 * j ∧ transformLength - j < s.points then (f (transformLength - j)).conj
  else f j

theorem get_complete {x : TransformBuffer ℝ} {f : Nat → Phasor ℝ}
    (hx : ∀ j : Fin transformLength, x.get j = f j) (j : Fin transformLength) :
    (s.complete x).get j = s.completed f j := by
  have hlength : transformLength = 512 := rfl
  have hmax := s.points_le
  have hinside (i : Fin (s.points - 1)) : i.val + 1 < transformLength := by
    have hi := i.isLt
    omega
  let place (i : Fin (s.points - 1)) : Fin transformLength :=
    ⟨transformLength - (i.val + 1), by omega⟩
  let content (m : Nat) (j : Fin transformLength) : Phasor ℝ :=
    if transformLength ≤ 2 * j.val ∧ transformLength - j < m + 1 then
      (f (transformLength - j)).conj
    else f j
  refine (get_foldl_set place (fun i y => (y.get ⟨i.val + 1, hinside i⟩).conj) content
    (fun j => ?_) (fun i y hy => ?_) (fun i j hij => ?_) j).trans ?_
  · rw [hx]
    exact (if_neg (by omega)).symm
  · have hmirror : transformLength - (transformLength - (i.val + 1)) = i.val + 1 :=
      Nat.sub_sub_self (hinside i).le
    rw [hy]
    simp only [content, place, hmirror]
    by_cases hlow : 2 * (i.val + 1) ≤ transformLength
    · rw [if_neg (by omega), if_pos (by omega)]
    · -- the source has been overwritten with the conjugate of what stands here
      rw [if_pos (by omega), if_neg (by omega)]
      exact congrArg (Phasor.mk _) (neg_neg _)
  · refine if_congr ?_ rfl rfl
    simp only [place] at hij
    omega
  · exact if_congr (by omega) rfl rfl

/-- Place `j` shows, in its real part, the lower one of `j` and its mirror image. -/
theorem re_completed {f : Nat → Phasor ℝ} (hf : ∀ k, s.points ≤ k → f k = 0) (i : Nat) {j : Nat}
    (hj : j < transformLength) : ((s.completed f j).toComplex * turned i j).re =
      ((f (min j (transformLength - j))).toComplex * turned i (min j (transformLength - j))).re := by
  unfold completed
  split
  · rename_i hmirror
    have hturn : turned i j = starRingEnd ℂ (turned i (transformLength - j)) := by
      rw [← turned_mirror i (Nat.sub_le _ _), Nat.sub_sub_self hj.le]
    rw [min_eq_right (by omega), Phasor.toComplex_conj, hturn, ← map_mul, Complex.conj_re]
  · rename_i hown
    by_cases hlow : j ≤ transformLength - j
    · rw [min_eq_left hlow]
    · -- a place above the middle that no point reaches, from either side
      rw [min_eq_right (by omega), hf j (by omega), hf (transformLength - j) (by omega)]
      simp

/-- Below the middle the places show each a point of their own, and so do those from the middle
on, in reverse. -/
theorem sum_mirrored (r : Nat → ℝ) (half : Nat) :
    ∑ j ∈ range (2 * half), r (min j (2 * half - j)) =
      ∑ k ∈ range half, r k + ∑ k ∈ Ico 1 (half + 1), r k := by
  have hlower (j : Nat) (hj : j ∈ range half) : r (min j (2 * half - j)) = r j := by
    have hj := mem_range.mp hj
    rw [min_eq_left (by omega)]
  have hupper (j : Nat) (hj : j ∈ Ico half (2 * half)) :
      r (min j (2 * half - j)) = r (2 * half - j) := by
    have hj := mem_Ico.mp hj
    rw [min_eq_right (by omega)]
  have hreflect : ∑ j ∈ Ico half (2 * half), r (2 * half - j) = ∑ k ∈ Ico 1 (half + 1), r k := by
    have hends : 2 * half + 1 - 2 * half = 1 ∧ 2 * half + 1 - half = half + 1 := by omega
    rw [sum_Ico_reflect r half (Nat.le_succ _), hends.1, hends.2]
  rw [← sum_range_add_sum_Ico _ (Nat.le_mul_of_pos_left half Nat.two_pos), sum_congr rfl hlower,
    sum_congr rfl hupper, hreflect]

/-- How many places of a completed spectrum show point `k`. -/
def copies (k : Nat) : Nat :=
  if k = 0 ∨ 2 * k = transformLength then 1 else if 2 * k < transformLength then 2 else 0

theorem sum_copies (r : Nat → ℝ) {half : Nat} (hhalf : 2 * half = transformLength) :
    ∑ k ∈ range transformLength, copies k * r k =
      ∑ k ∈ range half, r k + ∑ k ∈ Ico 1 (half + 1), r k := by
  have hlength : 0 < transformLength := by decide
  have hcopies (k : Nat) : (copies k : ℝ) * r k =
      (if k < half then r k else 0) + if 1 ≤ k ∧ k < half + 1 then r k else 0 := by
    unfold copies
    split_ifs <;> first | omega | (push_cast; ring)
  have hlower : (range transformLength).filter (· < half) = range half := by
    ext k
    simp only [mem_filter, mem_range]
    omega
  have hupper : (range transformLength).filter (fun k => 1 ≤ k ∧ k < half + 1) =
      Ico 1 (half + 1) := by
    ext k
    simp only [mem_filter, mem_range, mem_Ico]
    omega
  rw [sum_congr rfl fun k _ => hcopies k, sum_add_distrib, ← sum_filter, ← sum_filter, hlower,
    hupper]

/-! ## The response -/

/-- The lowpass impulse response at time `i`, before it is normalized. -/
noncomputable def impulse (i : Nat) : ℝ :=
  ∑ k ∈ range s.points, copies k * (s.share data i k).re

theorem re_bin_complete (inTrace : s.points ≤ N) (scale : ℝ) (i : Fin transformLength) :
    ((TransformBuffer.invert Roots.exact (s.complete (s.spectrum scale data))).get i).re =
      scale * s.impulse data i := by
  have hbehind (k : Nat) (hk : s.points ≤ k) : s.windowed scale data k = 0 :=
    dif_neg fun h => Nat.not_lt.mpr hk h.1
  have hshare (k : Nat) : (copies k : ℝ) * ((s.windowed scale data k).toComplex * turned i k).re =
      if k < s.points then scale * (copies k * (s.share data i k).re) else 0 := by
    rw [turned_windowed data inTrace]
    split
    · rw [Complex.re_ofReal_mul]
      ring
    · simp
  have hplaces := s.get_complete (s.get_spectrum scale data)
  have hbin := toComplex_bin (fun j => (s.completed (s.windowed scale data) j).toComplex)
    (fun j => congrArg Phasor.toComplex (hplaces j)) i
  have hre (z : Phasor ℝ) : z.re = z.toComplex.re := rfl
  let r (k : Nat) : ℝ := ((s.windowed scale data k).toComplex * turned i k).re
  calc ((TransformBuffer.invert Roots.exact (s.complete (s.spectrum scale data))).get i).re
      = ∑ j ∈ range transformLength, r (min j (transformLength - j)) := by
        rw [hre, hbin, Complex.re_sum]
        exact sum_congr rfl fun j hj => s.re_completed hbehind i (mem_range.mp hj)
    _ = ∑ k ∈ range transformLength, copies k * r k := by
        rw [sum_copies r (by decide : 2 * 256 = transformLength)]
        exact sum_mirrored r 256
    _ = scale * s.impulse data i := by
        rw [sum_congr rfl fun k _ => hshare k, sum_points, ← mul_sum]
        rfl

theorem get_makeReal_complete (inTrace : s.points ≤ N) (scale : ℝ) {i : Fin transformLength}
    (hi : i < s.points) : (s.makeReal (TransformBuffer.invert Roots.exact
      (s.complete (s.spectrum scale data)))).get i = ⟨scale * s.impulse data i, 0⟩ := by
  refine (s.get_makeReal _ i).trans ((if_pos hi).trans ?_)
  rw [← re_bin_complete s data inTrace]

/-- As long as the points stay below the middle, all but the first are there twice. -/
theorem impulse_of_short (hpos : 0 < s.points) (hshort : 2 * s.points ≤ transformLength) (i : Nat) :
    s.impulse data i =
      (s.share data i 0 + (2 : Nat) * ∑ k ∈ Ico 1 s.points, s.share data i k).re := by
  have hpair (k : Nat) (hk : k ∈ Ico 1 s.points) :
      (copies k : ℝ) * (s.share data i k).re = 2 * (s.share data i k).re := by
    have hk := mem_Ico.mp hk
    have htwice : copies k = 2 := by
      unfold copies
      rw [if_neg (by omega), if_pos (by omega)]
    rw [htwice, Nat.cast_two]
  unfold impulse
  rw [range_eq_Ico, sum_eq_sum_Ico_succ_bot hpos, sum_congr rfl hpair, ← mul_sum]
  simp [copies]

end ResponseSetup

namespace TimeDomain

variable {t : TimeDomain ℝ}

theorem get_impulse (ht : t.Used Roots.exact) (data : Vector (Phasor ℝ) N) {points : Nat}
    {window : WindowShape} {s : ResponseSetup}
    (hs : ResponseSetup.ofTrace .lowpassImpulse window points N = s) {i : Fin N}
    (hi : i < s.points) : (t.transform Roots.exact data points .lowpassImpulse window).2.get i =
      ⟨s.scale * s.impulse data i, 0⟩ := by
  obtain ⟨hkind, hsize⟩ := ResponseSetup.ofTrace_fields hs
  have inTrace : s.points ≤ N := by omega
  refine (get_transform ht data hs (Nat.zero_lt_of_lt hi) i (hi.trans_le s.points_le)).trans ?_
  rw [ResponseSetup.response_impulse _ _ hkind]
  exact s.get_makeReal_complete data inTrace _ hi

/-- The lowpass impulse response of a trace is real. As in the positive half of a real signal's
spectrum, the first point is counted once and every other one twice, but only below the middle of
the buffer: a point in the middle is counted once, and the points above it are lost. -/
theorem impulse_response (ht : t.Used Roots.exact) (data : Vector (Phasor ℝ) N) (points : Nat)
    (window : WindowShape) :
    let s := ResponseSetup.ofTrace .lowpassImpulse window points N
    let response := (t.transform Roots.exact data points .lowpassImpulse window).2
    ∀ i : Fin N, i < s.points →
      response.get i =
        ⟨s.scale * ∑ k ∈ range s.points, ResponseSetup.copies k * (s.share data i k).re, 0⟩ ∧
      (2 * s.points ≤ transformLength → response.get i =
        ⟨s.scale * (s.share data i 0 + (2 : Nat) * ∑ k ∈ Ico 1 s.points, s.share data i k).re,
          0⟩) := by
  generalize hs : ResponseSetup.ofTrace .lowpassImpulse window points N = s
  intro _ response i hi
  have hget : response.get i = ⟨s.scale * s.impulse data i, 0⟩ := get_impulse ht data hs hi
  refine ⟨hget, fun hshort => ?_⟩
  rw [hget, s.impulse_of_short data (Nat.zero_lt_of_lt hi) hshort]

/-- Of the four places that two points are normalized for, a flat trace fills three. -/
theorem impulse_response_pair :
    (({} : TimeDomain ℝ).transform Roots.exact #v[1, 1] 2 .lowpassImpulse .minimum).2.get 0 =
      ⟨3 / 4, 0⟩ := by
  obtain ⟨-, hshort⟩ := impulse_response .fresh #v[1, 1] 2 .minimum 0 (by decide)
  refine (hshort (by decide)).trans ?_
  generalize hs : ResponseSetup.ofTrace .lowpassImpulse .minimum 2 2 = s
  have hpoints : s.points = 2 := (ResponseSetup.ofTrace_fields hs).2
  have hweight (k : Nat) : (s.weight k : ℝ) = 1 := by rw [← hs]; rfl
  have hscale : (s.scale : ℝ) = 1 / (2 * (1 + 1)) := by
    have hnorm : (s.norm : ℝ) = (2 : Nat) * s.weightSum := by rw [← hs]; rfl
    unfold ResponseSetup.scale
    rw [hnorm, ResponseSetup.weightSum_eq, hpoints, sum_range_succ, sum_range_one, hweight, hweight,
      Nat.cast_two]
  have hshare (k : Nat) (hk : k < 2) : s.share #v[1, 1] 0 k = 1 := by
    unfold ResponseSetup.share
    rw [hweight, sample_of_lt _ hk, turned_zero, mul_one, Complex.ofReal_one, one_mul]
    rcases k with _ | _ | k
    · rfl
    · rfl
    · omega
  have hfirst : s.share #v[1, 1] (0 : Fin 2) 0 = 1 := hshare 0 (by decide)
  have hsecond : s.share #v[1, 1] (0 : Fin 2) 1 = 1 := hshare 1 (by decide)
  rw [hscale, hpoints, Nat.Ico_succ_singleton, sum_singleton, hfirst, hsecond, Phasor.mk.injEq]
  norm_num

noncomputable def lastOnly : Vector (Phasor ℝ) 401 := (Vector.replicate 401 0).set 400 1

theorem sample_lastOnly (k : Nat) : sample lastOnly k = if k = 400 then 1 else 0 := by
  unfold sample lastOnly
  rw [Vector.getElem?_set]
  by_cases hk : k = 400
  · rw [if_pos hk.symm, if_pos hk]
    rfl
  · rw [if_neg (Ne.symm hk), if_neg hk, Vector.getElem?_replicate]
    split <;> rfl

/-- Nothing is left of a point above the middle, although the positive half of a real signal's
spectrum shows it. -/
theorem impulse_response_lost :
    let s := ResponseSetup.ofTrace .lowpassImpulse .minimum 401 401
    let response := (({} : TimeDomain ℝ).transform Roots.exact lastOnly 401 .lowpassImpulse
      .minimum).2
    (∀ i, response.get i = 0) ∧
      0 < s.scale * (s.share lastOnly 0 0 + (2 : Nat) * ∑ k ∈ Ico 1 s.points,
        s.share lastOnly 0 k).re := by
  generalize hs : ResponseSetup.ofTrace .lowpassImpulse .minimum 401 401 = s
  intro _ response
  have hpoints : s.points = 401 := (ResponseSetup.ofTrace_fields hs).2
  have hshare (i k : Nat) (hk : k ≠ 400) : s.share lastOnly i k = 0 := by
    unfold ResponseSetup.share
    rw [sample_lastOnly, if_neg hk, mul_zero, zero_mul]
  constructor
  · intro i
    refine (get_impulse .fresh lastOnly hs (by omega)).trans ?_
    have hnone : s.impulse lastOnly i = 0 := by
      refine sum_eq_zero fun k _ => ?_
      by_cases hk : k = 400
      · subst hk
        simp [ResponseSetup.copies, transformLength]
      · rw [hshare i k hk, Complex.zero_re, mul_zero]
    rw [hnone, mul_zero]
    rfl
  · have hscale : (0 : ℝ) < s.scale := s.scale_pos (by omega)
    have hweight : (1 : ℝ) ≤ s.weight 400 := s.one_le_weight (by omega)
    have hlast : ∑ k ∈ Ico 1 s.points, s.share lastOnly 0 k = (s.weight 400 : ℝ) := by
      rw [sum_eq_single 400 (fun k _ hk => hshare 0 k hk)
        (fun h => absurd (mem_Ico.mpr ⟨by decide, by omega⟩) h)]
      unfold ResponseSetup.share
      rw [sample_lastOnly, if_pos rfl, turned_zero, mul_one, mul_one]
    rw [hlast, hshare 0 0 (by decide), zero_add, ← Complex.ofReal_natCast, ← Complex.ofReal_mul,
      Complex.ofReal_re]
    exact mul_pos hscale (mul_pos (by norm_num) (zero_lt_one.trans_le hweight))

end TimeDomain

end NetworkAnalyzer
