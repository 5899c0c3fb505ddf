import NetworkAnalyzer.Proofs.Spectrum.Divisions
import NetworkAnalyzer.Proofs.Spectrum.Shares

/-!
# The bandpass response

A bandpass response is normalized by the sum of the very weights that its points are multiplied
with, so it is a weighted mean of the turned points: nowhere larger than the largest point, and at
time zero, where nothing is turned, the mean itself.

Turning keeps the magnitude, and the weights are positive (`Spectrum.Windows`). So the magnitude of
the mean is at most the mean of the magnitudes, and that is at most the largest of them. The bound
holds at all 512 times, whatever the number of points.

This is about exact numbers. That no division by zero is made is shown on numbers that remember it
(`Spectrum.Divisions`).

* `toComplex_bandpass`: the bandpass response is the normalized sum of the shares.
* `scale_mul_weightSum`: the weights, normalized, make up one.
* `norm_mean_le`: a weighted mean of shares is no larger than the largest sample.
* `mean_const`: at time zero, the mean of equal samples is that sample.
* `bandpass_response`: the response never divides by zero, keeps the magnitude of the trace and
  shows a constant trace at time zero.
-/

namespace NetworkAnalyzer

open Finset Parameters

variable {N : Nat}

namespace ResponseSetup

variable {s : ResponseSetup} (data : Vector (Phasor ℝ) N)

/-- The bandpass response is the normalized sum of the shares. -/
theorem toComplex_bandpass (hs : s.kind = .bandpass) (inTrace : s.points ≤ N) (scale : ℝ)
    (i : Fin transformLength) : ((s.response scale data Roots.exact).get i).toComplex =
      scale * ∑ k ∈ range s.points, s.share data i k := by
  have hplaces (k : Fin transformLength) : ((s.spectrum scale data).get k).toComplex =
      (s.windowed scale data k).toComplex := by rw [get_spectrum]
  rw [response_bandpass _ _ hs, toComplex_bin (fun k => (s.windowed scale data k).toComplex) hplaces,
    mul_sum, ← sum_points]
  exact sum_congr rfl fun k _ => turned_windowed data inTrace scale i k

/-- The weights, normalized, make up one. -/
theorem scale_mul_weightSum (hs : s.kind = .bandpass) (hpos : 0 < s.points) :
    (s.scale : ℝ) * ∑ k ∈ range s.points, s.weight k = 1 := by
  have hnorm : (s.norm : ℝ) = ∑ k ∈ range s.points, s.weight k := by
    rw [← weightSum_eq]
    unfold norm
    rw [hs]
  rw [← hnorm]
  exact one_div_mul_cancel (s.norm_pos hpos).ne'

theorem norm_share {k : Nat} (hk : k < s.points) (i : Nat) :
    ‖s.share data i k‖ = s.weight k * ‖sample data k‖ := by
  have hweight : (0 : ℝ) ≤ s.weight k := zero_le_one.trans (s.one_le_weight hk)
  unfold share
  rw [norm_mul, norm_mul, norm_turned, mul_one, Complex.norm_of_nonneg hweight]

theorem norm_mean_le (hs : s.kind = .bandpass) (hpos : 0 < s.points) {M : ℝ}
    (hM : ∀ k < s.points, ‖sample data k‖ ≤ M) (i : Nat) :
    ‖(s.scale : ℝ) * ∑ k ∈ range s.points, s.share data i k‖ ≤ M := by
  have hscale : (0 : ℝ) ≤ s.scale := (s.scale_pos hpos).le
  have hshare (k : Nat) (hk : k ∈ range s.points) : ‖s.share data i k‖ ≤ s.weight k * M := by
    have hk := mem_range.mp hk
    rw [norm_share data hk]
    exact mul_le_mul_of_nonneg_left (hM k hk) (zero_le_one.trans (s.one_le_weight hk))
  calc ‖(s.scale : ℝ) * ∑ k ∈ range s.points, s.share data i k‖
      = s.scale * ‖∑ k ∈ range s.points, s.share data i k‖ := by
        rw [norm_mul, Complex.norm_of_nonneg hscale]
    _ ≤ s.scale * ∑ k ∈ range s.points, s.weight k * M :=
        mul_le_mul_of_nonneg_left (norm_sum_le_of_le _ hshare) hscale
    _ = M := by rw [← sum_mul, ← mul_assoc, scale_mul_weightSum hs hpos, one_mul]

theorem mean_const (hs : s.kind = .bandpass) (hpos : 0 < s.points) {c : ℂ}
    (hc : ∀ k < s.points, sample data k = c) :
    ((s.scale : ℝ) : ℂ) * ∑ k ∈ range s.points, s.share data 0 k = c := by
  have hshare (k : Nat) (hk : k ∈ range s.points) : s.share data 0 k = (s.weight k : ℝ) * c := by
    unfold share
    rw [turned_zero, mul_one, hc k (mem_range.mp hk)]
  rw [sum_congr rfl hshare, ← sum_mul, ← Complex.ofReal_sum, ← mul_assoc, ← Complex.ofReal_mul,
    scale_mul_weightSum hs hpos, Complex.ofReal_one, one_mul]

end ResponseSetup

namespace TimeDomain

theorem get_bandpass {t : TimeDomain ℝ} (ht : t.Used Roots.exact) (data : Vector (Phasor ℝ) N)
    {points : Nat} {window : WindowShape} {s : ResponseSetup}
    (hs : ResponseSetup.ofTrace .bandpass window points N = s) (hpos : 0 < s.points) {i : Fin N}
    (hi : i.val < transformLength) :
    ((t.transform Roots.exact data points .bandpass window).2.get i).toComplex =
      (s.scale : ℝ) * ∑ k ∈ range s.points, s.share data i k := by
  obtain ⟨hkind, hsize⟩ := ResponseSetup.ofTrace_fields hs
  have inTrace : s.points ≤ N := by omega
  refine (congrArg Phasor.toComplex (get_transform ht data hs hpos i hi)).trans ?_
  exact ResponseSetup.toComplex_bandpass data hkind inTrace _ ⟨i, hi⟩

/-- A bandpass response of a trace that is not empty makes no division by zero. Nothing in it is
larger than the largest of the points, what lies behind the transform stays, and at time zero it
shows the value of a constant trace. -/
theorem bandpass_response {t : TimeDomain ℝ} (ht : t.Used Roots.exact)
    (data : Vector (Phasor ℝ) N) (hN : 0 < N) {points : Nat} (hpos : 0 < points)
    (window : WindowShape) :
    let response := (t.transform Roots.exact data points .bandpass window).2
    (∀ {t' : TimeDomain (Checked ℝ)}, t'.Used Roots.exact.checked →
      (t'.transform Roots.exact.checked (data.map Phasor.checked) points .bandpass window).2 =
        response.map Phasor.checked) ∧
    (∃ k : Fin N, k < points ∧ ∀ i : Fin N, i < transformLength →
      ‖(response.get i).toComplex‖ ≤ ‖(data.get k).toComplex‖) ∧
    (∀ i : Fin N, transformLength ≤ i → response.get i = data.get i) ∧
    ∀ c, (∀ k : Fin N, k < points → data.get k = c) → response.get ⟨0, hN⟩ = c := by
  intro response
  have hlength : 0 < transformLength := by decide
  obtain ⟨s, hs⟩ : ∃ s, ResponseSetup.ofTrace .bandpass window points N = s := ⟨_, rfl⟩
  obtain ⟨hkind, hsize⟩ := ResponseSetup.ofTrace_fields hs
  have hsome : 0 < s.points := by omega
  have hentry (i : Fin N) (hi : i.val < transformLength) : (response.get i).toComplex =
      (s.scale : ℝ) * ∑ k ∈ range s.points, s.share data i k :=
    get_bandpass ht data hs hsome hi
  refine ⟨fun ht' => bandpass_checked ht ht' data (hs ▸ hsome), ?_,
    fun i hi => get_transform_behind ht data hs hsome i hi, fun c hc => ?_⟩
  · obtain ⟨k, hk, hlargest⟩ := exists_max_image (range s.points) (fun k => ‖sample data k‖)
      ⟨0, mem_range.mpr hsome⟩
    have hk := mem_range.mp hk
    refine ⟨⟨k, by omega⟩, by simp only; omega, fun i hi => ?_⟩
    rw [hentry i hi, ← sample_of_lt]
    exact ResponseSetup.norm_mean_le data hkind hsome
      (fun k hk => hlargest k (mem_range.mpr hk)) i
  · refine Phasor.toComplex.injective ((hentry ⟨0, hN⟩ hlength).trans ?_)
    refine ResponseSetup.mean_const data hkind hsome fun k hk => ?_
    rw [sample_of_lt data (by omega), hc _ (by simp only; omega)]

/-- A constant sweep of full length, transformed after a short step response. -/
theorem bandpass_response_afterStep :
    let t := (({} : TimeDomain ℝ).transform Roots.exact #v[1, 1] 2 .lowpassStep .normal).1
    let response := (t.transform Roots.exact (.replicate 401 ⟨2, 1⟩) 401 .bandpass .maximum).2
    t.Used Roots.exact ∧ response.get ⟨0, by decide⟩ = ⟨2, 1⟩ ∧
      ∀ i : Fin 401, ‖(response.get i).toComplex‖ ≤ ‖Phasor.toComplex ⟨2, 1⟩‖ := by
  intro t response
  have hused : t.Used Roots.exact := Used.fresh.again #v[1, 1] 2 .lowpassStep .normal
  have hconst (k : Fin 401) : (Vector.replicate 401 (⟨2, 1⟩ : Phasor ℝ)).get k = ⟨2, 1⟩ :=
    Vector.getElem_replicate k.isLt
  obtain ⟨-, ⟨k, -, hlargest⟩, -, hmean⟩ := bandpass_response hused
    (.replicate 401 ⟨2, 1⟩) (by decide) (by decide : 0 < 401) .maximum
  refine ⟨hused, hmean ⟨2, 1⟩ fun k _ => hconst k, fun i => ?_⟩
  have hi : i.val < transformLength := i.isLt.trans (by decide)
  exact (hlargest i hi).trans_eq (congrArg (fun z => ‖Phasor.toComplex z‖) (hconst k))

end TimeDomain

end NetworkAnalyzer
