import NetworkAnalyzer.Proofs.Spectrum.Lowpass

/-!
# The lowpass step response

The step response is the running sum of the impulse response, formed in the buffer: `accumulate`
adds to every point the preceding one, which is a sum already. Both lowpass functions weight the
points alike and differ in their normalization alone, so their responses do too.

The impulse response is normalized by twice the sum of the weights, the step response by the length
of the transform and the peak of the window. Both are positive as soon as there is a point, so the
quotient of the two is, and it depends on the setup and not on the trace.

* `get_accumulate`: what the loop over the points leaves behind.
* `get_step`: a point of the step response, as a sum of impulses.
* `step_response`: the two responses of one trace.
* `step_response_sameBuffer`: both, one after the other in the same buffer.
-/

namespace NetworkAnalyzer

open Finset NetworkAnalyzer.Fourier Parameters

variable {N : Nat}

namespace ResponseSetup

variable (s : ResponseSetup)

theorem get_accumulate {x : TransformBuffer ℝ} {f : Nat → Phasor ℝ}
    (hx : ∀ j : Fin transformLength, j < s.points → x.get j = f j) {j : Fin transformLength}
    (hj : j < s.points) :
    (s.accumulate x).get j = ⟨∑ k ∈ range (j + 1), (f k).re, (f j).im⟩ := by
  have hmax := s.points_le
  have hinside (i : Fin (s.points - 1)) : i.val + 1 < transformLength := by
    have hi := i.isLt
    omega
  let content (m : Nat) (j : Fin transformLength) : Phasor ℝ :=
    if j ≤ m then ⟨∑ k ∈ range (j + 1), (f k).re, (f j).im⟩ else x.get j
  let value (i : Fin (s.points - 1)) (y : TransformBuffer ℝ) : Phasor ℝ :=
    { y.get ⟨i.val + 1, hinside i⟩ with
      re := (y.get ⟨i.val + 1, hinside i⟩).re + (y.get ⟨i.val, by omega⟩).re }
  refine (get_foldl_set (fun i => ⟨i.val + 1, hinside i⟩) value content (fun j => ?_)
    (fun i y hy => ?_) (fun i j hij => ?_) j).trans (if_pos (by omega))
  · unfold content
    split
    · rename_i hzero
      rw [hx j (by omega), Nat.le_zero.mp hzero, sum_range_one]
    · rfl
  · have hhere : y.get ⟨i.val + 1, hinside i⟩ = f (i.val + 1) :=
      (hy _).trans ((if_neg (by dsimp only; omega)).trans (hx _ (by dsimp only; omega)))
    have hsum : y.get ⟨i.val, by omega⟩ = ⟨∑ k ∈ range (i.val + 1), (f k).re, (f i.val).im⟩ :=
      (hy _).trans (if_pos (le_refl _))
    unfold value content
    rw [hhere, hsum, if_pos (le_refl _), sum_range_succ _ (i.val + 1), add_comm (f (i.val + 1)).re]
  · refine if_congr ?_ rfl rfl
    dsimp only at hij
    omega

end ResponseSetup

namespace TimeDomain

variable {t t₁ t₂ : TimeDomain ℝ}

theorem get_step (ht : t.Used Roots.exact) (data : Vector (Phasor ℝ) N) {points : Nat}
    {window : WindowShape} {s : ResponseSetup}
    (hs : ResponseSetup.ofTrace .lowpassStep window points N = s) {i : Fin N}
    (hi : i < s.points) : (t.transform Roots.exact data points .lowpassStep window).2.get i =
      ⟨∑ k ∈ range (i + 1), s.scale * s.impulse data k, 0⟩ := by
  obtain ⟨hkind, hsize⟩ := ResponseSetup.ofTrace_fields hs
  have inTrace : s.points ≤ N := by omega
  refine (get_transform ht data hs (Nat.zero_lt_of_lt hi) i (hi.trans_le s.points_le)).trans ?_
  rw [ResponseSetup.response_step _ _ hkind]
  exact s.get_accumulate (f := fun k => ⟨s.scale * s.impulse data k, 0⟩)
    (fun j hj => s.get_makeReal_complete data inTrace _ hj) hi

/-- The lowpass step response of a trace is the running sum of its impulse response, up to the
positive quotient of the two normalizations, and both are real. -/
theorem step_response (ht₁ : t₁.Used Roots.exact) (ht₂ : t₂.Used Roots.exact)
    (data : Vector (Phasor ℝ) N) (hN : 0 < N) {points : Nat} (hpos : 0 < points)
    (window : WindowShape) :
    let impulse := (t₁.transform Roots.exact data points .lowpassImpulse window).2
    let step := (t₂.transform Roots.exact data points .lowpassStep window).2
    let ratio : ℝ := (ResponseSetup.ofTrace .lowpassStep window points N).scale /
      (ResponseSetup.ofTrace .lowpassImpulse window points N).scale
    0 < ratio ∧ ∀ i : Fin N, i < points → i < transformLength →
      step.get i = ⟨ratio * ∑ j ∈ Iic i, (impulse.get j).re, 0⟩ ∧ (impulse.get i).im = 0 := by
  generalize hs₁ : ResponseSetup.ofTrace .lowpassImpulse window points N = s₁
  generalize hs₂ : ResponseSetup.ofTrace .lowpassStep window points N = s₂
  intro impulse step ratio
  have hlength : 0 < transformLength := by decide
  have hsize₁ := (ResponseSetup.ofTrace_fields hs₁).2
  have hsize₂ := (ResponseSetup.ofTrace_fields hs₂).2
  have hscale₁ : (0 : ℝ) < s₁.scale := s₁.scale_pos (by omega)
  have hscale₂ : (0 : ℝ) < s₂.scale := s₂.scale_pos (by omega)
  have hshape (k : Nat) : s₂.impulse data k = s₁.impulse data k := by rw [← hs₁, ← hs₂]; rfl
  refine ⟨div_pos hscale₂ hscale₁, fun i hi hlast => ?_⟩
  have himpulse (j : Fin N) (hj : j ≤ i) : impulse.get j = ⟨s₁.scale * s₁.impulse data j, 0⟩ :=
    get_impulse ht₁ data hs₁ (by omega)
  refine ⟨(get_step ht₂ data hs₂ (by omega)).trans ?_, by rw [himpulse i (le_refl i)]⟩
  have hsum : ∑ j ∈ Iic i, (impulse.get j).re =
      ∑ k ∈ range (i + 1), s₁.scale * s₁.impulse data k := by
    rw [sum_congr rfl fun j hj => congrArg Phasor.re (himpulse j (mem_Iic.mp hj)),
      Nat.range_succ_eq_Iic, ← Fin.map_valEmbedding_Iic, sum_map]
    rfl
  rw [hsum, mul_sum]
  refine congrArg (Phasor.mk · 0) (sum_congr rfl fun k _ => ?_)
  rw [hshape, ← mul_assoc, div_mul_cancel₀ _ hscale₁.ne']

/-- Both responses of a trace, one after the other in the same buffer. -/
theorem step_response_sameBuffer :
    let r := ({} : TimeDomain ℝ).transform Roots.exact #v[1, ⟨0, 1⟩, 1] 3 .lowpassImpulse .normal
    let step := (r.1.transform Roots.exact #v[1, ⟨0, 1⟩, 1] 3 .lowpassStep .normal).2
    r.1.Used Roots.exact ∧ ∃ ratio : ℝ, 0 < ratio ∧
      step.get 2 = ⟨ratio * ∑ j, (r.2.get j).re, 0⟩ ∧ (r.2.get 2).im = 0 := by
  have hfresh : Used Roots.exact {} := .fresh
  have hused := hfresh.again #v[1, ⟨0, 1⟩, 1] 3 .lowpassImpulse .normal
  obtain ⟨hratio, hall⟩ := step_response hfresh hused #v[1, ⟨0, 1⟩, 1] (by decide)
    (by decide : 0 < 3) .normal
  exact ⟨hused, _, hratio, hall 2 (by decide) (by decide)⟩

end TimeDomain

end NetworkAnalyzer
