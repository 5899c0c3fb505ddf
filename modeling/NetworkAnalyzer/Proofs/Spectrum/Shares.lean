import NetworkAnalyzer.Proofs.Spectrum.ExactTransform
import NetworkAnalyzer.Proofs.Spectrum.Reuse

/-!
# The share of a point in a response

Without rounding, a response is a sum over the points of the trace. Point `k` enters the response
at time `i` with its windowed value, turned `k` times by the angle that belongs to `i` (`share`).

The buffer has 512 places, of which those behind the points are zero. A sum over all places is
therefore one over the points (`sum_points`). The lowpass functions fill further places with
conjugates of points; what that makes of the sum is in `Spectrum.Lowpass`.

* `norm_turned`, `turned_zero`: turning keeps the magnitude, and at time zero nothing is turned.
* `toComplex_bin`: a bin of the transform in the buffer is the sum over all places, each turned.
* `turned_windowed`: what the places of the windowed trace contribute to it.
-/

namespace NetworkAnalyzer

open Finset NetworkAnalyzer.Fourier Parameters

variable {N : Nat}

/-- Entry `k` of a trace as a complex number. There is nothing behind its end. -/
noncomputable def sample (data : Vector (Phasor ℝ) N) (k : Nat) : ℂ := (data[k]?.getD 0).toComplex

theorem sample_of_lt (data : Vector (Phasor ℝ) N) {k : Nat} (hk : k < N) :
    sample data k = (data.get ⟨k, hk⟩).toComplex := by
  unfold sample
  rw [Vector.getElem?_eq_getElem hk]
  rfl

theorem toComplex_scale (z : Phasor ℝ) (x : ℝ) : (z.scale x).toComplex = x * z.toComplex := by
  rw [Phasor.scale_eq_mul, map_mul, mul_comm]
  rfl

noncomputable def turned (i k : Nat) : ℂ :=
  Complex.exp ((2 : Nat) * Real.pi * Complex.I * k * i / transformLength)

theorem norm_turned (i k : Nat) : ‖turned i k‖ = 1 := by
  have hangle : ((2 : Nat) * Real.pi * Complex.I * k * i / transformLength : ℂ) =
      (((2 : Nat) * Real.pi * k * i / transformLength : ℝ) : ℂ) * Complex.I := by
    push_cast
    ring
  unfold turned
  rw [hangle, Complex.norm_exp_ofReal_mul_I]

theorem turned_zero (k : Nat) : turned 0 k = 1 := by
  simp [turned]

theorem toComplex_bin {x : TransformBuffer ℝ} (f : Nat → ℂ)
    (hx : ∀ k : Fin transformLength, (x.get k).toComplex = f k) (i : Fin transformLength) :
    ((TransformBuffer.invert Roots.exact x).get i).toComplex =
      ∑ k ∈ range transformLength, f k * turned i k := by
  calc ((TransformBuffer.invert Roots.exact x).get i).toComplex
      = ∑ k : Fin transformLength,
          (x.get k).toComplex * Direction.inverse.turn transformLength ^ (i.val * k.val) :=
        transform_spectrum .inverse (le_refl 9) x i
    _ = ∑ k : Fin transformLength, f k * turned i k := sum_congr rfl fun k _ => by
        unfold turned
        rw [hx k, Direction.turn_pow, Direction.inverse_sign, one_mul, Nat.mul_comm, Nat.cast_mul,
          ← mul_assoc, Nat.cast_ofNat]
    _ = ∑ k ∈ range transformLength, f k * turned i k := (sum_range fun k => f k * turned i k).symm

namespace ResponseSetup

variable (s : ResponseSetup) (data : Vector (Phasor ℝ) N)

/-- The share of point `k` in the response at time `i`, before the response is normalized. -/
noncomputable def share (i k : Nat) : ℂ :=
  (s.weight k : ℝ) * sample data k * turned i k

theorem toComplex_windowed {s : ResponseSetup} (inTrace : s.points ≤ N) (scale : ℝ) (k : Nat) :
    (s.windowed scale data k).toComplex =
      if k < s.points then scale * ((s.weight k : ℝ) * sample data k) else 0 := by
  unfold windowed
  by_cases hk : k < s.points
  · have htrace : k < N := hk.trans_le inTrace
    have hget : data.get ⟨k, htrace⟩ = data[k] := rfl
    rw [dif_pos ⟨hk, htrace⟩, if_pos hk, toComplex_scale, sample_of_lt data htrace, hget]
    push_cast
    ring
  · rw [dif_neg fun h => hk h.1, if_neg hk, map_zero]

/-- Of a sum over all places, those of the points. -/
theorem sum_points {M : Type} [AddCommMonoid M] (f : Nat → M) :
    ∑ k ∈ range transformLength, (if k < s.points then f k else 0) = ∑ k ∈ range s.points, f k := by
  have hpoints : (range transformLength).filter (· < s.points) = range s.points := by
    have hmax := s.points_le
    ext k
    simp only [mem_filter, mem_range]
    omega
  rw [← sum_filter, hpoints]

/-- The places of the windowed trace, turned, are the shares of the points. -/
theorem turned_windowed {s : ResponseSetup} (inTrace : s.points ≤ N) (scale : ℝ) (i k : Nat) :
    (s.windowed scale data k).toComplex * turned i k =
      if k < s.points then scale * s.share data i k else 0 := by
  rw [toComplex_windowed data inTrace]
  unfold share
  split
  · ring
  · rw [zero_mul]

end ResponseSetup

end NetworkAnalyzer
