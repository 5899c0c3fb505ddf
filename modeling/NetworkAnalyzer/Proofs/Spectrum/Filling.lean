import NetworkAnalyzer.Proofs.Spectrum.InPlace
import NetworkAnalyzer.Spectrum.TimeDomain

/-!
# The buffer of a transform, filled

The time domain keeps its buffer from transform to transform. `load` writes the places below the
point count and `clear` all others, so that what the buffer held before is gone when the
transform starts. This holds in every arithmetic.

The loops write one place in every step. What such a loop leaves is stated for any loop of the kind,
with `content k j` for what place `j` holds after `k` steps (`get_foldl_set`); each loop then only
has to name its content.

* `get_load`, `get_clear`, `get_makeReal`: what the loops leave at each place.
* `windowed`, `spectrum`: the windowed trace, with zeros behind its points.
* `fill_eq`: a filled buffer holds the windowed trace, whatever it held before.
* `response`: what a transform computes, in a buffer of its own.
-/

namespace NetworkAnalyzer

open NetworkAnalyzer.Fourier Parameters

namespace ResponseSetup

variable {α : Type} [Scalar α] {N : Nat}

/-! ## Loops over the points -/

section Loops

variable {β : Type} {m n : Nat}

/-- A loop that writes one place in every step: `content k j` is what place `j` holds after `k`
steps. -/
theorem get_foldl_set (place : Fin m → Fin n) (value : Fin m → Vector β n → β) {x : Vector β n}
    (content : Nat → Fin n → β) (hstart : ∀ j, x.get j = content 0 j)
    (hwrite : ∀ (i : Fin m) (y : Vector β n), (∀ j, y.get j = content i j) →
      value i y = content (i.val + 1) (place i))
    (hkeep : ∀ (i : Fin m) (j : Fin n), (place i).val ≠ j →
      content i j = content (i.val + 1) j) (j : Fin n) :
    (Fin.foldl m (fun x i => x.set (place i) (value i x)) x).get j = content m j := by
  refine foldl_invariant (fun k (y : Vector β n) => ∀ j, y.get j = content k j) hstart
    (fun i y hy j => ?_) j
  refine (Vector.getElem_set ..).trans ?_
  split
  · rename_i hij
    rw [hwrite i y hy, Fin.ext hij]
  · rename_i hij
    exact (hy j).trans (hkeep i j hij)

/-- A loop that rewrites one place after the other rewrites each from what it held. -/
theorem get_foldl_set_self (g : Fin m → β → β) (inRange : m ≤ n) (x : Vector β n) (j : Fin n) :
    (Fin.foldl m (fun x i => x.set i (g i x[i.val])) x).get j =
      if h : j.val < m then g ⟨j, h⟩ (x.get j) else x.get j := by
  let place (i : Fin m) : Fin n := ⟨i, Nat.lt_of_lt_of_le i.isLt inRange⟩
  let content (k : Nat) (j : Fin n) : β :=
    if h : j.val < m ∧ j.val < k then g ⟨j, h.1⟩ (x.get j) else x.get j
  refine (get_foldl_set place (fun i y => g i y[i.val]) content (fun j => by simp [content])
    (fun i y hy => ?_) (fun i j hij => ?_) j).trans ?_
  · have hhere : y[i.val] = content i (place i) := hy (place i)
    rw [hhere]
    simp [content, place]
  · have hreached : (j.val < m ∧ j.val < i) ↔ (j.val < m ∧ j.val < i.val + 1) := by
      simp only [place] at hij
      omega
    simp only [content, hreached]
  · simp only [content, and_self]

end Loops

variable (s : ResponseSetup) (scale : α) (data : Vector (Phasor α) N)

theorem get_load (inTrace : s.points ≤ N) (x : TransformBuffer α) (j : Fin transformLength) :
    (s.load scale data inTrace x).get j =
      if h : j < s.points then data[j.val].scale (s.weight j * scale) else x.get j :=
  get_foldl_set_self (fun i _ => data[i.val].scale (s.weight i * scale)) s.points_le x j

theorem get_makeReal (x : TransformBuffer α) (j : Fin transformLength) :
    (s.makeReal x).get j = if j < s.points then { x.get j with im := 0 } else x.get j := by
  refine (get_foldl_set_self (fun _ z => { z with im := 0 }) s.points_le x j).trans ?_
  split <;> rfl

theorem get_clear (x : TransformBuffer α) (j : Fin transformLength) :
    (s.clear x).get j = if s.points ≤ j then 0 else x.get j := by
  refine (get_foldl_set (fun i => ⟨s.points + i, by omega⟩) (fun _ _ => 0)
    (fun k j => if s.points ≤ j ∧ j < s.points + k then 0 else x.get j)
    (fun j => (if_neg (by omega)).symm) (fun i _ _ => (if_pos (by simp only; omega)).symm)
    (fun i j hij => ?_) j).trans ?_
  · congr 1
    simp only [eq_iff_iff] at hij ⊢
    omega
  · congr 1
    simp only [eq_iff_iff]
    omega

/-! ## The filled buffer -/

def windowed (k : Nat) : Phasor α :=
  if h : k < s.points ∧ k < N then data[k].scale (s.weight k * scale) else 0

def spectrum : TransformBuffer α := Vector.ofFn fun k => s.windowed scale data k

theorem get_spectrum (k : Fin transformLength) :
    (s.spectrum scale data).get k = s.windowed scale data k := Vector.getElem_ofFn k.isLt

theorem clear_load (inTrace : s.points ≤ N) (x : TransformBuffer α) :
    s.clear (s.load scale data inTrace x) = s.spectrum scale data := by
  refine Vector.ext fun j hj => ?_
  have hcleared := s.get_clear (s.load scale data inTrace x) ⟨j, hj⟩
  have hspectrum := s.get_spectrum scale data ⟨j, hj⟩
  refine hcleared.trans (Eq.trans ?_ hspectrum.symm)
  rw [get_load]
  unfold windowed
  dsimp only
  by_cases hpoint : j < s.points
  · rw [if_neg (by omega), dif_pos hpoint, dif_pos ⟨hpoint, by omega⟩]
  · rw [if_pos (by omega), dif_neg fun h => hpoint h.1]

theorem fill_eq (inTrace : s.points ≤ N) (x : TransformBuffer α) :
    s.fill scale data inTrace x =
      if s.kind.isLowpass then s.complete (s.spectrum scale data) else s.spectrum scale data := by
  unfold fill
  rw [clear_load]

/-- The response of a trace, computed in a buffer of its own. -/
def response (roots : Roots α) : TransformBuffer α :=
  let x := s.spectrum scale data
  s.readOff (TransformBuffer.invert roots (if s.kind.isLowpass then s.complete x else x))

theorem response_bandpass {s : ResponseSetup} (hs : s.kind = .bandpass) (roots : Roots α) :
    s.response scale data roots = TransformBuffer.invert roots (s.spectrum scale data) := by
  simp [response, readOff, hs, ResponseKind.isLowpass]

theorem response_impulse {s : ResponseSetup} (hs : s.kind = .lowpassImpulse) (roots : Roots α) :
    s.response scale data roots =
      s.makeReal (TransformBuffer.invert roots (s.complete (s.spectrum scale data))) := by
  simp [response, readOff, hs, ResponseKind.isLowpass]

theorem response_step {s : ResponseSetup} (hs : s.kind = .lowpassStep) (roots : Roots α) :
    s.response scale data roots = s.accumulate
      (s.makeReal (TransformBuffer.invert roots (s.complete (s.spectrum scale data)))) := by
  simp [response, readOff, hs, ResponseKind.isLowpass]

end ResponseSetup

end NetworkAnalyzer
