import Mathlib.Logic.Function.Iterate
import NetworkAnalyzer.Proofs.ExactPhasor
import NetworkAnalyzer.Proofs.Spectrum.InPlace
import NetworkAnalyzer.Trace.Smoothing

/-!
# Smoothing as repeated averaging

A pass walks over the trace in place and hands the value it replaced last on to the next point.
`averaged` is the same pass as a map: every point is computed from the trace as it was.

The walk and the map agree for any mean, also for one that has nothing to do with numbers. What the
walk keeps up is `Walked`: the points that were passed are averaged, the others are as they were,
and the value in hand is the one that the point passed last had before.

What the means themselves do is known of the arithmetic one, exactly computed. It counts the point
twice, so a straight line stays, and it lies between the values it averages, so no component of a
smoothed trace leaves the range of the trace. Single precision keeps neither exactly.

* `pass_eq`: one pass in place is the map, whatever mean is taken.
* `passes_eq`, `smooth_eq`: smoothing repeats the map, as often as the factor and the length say.
* `averaged_ramp`, `averaged_within`: computed exactly, the arithmetic mean leaves a straight
  line alone and goes neither above nor below what it averages.
* `smooth_averages`: all of it, for every trace and every factor.
-/

namespace NetworkAnalyzer.Smoothing

open NetworkAnalyzer.Fourier (foldl_invariant)

variable {α : Type} (mean : α → α → α → α)

/-- Every interior point replaced by the mean of its own and its two neighbours' values. -/
def averaged (x : List (Phasor α)) : List (Phasor α) :=
  x.mapIdx fun i z =>
    if h : 0 < i ∧ i + 1 < x.length then meanPhasor mean x[i - 1] z x[i + 1] else z

theorem length_averaged (x : List (Phasor α)) : (averaged mean x).length = x.length :=
  List.length_mapIdx

/-! ## One pass -/

section Pass

variable {n : Nat} {x : Vector (Phasor α) n}

/-- The walk stands before point `i + 1`: the points up to `i` are averaged and the others as they
were, and point `i` was `left`. -/
structure Walked (x : Vector (Phasor α) n) (i : Nat) (s : Phasor α × Vector (Phasor α) n) :
    Prop where
  left : x[i]? = some s.1
  done : ∀ j ≤ i, s.2[j]? = (averaged mean x.toList)[j]?
  rest : ∀ j, i < j → s.2[j]? = x[j]?

variable {mean}

theorem Walked.step {i : Nat} {s : Phasor α × Vector (Phasor α) n} (h : Walked mean x i s)
    (inside : i + 2 < n) : Walked mean x (i + 1) (step mean i inside s) := by
  obtain ⟨left, y⟩ := s
  have entry : ∀ j, i < j → ∀ hj : j < n, y[j] = x[j] := by
    intro j hij hj
    have hrest := h.rest j hij
    rwa [Vector.getElem?_eq_getElem hj, Vector.getElem?_eq_getElem hj, Option.some.injEq] at hrest
  obtain ⟨hi, rfl⟩ := Vector.getElem?_eq_some_iff.mp h.left
  have here : y[i + 1] = x[i + 1] := entry _ (Nat.lt_succ_self i) _
  have right : y[i + 2] = x[i + 2] := entry _ (by omega) _
  have hlen : i + 1 < n := Nat.lt_of_succ_lt inside
  refine ⟨?_, fun j hj => ?_, fun j hj => ?_⟩
  · simp [Smoothing.step, here]
  · rcases Nat.lt_succ_iff_lt_or_eq.mp (Nat.lt_succ_of_le hj) with hlt | rfl
    · refine (Vector.getElem?_set_ne hlen (Nat.ne_of_gt hlt)).trans ?_
      exact h.done j (Nat.le_of_lt_succ hlt)
    · simp [Smoothing.step, averaged, here, right, inside, Vector.getElem?_eq_getElem hlen]
  · refine (Vector.getElem?_set_ne hlen (Nat.ne_of_lt hj)).trans ?_
    exact h.rest j (Nat.lt_of_succ_lt hj)

theorem pass_eq (x : Vector (Phasor α) n) (long : 2 < n) :
    (pass mean x long).toList = averaged mean x.toList := by
  have hstart : Walked mean x 0 (x[0], x) := by
    refine ⟨?_, fun j hj => ?_, fun j _ => rfl⟩
    · exact Vector.getElem?_eq_getElem _
    · obtain rfl : j = 0 := Nat.le_zero.mp hj
      simp [averaged]
  have hall : Walked mean x (n - 2) _ :=
    foldl_invariant (Walked mean x) hstart fun i s h => h.step (by omega)
  -- the walk stands before the last point, which no pass changes
  refine List.ext_getElem? fun j => ?_
  rw [Vector.getElem?_toList]
  by_cases hj : j ≤ n - 2
  · exact hall.done j hj
  · refine (hall.rest j (by omega)).trans ?_
    have hend : ¬j + 1 < n := by omega
    simp [averaged, hend]

end Pass

/-! ## All passes -/

theorem iterate_eq {n : Nat} (long : 2 < n) (count : Nat) (x : Vector (Phasor α) n) :
    (iterate mean long count x).toList = (averaged mean)^[count] x.toList := by
  induction count generalizing x with
  | zero => rfl
  | succ count ih =>
    calc (iterate mean long (count + 1) x).toList
        = (averaged mean)^[count] (pass mean x long).toList := ih _
      _ = (averaged mean)^[count + 1] x.toList := by rw [pass_eq, Function.iterate_succ_apply]

theorem passes_eq (factor : UInt8) (length : Nat) :
    passes factor length = min (2 ^ (min factor.toNat 8 - 1)) (length - 2) := by
  have hfactor : (min factor Parameters.smoothFactorMax).toNat = min factor.toNat 8 := by
    change (if factor ≤ 8 then factor else 8).toNat = _
    split
    · rename_i hle
      exact (Nat.min_eq_left (UInt8.le_iff_toNat_le.mp hle)).symm
    · rename_i hgt
      exact (Nat.min_eq_right (Nat.le_of_not_le (mt UInt8.le_iff_toNat_le.mpr hgt))).symm
  rw [passes, Nat.one_shiftLeft, hfactor]

theorem smooth_eq (factor : UInt8) (x : List (Phasor α)) : smooth mean factor x =
    if factor = 0 ∨ x.length ≤ 2 then x
    else (averaged mean)^[min (2 ^ (min factor.toNat 8 - 1)) (x.length - 2)] x := by
  have hguard : (factor = 0 ∨ x.length ≤ 2) ↔ ¬(factor ≠ 0 ∧ 2 < x.length) := by
    rw [not_and_or, not_not, Nat.not_lt]
  unfold smooth
  split
  · rename_i h
    rw [if_neg (mt hguard.mp (not_not_intro h)), iterate_eq, passes_eq]
    rfl
  · rename_i h
    rw [if_pos (hguard.mpr h)]

/-! ## The arithmetic mean, computed exactly -/

section Exact

variable {K : Type} [Field K] [LinearOrder K] [IsStrictOrderedRing K]

theorem arithmeticMean_eq (u v w : K) : arithmeticMean u v w = (u + 2 * v + w) / 4 := by
  change (u + ((2 : ℕ) : K) * v + w) * (((25 : ℕ) : K) / 10 ^ 2) = _
  push_cast
  ring

def ramp (start slope : Phasor K) (n : Nat) : List (Phasor K) :=
  (List.range n).map fun i : Nat => start + Phasor.real (i : K) * slope

theorem averaged_ramp (start slope : Phasor K) (n : Nat) :
    averaged arithmeticMean (ramp start slope n) = ramp start slope n := by
  refine List.ext_getElem (length_averaged _ _) fun i hi hi' => (List.getElem_mapIdx ..).trans ?_
  split
  · rename_i h
    obtain ⟨j, rfl⟩ : ∃ j, i = j + 1 := ⟨i - 1, by omega⟩
    ext <;> simp [ramp, meanPhasor, arithmeticMean_eq, Phasor.real] <;> ring
  · rfl

/-- Every point of `y` lies, in the component `part`, between two points of `x`. -/
def Within (part : Phasor K → K) (x y : List (Phasor K)) : Prop :=
  ∀ z ∈ y, ∃ u ∈ x, ∃ v ∈ x, part u ≤ part z ∧ part z ≤ part v

variable {part : Phasor K → K} {x y z : List (Phasor K)}

omit [IsStrictOrderedRing K] in
theorem Within.refl (part : Phasor K → K) (x : List (Phasor K)) : Within part x x :=
  fun z hz => ⟨z, hz, z, hz, le_rfl, le_rfl⟩

omit [IsStrictOrderedRing K] in
theorem Within.trans (h : Within part x y) (h' : Within part y z) : Within part x z := by
  intro p hp
  obtain ⟨u, hu, v, hv, hlow, hhigh⟩ := h' p hp
  obtain ⟨u', hu', -, -, hlow', -⟩ := h u hu
  obtain ⟨-, -, v', hv', -, hhigh'⟩ := h v hv
  exact ⟨u', hu', v', hv', hlow'.trans hlow, hhigh.trans hhigh'⟩

theorem arithmeticMean_between (u v w : K) :
    (u ≤ arithmeticMean u v w ∨ v ≤ arithmeticMean u v w ∨ w ≤ arithmeticMean u v w) ∧
    (arithmeticMean u v w ≤ u ∨ arithmeticMean u v w ≤ v ∨ arithmeticMean u v w ≤ w) := by
  rw [arithmeticMean_eq]
  constructor <;> by_contra! h <;> linarith [h.1, h.2.1, h.2.2]

theorem averaged_within
    (hpart : ∀ u v w, part (meanPhasor arithmeticMean u v w) =
      arithmeticMean (part u) (part v) (part w)) (x : List (Phasor K)) :
    Within part x (averaged arithmeticMean x) := by
  intro z hz
  obtain ⟨i, hi, rfl⟩ := List.mem_mapIdx.mp hz
  split
  · rename_i h
    have hmem : ∀ j, ∀ hj : j < x.length, x[j] ∈ x := fun _ hj => List.getElem_mem hj
    obtain ⟨hlow, hhigh⟩ := arithmeticMean_between (part x[i - 1]) (part x[i]) (part x[i + 1])
    rw [← hpart] at hlow hhigh
    obtain ⟨u, hu, hbelow⟩ :
        ∃ u ∈ x, part u ≤ part (meanPhasor arithmeticMean x[i - 1] x[i] x[i + 1]) := by
      rcases hlow with h | h | h <;> exact ⟨_, hmem _ _, h⟩
    obtain ⟨v, hv, habove⟩ :
        ∃ v ∈ x, part (meanPhasor arithmeticMean x[i - 1] x[i] x[i + 1]) ≤ part v := by
      rcases hhigh with h | h | h <;> exact ⟨_, hmem _ _, h⟩
    exact ⟨u, hu, v, hv, hbelow, habove⟩
  · exact Within.refl part x _ (List.getElem_mem hi)

theorem smooth_within
    (hpart : ∀ u v w, part (meanPhasor arithmeticMean u v w) =
      arithmeticMean (part u) (part v) (part w)) (factor : UInt8) (x : List (Phasor K)) :
    Within part x (smooth arithmeticMean factor x) := by
  have hiterate : ∀ count, Within part x ((averaged arithmeticMean)^[count] x) := by
    intro count
    induction count with
    | zero => exact .refl part x
    | succ count ih =>
      rw [Function.iterate_succ_apply']
      exact ih.trans (averaged_within hpart _)
  rw [smooth_eq]
  split
  · exact .refl part x
  · exact hiterate _

/-- Smoothing repeats the out-of-place map, as often as the factor and the length of the trace say;
with a factor of zero or without interior points it changes nothing. Computed exactly, the
arithmetic mean leaves every straight line as it is, and no component of a smoothed trace lies
outside of those of the trace. -/
theorem smooth_averages (factor : UInt8) :
    (∀ {α : Type} (mean : α → α → α → α) (x : List (Phasor α)), smooth mean factor x =
      if factor = 0 ∨ x.length ≤ 2 then x
      else (averaged mean)^[min (2 ^ (min factor.toNat 8 - 1)) (x.length - 2)] x) ∧
    (∀ (start slope : Phasor K) (n : Nat),
      smooth arithmeticMean factor (ramp start slope n) = ramp start slope n) ∧
    ∀ x : List (Phasor K), Within Phasor.re x (smooth arithmeticMean factor x) ∧
      Within Phasor.im x (smooth arithmeticMean factor x) := by
  refine ⟨fun mean x => smooth_eq mean factor x, fun start slope n => ?_, fun x => ⟨?_, ?_⟩⟩
  · rw [smooth_eq, Function.iterate_fixed (averaged_ramp start slope n), ite_self]
  · exact smooth_within (fun _ _ _ => rfl) factor x
  · exact smooth_within (fun _ _ _ => rfl) factor x

/-- Two passes over an alternating trace, and over a straight line. -/
theorem smooth_averages_alternating :
    smooth arithmeticMean 2 ([0, 4, 0, 4, 0].map Phasor.real : List (Phasor ℚ)) =
      [0, 3 / 2, 2, 3 / 2, 0].map Phasor.real ∧
    smooth arithmeticMean 2 (ramp ⟨1, 0⟩ ⟨2, -1⟩ 4 : List (Phasor ℚ)) =
      [⟨1, 0⟩, ⟨3, -1⟩, ⟨5, -2⟩, ⟨7, -3⟩] := by
  obtain ⟨hrepeats, hramp, -⟩ := smooth_averages (K := ℚ) 2
  constructor
  · rw [hrepeats]
    decide +kernel
  · rw [hramp]
    decide +kernel

end Exact

end NetworkAnalyzer.Smoothing
