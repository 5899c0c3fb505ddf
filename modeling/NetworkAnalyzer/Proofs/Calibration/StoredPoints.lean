import NetworkAnalyzer.Proofs.Calibration.Lines

/-!
# Queries at stored points

A query at the frequency of a stored point finds the bracket above that point, and takes the point
as it is, or it finds the bracket below, and computes. Which of them depends on the rounding of the
plan: the proportion falls short of a point that was rounded down.

A point is the whole number of hertz nearest to its share of the range. A plan of 0 to 10 Hz with
four points has points at 0, 3, 7 and 10 Hz, of which the second was rounded down and the third
rounded up. The query at 7 Hz finds the third point and copies it; the query at 3 Hz lies below its
share, the proportion falls short of one interval, and the bracket from 0 Hz to 3 Hz is found.

What is computed instead ends at the point: the position is one, or zero after a shift up
(`coefficient_end`, `coefficient_end_up`). In exact numbers this returns the stored terms. In single
precision it adds a rounded difference to the terms of the neighbour, which need not give them back.

* `Meets`, `bracket_eq_iff`: the proportion meets a frequency exactly if some point was given it
  without being rounded down.
* `meets_of_dvd`: where the intervals divide the range, all are met. So are the two ends
  (`meets_get_zero`, `meets_stop`).
* `AtPoint`, `find_point`: what a lookup at the frequency of a stored point can end in.
* `interpolate_point`: a frequency that is met is copied from its point. Any other is computed, at
  the upper end of the bracket below it or, if that bracket spans two bands, at the lower end of
  the one above.
* `steep_not_copied`: what is computed need not be what is stored.
-/

namespace NetworkAnalyzer

namespace FrequencyPlan

/-- Some point of this frequency was not rounded down to it. -/
def Meets (p : FrequencyPlan) (f : UInt32) : Prop :=
  ∃ j, j.toNat < p.points.toNat ∧ p.get j = f ∧ ¬ p.RoundedDown j

/-- Where the intervals divide the range, every point is met. -/
theorem meets_of_dvd {p : FrequencyPlan} {i : UInt16} (hi : i.toNat < p.points.toNat)
    (hdvd : p.points.toNat - 1 ∣ p.span.toNat) : p.Meets (p.get i) := by
  refine ⟨i, hi, rfl, Nat.not_lt.mpr ?_⟩
  rcases Nat.eq_zero_or_pos (p.points.toNat - 1) with hone | hn
  · rw [show i.toNat = 0 by omega]
    exact Nat.zero_le _
  · obtain ⟨q, hq⟩ := hdvd
    have hshare : p.span.toNat * i.toNat + (p.points.toNat - 1) / 2 =
        (p.points.toNat - 1) / 2 + (p.points.toNat - 1) * (q * i.toNat) := by
      rw [hq, Nat.mul_assoc, Nat.add_comm]
    rw [toNat_get (n := p.points.toNat - 1) (by omega) hn (by omega), hshare,
      Nat.add_mul_div_left _ _ hn, Nat.div_eq_of_lt (by omega), Nat.zero_add,
      Nat.add_sub_cancel_left, hq, Nat.mul_comm _ (p.points.toNat - 1), Nat.mul_assoc]

end FrequencyPlan

namespace Lookup

variable {plan : FrequencyPlan} {f : UInt32}

theorem Inside.meets_of_bracket (h : Inside plan f) (heq : plan.get (bracket plan f) = f) :
    plan.Meets f := by
  have hlt := h.bracket_lt
  refine ⟨_, by omega, heq, Nat.not_lt.mpr ?_⟩
  rw [heq, h.toNat_bracket]
  exact Nat.mul_div_le _ _

/-- The proportion meets the frequencies of points that were not rounded down. -/
theorem Inside.bracket_eq_iff (h : Inside plan f) :
    plan.get (bracket plan f) = f ↔ plan.Meets f := by
  refine ⟨h.meets_of_bracket, ?_⟩
  rintro ⟨j, hj, rfl, hround⟩
  have hle : j.toNat ≤ (bracket plan (plan.get j)).toNat := by
    rw [h.toNat_bracket, Nat.le_div_iff_mul_le h.span_pos, Nat.mul_comm]
    exact Nat.not_lt.mp hround
  exact UInt32.le_antisymm h.get_bracket_le
    (FrequencyPlan.get_mono hle (Nat.lt_of_succ_lt h.bracket_lt))

theorem Between.not_meets {i : UInt16} (h : Between plan f i) : ¬ plan.Meets f := by
  rw [← h.inside.bracket_eq_iff, h.found]
  exact UInt32.ne_of_lt h.lower

/-- At the frequency of a stored point, that frequency is the upper end of the bracket. -/
theorem Between.get_next {i j : UInt16} (h : Between plan (plan.get i) j)
    (hi : i.toNat < plan.points.toNat) : plan.get (j + 1) = plan.get i :=
  UInt32.le_antisymm (FrequencyPlan.get_mono (h.next_le (UInt32.le_refl _)) hi) h.upper

/-- What a lookup at the frequency of a stored point can end in. -/
inductive AtPoint (plan : FrequencyPlan) (band : UInt32 → UInt32) (f : UInt32) : Lookup → Prop
  /-- A point of this frequency. -/
  | met {j : UInt16} (hmeets : plan.Meets f) (hj : j.toNat < plan.points.toNat)
      (heq : plan.get j = f) : AtPoint plan band f (.stored j)
  /-- The upper end of the bracket below. -/
  | upper {j : UInt16} (h : Between plan f j) (heq : plan.get (j + 1) = f)
      (hband : ¬ Straddles plan band j) :
      AtPoint plan band f (.line j (f - plan.get j) (f - plan.get j) .none)
  /-- The lower end of the bracket above. -/
  | lower {j : UInt16} (h : Between plan f j) (heq : plan.get (j + 1) = f)
      (hband : Straddles plan band j) (hj : j.toNat + 2 < plan.points.toNat) :
      AtPoint plan band f (.line (j + 1) (f - plan.get j) (f - plan.get j) .up)

theorem meets_get_zero (h : 0 < plan.points.toNat) : plan.Meets (plan.get 0) :=
  ⟨0, h, rfl, by simp [FrequencyPlan.RoundedDown]⟩

theorem meets_stop (hmany : 1 < plan.points.toNat) (hrange : plan.start ≤ plan.stop) :
    plan.get (plan.points - 1) = plan.stop ∧ plan.Meets plan.stop := by
  have hlast := toNat_last (n := plan.points) (by omega)
  have hget := FrequencyPlan.get_last (i := plan.points - 1) hmany hrange (by omega)
  refine ⟨hget, plan.points - 1, by omega, hget, ?_⟩
  unfold FrequencyPlan.RoundedDown
  rw [hget, hlast, FrequencyPlan.toNat_span]
  exact Nat.lt_irrefl _

theorem find_point {i : UInt16} (hi : i.toNat < plan.points.toNat) (hrange : plan.start ≤ plan.stop)
    (band : UInt32 → UInt32) : AtPoint plan band (plan.get i) (find plan band (plan.get i)) := by
  have hchosen := find_chosen plan band (plan.get i)
  have hstart := FrequencyPlan.get_zero plan
  generalize find plan band (plan.get i) = l at hchosen ⊢
  cases hchosen with
  | first h =>
    have heq : plan.get 0 = plan.get i := by
      rcases h with hone | hle
      · rw [hstart, FrequencyPlan.get_of_le_one hone]
      · exact UInt32.le_antisymm (hstart ▸ FrequencyPlan.start_le_get hi) (hstart ▸ hle)
    exact .met (heq ▸ meets_get_zero (Nat.zero_lt_of_lt hi)) (Nat.zero_lt_of_lt hi) heq
  | last hmany _ hstop =>
    obtain ⟨hget, hmeets⟩ := meets_stop hmany hrange
    have hlast := toNat_last (n := plan.points) (by omega)
    have heq : plan.stop = plan.get i := UInt32.le_antisymm hstop
      (hget ▸ FrequencyPlan.get_mono (by omega) (by omega))
    exact .met (heq ▸ hmeets) (by omega) (heq ▸ hget)
  | point h heq => exact .met (h.meets_of_bracket heq.symm) (Nat.lt_of_succ_lt h.bracket_lt) heq.symm
  | kept h hband =>
    rw [h.get_next hi]
    exact .upper h (h.get_next hi) hband
  | down h hband hquery _ => exact absurd (h.get_next hi ▸ hquery.symm) hband
  | lowest h hband hquery => exact absurd (h.get_next hi ▸ hquery.symm) hband
  | up h hband _ hj =>
    rw [h.get_next hi]
    exact .lower h (h.get_next hi) hband hj
  | @highest j h _ _ hj =>
    -- The upper end of the last bracket is the stop, which the query lies below.
    have hnext := h.toNat_next
    have hlast := FrequencyPlan.get_last (i := j + 1) (by omega) hrange (by omega)
    have hstop := h.inside.stop
    rw [← h.get_next hi, hlast] at hstop
    exact absurd hstop (UInt32.lt_irrefl _)

theorem coefficient_end {width : UInt32} (hwidth : 0 < width.toNat) :
    (coefficient width width .none : Float32) = 1 := by
  rw [coefficient_eq hwidth]
  exact SinglePrecision.quotient_self hwidth width.toNat_lt

theorem coefficient_end_up {width : UInt32} (hwidth : 0 < width.toNat) :
    (coefficient width width .up : Float32) = 0 := by
  rw [coefficient_eq hwidth]
  change (Scalar.ofNat width.toNat / Scalar.ofNat width.toNat - 1 : Float32) = 0
  rw [SinglePrecision.quotient_self hwidth width.toNat_lt]
  decide

end Lookup

namespace Calibration

open Lookup

variable {N : Nat}

/-- At the frequency of a stored point, the terms are copied from a point of that frequency if one
of them was not rounded down. Otherwise they are computed from two points, one of which has that
frequency. -/
theorem interpolate_point (c : Calibration Float32 N) (hplan : c.plan.points.toNat ≤ N)
    (hrange : c.plan.start ≤ c.plan.stop) {i : UInt16} (hi : i.toNat < c.plan.points.toNat)
    (band : UInt32 → UInt32) :
    ∃ t, c.interpolate none (c.plan.get i) band = .ok t ∧
      (c.plan.Meets (c.plan.get i) → ∃ j, j.toNat < c.plan.points.toNat ∧
        c.plan.get j = c.plan.get i ∧ find c.plan band (c.plan.get i) = .stored j ∧
        c.termsAt j.toNat = .ok t) ∧
      (¬ c.plan.Meets (c.plan.get i) → ∃ j, j.toNat + 1 < c.plan.points.toNat ∧
        c.plan.get j < c.plan.get i ∧ c.plan.get (j + 1) = c.plan.get i ∧
        if Straddles c.plan band j then c.OnLine (j.toNat + 1) 0 t else c.OnLine j.toNat 1 t) := by
  have hpoints := Nat.zero_lt_of_lt hi
  obtain ⟨t, ht, hanswers⟩ :=
    c.interpolate_answers (Nat.lt_of_lt_of_le hpoints hplan) hplan band (c.plan.get i)
  refine ⟨t, ht, ?_⟩
  have hat := find_point hi hrange band
  generalize find c.plan band (c.plan.get i) = l at hat hanswers ⊢
  cases hat with
  | @met j hmeets hj heq =>
    exact ⟨fun _ => ⟨j, hj, heq, rfl, hanswers⟩, fun hnot => absurd hmeets hnot⟩
  | @upper j h heq hband =>
    refine ⟨fun hmeets => absurd hmeets h.not_meets, fun _ => ?_⟩
    have hline : c.OnLine j.toNat (coefficient _ _ .none) t := hanswers
    rw [coefficient_end h.offset_pos] at hline
    exact ⟨j, h.next, h.lower, heq, (if_neg hband).mpr hline⟩
  | @lower j h heq hband hj =>
    refine ⟨fun hmeets => absurd hmeets h.not_meets, fun _ => ?_⟩
    have hline : c.OnLine (j + 1).toNat (coefficient _ _ .up) t := hanswers
    rw [coefficient_end_up h.offset_pos, h.toNat_next] at hline
    exact ⟨j, h.next, h.lower, heq, (if_pos hband).mpr hline⟩

/-- Four points over ten hertz: at 0, 3, 7 and 10, of which the second was rounded down. A large
value stands before a small one. -/
def steep : Calibration Float32 4 :=
  let large : Terms Float32 := .build fun _ => .real 100000000
  let one : Terms Float32 := .build fun _ => 1
  { status := .none, plan := ⟨0, 10, 4⟩, table := #v[large, one, .zero, .zero], saveSlot := 1 }

theorem interpolate_point_steep :
    steep.plan.points.toNat ≤ 4 ∧ steep.plan.start ≤ steep.plan.stop ∧
    (2 : UInt16).toNat < steep.plan.points.toNat ∧ steep.plan.Meets (steep.plan.get 2) ∧
    ∃ t, steep.interpolate none (steep.plan.get 2) id = .ok t ∧
      ∃ j, steep.plan.get j = steep.plan.get 2 ∧ steep.termsAt j.toNat = .ok t := by
  have hmeets : steep.plan.Meets (steep.plan.get 2) := ⟨2, by decide, rfl, by decide⟩
  obtain ⟨t, ht, hcopied, -⟩ :=
    interpolate_point steep (by decide) (by decide) (i := 2) (by decide) id
  obtain ⟨j, -, heq, -, hterms⟩ := hcopied hmeets
  exact ⟨by decide, by decide, by decide, hmeets, t, ht, j, heq, hterms⟩

/-- At the second point, the difference to the first is rounded, and nothing is left of the one
stored there. -/
theorem steep_not_copied :
    steep.plan.get 1 = 3 ∧
    ∃ t, steep.interpolate none 3 (fun _ => 0) = .ok t ∧
      ∀ j, j.toNat < steep.plan.points.toNat → steep.plan.get j = 3 →
        steep.termsAt j.toNat ≠ .ok t := by
  refine ⟨by decide, .build fun _ => 0, by decide, fun j hj heq => ?_⟩
  have hcases : j = 0 ∨ j = 1 ∨ j = 2 ∨ j = 3 := by
    change j.toNat < 4 at hj
    simp only [← UInt16.toNat_inj, UInt16.reduceToNat]
    omega
  rcases hcases with rfl | rfl | rfl | rfl
  · exact absurd heq (by decide)
  · decide
  · exact absurd heq (by decide)
  · exact absurd heq (by decide)

end Calibration

end NetworkAnalyzer
