import NetworkAnalyzer.Proofs.Calibration.Lookups
import NetworkAnalyzer.Proofs.Frequencies

/-!
# The bracket of a query

The bracket is found by proportion, while the points of a plan are rounded. Both agree: the point
the proportion gives is never above the query and its neighbour never below it, whatever the
range, the number of points and the remainder are. From this, all that a lookup can do.

The proportion is rounded down, a point is the whole number of hertz nearest to its share of the
range. The query is a whole number, too: a share that is not above it is not rounded above it, and
one that is above it is not rounded below it. So no search is needed (`get_bracket_le`,
`le_get_bracket`). A point that was rounded down is another matter, since the query at its
frequency lies below its share and is given the bracket that ends there
(`Proofs.Calibration.StoredPoints`).

* `Inside`: the query lies strictly between the ends of a plan with intervals. The other queries are
  answered from the first or the last point.
* `get_bracket_le`, `le_get_bracket`: the bracket encloses the query.
* `Between`: the query lies above the lower point of its bracket and not above the upper one. No
  other bracket has this property for it (`Between.unique`).
* `Between.next_le`: every point that is not below the query is the upper one or a later one.
* `Chosen`, `find_chosen`: the eight ways a lookup can end, with what is known of the query in
  each. The modules on interpolation are case splits over `Chosen` and never unfold a lookup.
-/

namespace NetworkAnalyzer.Lookup

open FrequencyPlan

/-- A frequency properly inside the plan, where it has a bracket. -/
structure Inside (plan : FrequencyPlan) (f : UInt32) : Prop where
  many : 1 < plan.points.toNat
  start : plan.start < f
  stop : f < plan.stop

/-- The query lies above point `i` and not above the next, and was found there. -/
structure Between (plan : FrequencyPlan) (f : UInt32) (i : UInt16) : Prop where
  inside : Inside plan f
  found : bracket plan f = i
  next : i.toNat + 1 < plan.points.toNat
  lower : plan.get i < f
  upper : f ≤ plan.get (i + 1)

section

variable {plan : FrequencyPlan} {f : UInt32}

namespace Inside

theorem start_lt (h : Inside plan f) : plan.start.toNat < f.toNat :=
  UInt32.lt_iff_toNat_lt.mp h.start

theorem lt_stop (h : Inside plan f) : f.toNat < plan.stop.toNat :=
  UInt32.lt_iff_toNat_lt.mp h.stop

theorem toNat_bracket (h : Inside plan f) : (bracket plan f).toNat =
    (f.toNat - plan.start.toNat) * (plan.points.toNat - 1) / plan.span.toNat := by
  rw [Lookup.toNat_bracket h.many h.start_lt h.lt_stop, toNat_span]

theorem bracket_lt (h : Inside plan f) : (bracket plan f).toNat + 1 < plan.points.toNat :=
  Lookup.bracket_lt h.many h.start_lt h.lt_stop

theorem span_pos (h : Inside plan f) : 0 < plan.span.toNat := by
  have hstart := h.start_lt
  have hstop := h.lt_stop
  rw [toNat_span]
  omega

theorem get_bracket_le (h : Inside plan f) : plan.get (bracket plan f) ≤ f := by
  have hlt := h.bracket_lt
  have hstart := h.start_lt
  have hq : plan.span.toNat * (bracket plan f).toNat ≤
      (f.toNat - plan.start.toNat) * (plan.points.toNat - 1) := by
    rw [h.toNat_bracket]
    exact Nat.mul_div_le _ _
  have hle := toNat_get_le (p := plan) (n := plan.points.toNat - 1) (by omega) (by omega)
    (by omega) hq
  rw [UInt32.le_iff_toNat_le]
  omega

theorem le_get_bracket (h : Inside plan f) : f ≤ plan.get (bracket plan f + 1) := by
  have hlt := h.bracket_lt
  have hstart := h.start_lt
  have hnext := toNat_next hlt
  have hq : (f.toNat - plan.start.toNat) * (plan.points.toNat - 1) ≤
      plan.span.toNat * (bracket plan f + 1).toNat := by
    rw [hnext, h.toNat_bracket]
    exact Nat.le_of_lt (Nat.lt_mul_div_succ _ h.span_pos)
  have hle := le_toNat_get (p := plan) (n := plan.points.toNat - 1) (by omega) (by omega)
    (by omega) hq
  rw [UInt32.le_iff_toNat_le]
  omega

/-- A query that is not the point found lies between that point and the next. -/
theorem between (h : Inside plan f) (hne : f ≠ plan.get (bracket plan f)) :
    Between plan f (bracket plan f) where
  inside := h
  found := rfl
  next := h.bracket_lt
  lower := UInt32.lt_of_le_of_ne h.get_bracket_le hne.symm
  upper := h.le_get_bracket

end Inside

namespace Between

variable {i j : UInt16}

theorem toNat_next (h : Between plan f i) : (i + 1).toNat = i.toNat + 1 :=
  Lookup.toNat_next h.next

theorem next_le (h : Between plan f i) (hle : f ≤ plan.get j) : (i + 1).toNat ≤ j.toNat := by
  rw [h.toNat_next]
  by_contra hlt
  have hmono := get_mono (p := plan) (i := j) (j := i) (by omega) (by have := h.next; omega)
  have hlower := h.lower
  exact absurd (UInt32.lt_of_lt_of_le hlower (UInt32.le_trans hle hmono)) (UInt32.lt_irrefl _)

theorem unique (hi : Between plan f i) (hj : Between plan f j) : j = i :=
  hj.found.symm.trans hi.found

theorem not_first (h : Between plan f i) : ¬ (plan.points.toNat ≤ 1 ∨ f ≤ plan.start) := by
  rintro (hone | hle)
  · exact absurd h.inside.many (Nat.not_lt.mpr hone)
  · exact absurd (UInt32.lt_of_lt_of_le h.inside.start hle) (UInt32.lt_irrefl _)

theorem not_last (h : Between plan f i) : ¬ plan.stop ≤ f := fun hle =>
  absurd (UInt32.lt_of_lt_of_le h.inside.stop hle) (UInt32.lt_irrefl _)

theorem ne_get_bracket (h : Between plan f i) : f ≠ plan.get (bracket plan f) := by
  rw [h.found]
  exact (UInt32.ne_of_lt h.lower).symm

end Between

end

/-- The ends of interval `i` lie in different bands, so nothing is interpolated across it. -/
def Straddles (plan : FrequencyPlan) (band : UInt32 → UInt32) (i : UInt16) : Prop :=
  band (plan.get i) ≠ band (plan.get (i + 1))

instance (plan : FrequencyPlan) (band : UInt32 → UInt32) (i : UInt16) :
    Decidable (Straddles plan band i) :=
  inferInstanceAs (Decidable (band (plan.get i) ≠ band (plan.get (i + 1))))

/-- What a lookup can end in, and what it says of the query. -/
inductive Chosen (plan : FrequencyPlan) (band : UInt32 → UInt32) (f : UInt32) : Lookup → Prop
  /-- The plan has no interval, or the query is not above its range. -/
  | first (h : plan.points.toNat ≤ 1 ∨ f ≤ plan.start) : Chosen plan band f (.stored 0)
  /-- The query is not below the end of the range. -/
  | last (hmany : 1 < plan.points.toNat) (hstart : plan.start < f) (hstop : plan.stop ≤ f) :
      Chosen plan band f (.stored (plan.points - 1))
  /-- The query is the point found. -/
  | point (h : Inside plan f) (heq : f = plan.get (bracket plan f)) :
      Chosen plan band f (.stored (bracket plan f))
  /-- The bracket lies in one band. -/
  | kept {i : UInt16} (h : Between plan f i) (hband : ¬ Straddles plan band i) :
      Chosen plan band f (.line i (f - plan.get i) (plan.get (i + 1) - plan.get i) .none)
  /-- Moved down, into the band of the lower point. -/
  | down {i : UInt16} (h : Between plan f i) (hband : Straddles plan band i)
      (hquery : band f = band (plan.get i)) (hi : 0 < i.toNat) :
      Chosen plan band f (.line (i - 1) (f - plan.get i) (plan.get (i + 1) - plan.get i) .down)
  /-- There is no bracket below. -/
  | lowest (h : Between plan f 0) (hband : Straddles plan band 0)
      (hquery : band f = band (plan.get 0)) : Chosen plan band f (.stored 0)
  /-- Moved up. -/
  | up {i : UInt16} (h : Between plan f i) (hband : Straddles plan band i)
      (hquery : band f ≠ band (plan.get i)) (hi : i.toNat + 2 < plan.points.toNat) :
      Chosen plan band f (.line (i + 1) (f - plan.get i) (plan.get (i + 1) - plan.get i) .up)
  /-- There is no bracket above. -/
  | highest {i : UInt16} (h : Between plan f i) (hband : Straddles plan band i)
      (hquery : band f ≠ band (plan.get i)) (hi : i.toNat + 2 = plan.points.toNat) :
      Chosen plan band f (.stored (plan.points - 1))

variable {plan : FrequencyPlan} {f : UInt32}

theorem ofBracket_chosen (band : UInt32 → UInt32) {i : UInt16} (h : Between plan f i) :
    Chosen plan band f (ofBracket plan band f i) := by
  have hnext := h.next
  have hlast := toNat_last (n := plan.points) (by omega)
  have hsucc := h.toNat_next
  unfold ofBracket
  dsimp only
  split
  · rename_i hsame
    exact .kept h (not_not_intro hsame)
  · rename_i hband
    split
    · rename_i hquery
      split
      · rename_i hi
        subst hi
        exact .lowest h hband hquery.symm
      · rename_i hi
        exact .down h hband hquery.symm (toNat_pos hi)
    · rename_i hquery
      split
      · rename_i hend
        rw [UInt16.le_iff_toNat_le] at hend
        exact .highest h hband (Ne.symm hquery) (by omega)
      · rename_i hend
        rw [UInt16.le_iff_toNat_le] at hend
        exact .up h hband (Ne.symm hquery) (by omega)

/-- All that a lookup can end in. -/
theorem find_chosen (plan : FrequencyPlan) (band : UInt32 → UInt32) (f : UInt32) :
    Chosen plan band f (find plan band f) := by
  unfold find
  split
  · rename_i hfirst
    rw [Bool.or_eq_true, decide_eq_true_iff, decide_eq_true_iff, UInt16.le_iff_toNat_le] at hfirst
    exact .first hfirst
  · rename_i hinside
    obtain ⟨hmany, hstart⟩ := above_start hinside
    split
    · rename_i hstop
      exact .last hmany hstart hstop
    · rename_i hstop
      have h : Inside plan f := ⟨hmany, hstart, UInt32.not_le.mp hstop⟩
      dsimp only
      split
      · rename_i heq
        exact .point h heq
      · rename_i hne
        exact ofBracket_chosen band (h.between hne)

end NetworkAnalyzer.Lookup
