import NetworkAnalyzer.Proofs.Calibration.Lines

/-!
# Lines and harmonic bands

The terms jump where the harmonic band of the source changes, so a line should join two points of
one band. A bracket of points in different bands is moved by one point, to the side on which the
query's band lies, without a second look: whether the points it is moved to lie in one band is not
asked.

They do if bands are wider than a bracket, so that no two neighbouring brackets span a change of
bands (`WideBands`). Where one band ends and the next begins within two brackets, the moved bracket
may straddle the second change, and a line joins points of different bands after all.

The bands are a parameter here: any function from frequencies to numbers. Nothing is assumed of it,
in particular not that bands are intervals.

* `find_inBand_iff`: exactly when the points of a lookup lie in one band. It goes through the ways a
  lookup can end (`find_chosen`); the stored points are in one band trivially.
* `WideBands.nextInBand`: what wide bands say of the bracket that a query is moved to.
* `interpolate_inBand`: the same of every answer, and that wide bands suffice.
* `narrow_leaves_band`: a band of one point only, and a query just above that point.
-/

namespace NetworkAnalyzer

namespace Lookup

/-- The points of a line lie in one band. -/
def InBand (plan : FrequencyPlan) (band : UInt32 → UInt32) : Lookup → Prop
  | .stored _ => True
  | .line lower _ _ _ => ¬ Straddles plan band lower

/-- The bracket next to bracket `i` on the side that a query is moved to. -/
def NextInBand (plan : FrequencyPlan) (band : UInt32 → UInt32) (f : UInt32) (i : UInt16) : Prop :=
  if band f = band (plan.get i) then 0 < i.toNat → ¬ Straddles plan band (i - 1)
  else i.toNat + 2 < plan.points.toNat → ¬ Straddles plan band (i + 1)

variable {plan : FrequencyPlan} {band : UInt32 → UInt32} {f : UInt32}

/-- A line stays in a band exactly if its bracket lies in one, or the one it is moved to does. -/
theorem find_inBand_iff (plan : FrequencyPlan) (band : UInt32 → UInt32) (f : UInt32) :
    (find plan band f).InBand plan band ↔
      ∀ i, Between plan f i → Straddles plan band i → NextInBand plan band f i := by
  have hchosen := find_chosen plan band f
  generalize find plan band f = l at hchosen ⊢
  cases hchosen with
  | first h => exact iff_of_true trivial fun _ hi => absurd h hi.not_first
  | last _ _ hstop => exact iff_of_true trivial fun _ hi => absurd hstop hi.not_last
  | point _ heq => exact iff_of_true trivial fun _ hi => absurd heq hi.ne_get_bracket
  | kept h hband =>
    refine iff_of_true hband fun i hi hstraddles => ?_
    rw [h.unique hi] at hstraddles
    exact absurd hstraddles hband
  | @down j h hband hquery hpos =>
    have hnext : NextInBand plan band f j ↔ ¬ Straddles plan band (j - 1) := by
      unfold NextInBand
      rw [if_pos hquery]
      exact ⟨fun hside => hside hpos, fun hside _ => hside⟩
    exact ⟨fun hline i hi _ => h.unique hi ▸ hnext.mpr hline, fun hall => hnext.mp (hall j h hband)⟩
  | lowest h _ hquery =>
    refine iff_of_true trivial fun i hi _ => ?_
    rw [h.unique hi]
    unfold NextInBand
    rw [if_pos hquery]
    exact fun hpos => absurd hpos (Nat.lt_irrefl _)
  | @up j h hband hquery hmore =>
    have hnext : NextInBand plan band f j ↔ ¬ Straddles plan band (j + 1) := by
      unfold NextInBand
      rw [if_neg hquery]
      exact ⟨fun hside => hside hmore, fun hside _ => hside⟩
    exact ⟨fun hline i hi _ => h.unique hi ▸ hnext.mpr hline, fun hall => hnext.mp (hall j h hband)⟩
  | highest h _ hquery hend =>
    refine iff_of_true trivial fun i hi _ => ?_
    rw [h.unique hi]
    unfold NextInBand
    rw [if_neg hquery]
    exact fun hmore => absurd hmore (by omega)

/-- No two neighbouring brackets span a change of bands. -/
def WideBands (plan : FrequencyPlan) (band : UInt32 → UInt32) : Prop :=
  ∀ i : UInt16, i.toNat + 2 < plan.points.toNat → Straddles plan band i →
    ¬ Straddles plan band (i + 1)

theorem WideBands.nextInBand (h : WideBands plan band) {i : UInt16} (hi : Between plan f i)
    (hband : Straddles plan band i) : NextInBand plan band f i := by
  unfold NextInBand
  split
  · intro hpos hbelow
    have hprevious := toNat_last hpos
    have hnext := hi.next
    have hnone := h (i - 1) (by omega) hbelow
    rw [UInt16.sub_add_cancel] at hnone
    exact hnone hband
  · exact fun hmore => h i hmore hband

end Lookup

namespace Calibration

open Lookup

/-- An answer that combines two points combines points of one band, exactly if the bracket of the
query lies in one band or the bracket it is moved to does. With wide bands, every answer does. -/
theorem interpolate_inBand {α : Type} [Scalar α] {N : Nat} (c : Calibration α N) (hN : 0 < N)
    (hplan : c.plan.points.toNat ≤ N) (band : UInt32 → UInt32) (f : UInt32) :
    ∃ t, c.interpolate none f band = .ok t ∧ c.Answers (find c.plan band f) t ∧
      ((find c.plan band f).InBand c.plan band ↔
        ∀ i, Between c.plan f i → Straddles c.plan band i → NextInBand c.plan band f i) ∧
      (WideBands c.plan band → (find c.plan band f).InBand c.plan band) := by
  obtain ⟨t, ht, hanswers⟩ := c.interpolate_answers hN hplan band f
  refine ⟨t, ht, hanswers, find_inBand_iff c.plan band f, fun hwide => ?_⟩
  exact (find_inBand_iff c.plan band f).mpr fun _ hi hband => hwide.nextInBand hi hband

/-- Points every megahertz, of which the second differs from all others. -/
def spike : Calibration Float32 4 :=
  let one : Terms Float32 := .build fun _ => 1
  { status := .none, plan := ⟨1000000, 4000000, 4⟩, table := #v[.zero, one, .zero, .zero],
    saveSlot := 1 }

theorem interpolate_inBand_spike :
    0 < 4 ∧ spike.plan.points.toNat ≤ 4 ∧ WideBands spike.plan (bandsFrom 2500000) ∧
    ∃ t, spike.interpolate none 2250000 (bandsFrom 2500000) = .ok t ∧
      (find spike.plan (bandsFrom 2500000) 2250000).InBand spike.plan (bandsFrom 2500000) := by
  have hwide : WideBands spike.plan (bandsFrom 2500000) := by
    intro i hi
    have hcases : i = 0 ∨ i = 1 := by
      change i.toNat + 2 < 4 at hi
      simp only [← UInt16.toNat_inj, UInt16.reduceToNat]
      omega
    rcases hcases with rfl | rfl <;> decide
  obtain ⟨t, ht, -, -, hband⟩ :=
    interpolate_inBand spike (by decide) (by decide) (bandsFrom 2500000) 2250000
  exact ⟨by decide, by decide, hwide, t, ht, hband hwide⟩

/-- With a band around the second point only, a query just above that point is moved down, to the
line from the first point, which lies in another band. -/
theorem narrow_leaves_band :
    let band : UInt32 → UInt32 := fun f => if f < 1500000 then 0 else if f < 2500000 then 1 else 2
    find spike.plan band 2250000 = .line 0 250000 1000000 .down ∧
    band (spike.plan.get 0) = 0 ∧ band (spike.plan.get 1) = 1 ∧ band 2250000 = 1 ∧
    spike.interpolate none 2250000 band = .ok (.build fun _ => .real 1.25) := by
  decide

end Calibration

end NetworkAnalyzer
