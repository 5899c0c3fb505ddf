import Mathlib.Algebra.Order.AbsoluteValue.Basic
import Mathlib.Tactic.LinearCombination
import NetworkAnalyzer.Proofs.Calibration.Lines

/-!
# Affine terms

Terms that change with the frequency in a straight line are what interpolation is made for: `affine
a b` has the value `a` at zero hertz and changes by `b` per hertz. Exactly computed, a lookup
returns them at every frequency of the range, as long as it stays in the bracket of the query.

A bracket that was moved is another matter. Its position is still counted from where the query lay
in the bracket it came from, in widths of that bracket, and then moved by one. The bracket it is
moved to may be one hertz wider or narrower, because the points of a plan are rounded
(`abs_interval_sub_le`). The line is then evaluated up to one hertz beside the query, and the
answer is off by what the terms change in one hertz, and by no more.

* `onLine_affine`: a line through two affine points is affine, with the frequency at which it is
  evaluated written out.
* `affine_near`: affine terms at two frequencies that are at most one hertz apart are `Near`.
* `line_kept`, `line_down`, `line_up`: the frequency at which a line is evaluated, from the position
  of the query and the widths of the two brackets.
* `Affine.kept`, `Affine.near_down`, `Affine.near_up`: what follows for each way a bracket can be
  moved.
* `interpolate_affine`: what a lookup makes of affine terms, in and outside the range. Below and
  above the range they are not continued: the terms of the first or the last point are taken.
* `interpolate_affine_ramp`: a bracket of 4 Hz that is moved down to one of 3 Hz.
-/

namespace NetworkAnalyzer

variable {K : Type} [Field K] [LinearOrder K]

namespace Terms

def affine (a b : Terms K) (x : K) : Terms K := .build fun s => a.get s + (b.get s).scale x

/-- Within the terms of one hertz: in no slot the difference is larger than `b`. -/
def Near (b t u : Terms K) : Prop := ∀ s, (t.get s - u.get s).normSq ≤ (b.get s).normSq

theorem onLine_affine (a b : Terms K) (x y k : K) :
    (affine a b x).onLine (affine a b y) k = affine a b (x + (y - x) * k) := by
  apply Slots.ext_get
  intro s
  unfold onLine affine
  rw [Slots.get_build, Slots.get_build, Slots.get_build, Slots.get_build]
  ext
  · simp only [Phasor.add_re, Phasor.sub_re, Phasor.scale_re]
    ring
  · simp only [Phasor.add_im, Phasor.sub_im, Phasor.scale_im]
    ring

variable [IsStrictOrderedRing K]

theorem affine_near (a b : Terms K) {x y : K} (h : |y - x| ≤ 1) :
    Near b (affine a b y) (affine a b x) := by
  intro s
  have hsq : (y - x) * (y - x) ≤ 1 := by
    rw [← abs_mul_abs_self]
    exact mul_le_one₀ h (abs_nonneg _) h
  have hdiff : ((affine a b y).get s - (affine a b x).get s).normSq =
      (b.get s).normSq * ((y - x) * (y - x)) := by
    unfold affine Phasor.normSq
    simp only [Slots.get_build, Phasor.sub_re, Phasor.sub_im, Phasor.add_re, Phasor.add_im,
      Phasor.scale_re, Phasor.scale_im]
    ring
  have hnonneg : 0 ≤ (b.get s).normSq := add_nonneg (mul_self_nonneg _) (mul_self_nonneg _)
  rw [hdiff]
  exact mul_le_of_le_one_right hnonneg hsq

end Terms

/-! ## Where a line is evaluated -/

section

variable [IsStrictOrderedRing K]

namespace FrequencyPlan

variable {p : FrequencyPlan} {n : Nat} (hp : p.points.toNat = n + 1) (hn : 0 < n)
include hp hn

omit [IsStrictOrderedRing K] in
theorem interval_cases {i j : UInt16} (hj : j.toNat = i.toNat + 1) (hjn : j.toNat ≤ n) :
    ((p.get j).toNat - (p.get i).toNat : K) = (p.span.toNat / n : Nat) ∨
      ((p.get j).toNat - (p.get i).toNat : K) = (p.span.toNat / n : Nat) + 1 := by
  rcases get_succ_cases hp hn hj hjn with h | h
  · left
    rw [h, Nat.cast_add, add_sub_cancel_left]
  · right
    rw [h, Nat.cast_add, Nat.cast_add, Nat.cast_one, add_assoc, add_sub_cancel_left]

/-- Any two intervals of a plan differ by at most one hertz. -/
theorem abs_interval_sub_le {i j k l : UInt16} (hj : j.toNat = i.toNat + 1) (hjn : j.toNat ≤ n)
    (hl : l.toNat = k.toNat + 1) (hln : l.toNat ≤ n) :
    |((p.get l).toNat - (p.get k).toNat : K) - ((p.get j).toNat - (p.get i).toNat)| ≤ 1 := by
  rw [abs_le]
  rcases interval_cases (K := K) hp hn hj hjn with hij | hij <;>
    rcases interval_cases (K := K) hp hn hl hln with hkl | hkl <;>
    constructor <;> linarith

end FrequencyPlan

section

variable {x y f κ : K} (hκ : κ * (y - x) = f - x) (h0 : 0 ≤ κ) (h1 : κ ≤ 1)
include hκ

theorem line_kept : x + (y - x) * κ = f := by linear_combination hκ

include h0 h1

theorem line_down {w : K} (h : |(x - w) - (y - x)| ≤ 1) : |w + (x - w) * (κ + 1) - f| ≤ 1 := by
  have hoff : w + (x - w) * (κ + 1) - f = ((x - w) - (y - x)) * κ := by linear_combination hκ
  rw [hoff, abs_mul, abs_of_nonneg h0]
  exact mul_le_one₀ h h0 h1

theorem line_up {z : K} (h : |(z - y) - (y - x)| ≤ 1) : |y + (z - y) * (κ - 1) - f| ≤ 1 := by
  have hoff : y + (z - y) * (κ - 1) - f = ((z - y) - (y - x)) * (κ - 1) := by
    linear_combination hκ
  have hposition : |κ - 1| ≤ 1 := by
    rw [abs_le]
    constructor <;> linarith
  rw [hoff, abs_mul]
  exact mul_le_one₀ h (abs_nonneg _) hposition

end

/-- The position of a query in its bracket, before the bracket is moved. -/
theorem Lookup.Between.exists_position {plan : FrequencyPlan} {f : UInt32} {i : UInt16}
    (h : Between plan f i) :
    ∃ κ : K, κ * ((plan.get (i + 1)).toNat - (plan.get i).toNat) = f.toNat - (plan.get i).toNat ∧
      0 ≤ κ ∧ κ ≤ 1 ∧ ∀ shift : BandShift,
        coefficient (f - plan.get i) (plan.get (i + 1) - plan.get i) shift = shift.moved κ := by
  have hlower := UInt32.le_of_lt h.lower
  have hle := UInt32.le_trans hlower h.upper
  have hwidth := Nat.lt_of_lt_of_le h.offset_pos h.offset_le
  have hne : ((plan.get (i + 1)).toNat - (plan.get i).toNat : K) ≠ 0 := by
    rw [← Nat.cast_sub (UInt32.le_iff_toNat_le.mp hle), ← UInt32.toNat_sub_of_le _ _ hle]
    exact Nat.cast_ne_zero.mpr hwidth.ne'
  obtain ⟨hpos, hone⟩ := coefficient_exact (K := K) h.offset_pos h.offset_le .none
  refine ⟨_, ?_, hpos.le, hone, fun shift => ?_⟩
  · rw [coefficient_eq hwidth]
    change (((f - plan.get i).toNat : Nat) : K) / (plan.get (i + 1) - plan.get i).toNat * _ = _
    rw [UInt32.toNat_sub_of_le _ _ hlower, UInt32.toNat_sub_of_le _ _ hle,
      Nat.cast_sub (UInt32.le_iff_toNat_le.mp hlower), Nat.cast_sub (UInt32.le_iff_toNat_le.mp hle),
      div_mul_cancel₀ _ hne]
  · rw [coefficient_eq hwidth, coefficient_eq hwidth]
    rfl

end

/-! ## What a lookup makes of affine terms -/

namespace Calibration

open Lookup

variable {N : Nat} {c : Calibration K N} {a b : Terms K}

/-- The tables hold `a` and `b` per hertz, at the frequencies of the plan. -/
def Affine (c : Calibration K N) (a b : Terms K) : Prop :=
  ∀ i : UInt16, i.toNat < c.plan.points.toNat →
    c.termsAt i.toNat = .ok (.affine a b (c.plan.get i).toNat)

theorem Affine.stored (h : c.Affine a b) {i : UInt16} (hi : i.toNat < c.plan.points.toNat)
    {t : Terms K} (ht : c.termsAt i.toNat = .ok t) : t = .affine a b (c.plan.get i).toNat :=
  Except.ok.inj (ht.symm.trans (h i hi))

theorem Affine.onLine (h : c.Affine a b) {i : UInt16} (hi : i.toNat + 1 < c.plan.points.toNat)
    {k : K} {t : Terms K} (ht : c.OnLine i.toNat k t) :
    t = .affine a b ((c.plan.get i).toNat +
      ((c.plan.get (i + 1)).toNat - (c.plan.get i).toNat) * k) := by
  obtain ⟨lower, upper, hlower, hupper, rfl⟩ := ht
  have hnext := toNat_next hi
  rw [← hnext] at hi hupper
  rw [h.stored (by omega) hlower, h.stored hi hupper, Terms.onLine_affine]

variable [IsStrictOrderedRing K]

section

variable {f : UInt32} {i : UInt16} {t : Terms K} (h : c.Affine a b) (hf : Between c.plan f i)
include h hf

theorem Affine.kept (ht : c.OnLine i.toNat
      (coefficient (f - c.plan.get i) (c.plan.get (i + 1) - c.plan.get i) .none) t) :
    t = .affine a b f.toNat := by
  obtain ⟨κ, hκ, -, -, hcoefficient⟩ := hf.exists_position (K := K)
  rw [hcoefficient] at ht
  rw [h.onLine hf.next ht]
  exact congrArg _ (line_kept hκ)

theorem Affine.near_down (hi : 0 < i.toNat) (ht : c.OnLine (i - 1).toNat
      (coefficient (f - c.plan.get i) (c.plan.get (i + 1) - c.plan.get i) .down) t) :
    Terms.Near b t (.affine a b f.toNat) := by
  obtain ⟨κ, hκ, h0, h1, hcoefficient⟩ := hf.exists_position (K := K)
  have hprevious := toNat_last hi
  have hnext := hf.next
  have hinterval := FrequencyPlan.abs_interval_sub_le (K := K) (p := c.plan)
    (n := c.plan.points.toNat - 1) (by omega) (by omega) hf.toNat_next
    (by rw [hf.toNat_next]; omega) (k := i - 1) (l := i) (by omega) (by omega)
  rw [hcoefficient] at ht
  rw [h.onLine (by omega) ht, UInt16.sub_add_cancel]
  exact Terms.affine_near a b (line_down hκ h0 h1 hinterval)

theorem Affine.near_up (hi : i.toNat + 2 < c.plan.points.toNat) (ht : c.OnLine (i + 1).toNat
      (coefficient (f - c.plan.get i) (c.plan.get (i + 1) - c.plan.get i) .up) t) :
    Terms.Near b t (.affine a b f.toNat) := by
  obtain ⟨κ, hκ, h0, h1, hcoefficient⟩ := hf.exists_position (K := K)
  have hnext := hf.toNat_next
  have hsecond : (i + 1 + 1).toNat = (i + 1).toNat + 1 :=
    toNat_next (n := c.plan.points) (by omega)
  have hinterval := FrequencyPlan.abs_interval_sub_le (K := K) (p := c.plan)
    (n := c.plan.points.toNat - 1) (by omega) (by omega) hnext (by omega) hsecond (by omega)
  rw [hcoefficient] at ht
  rw [h.onLine (by omega) ht]
  exact Terms.affine_near a b (line_up hκ h0 h1 hinterval)

end

/-- Affine terms are returned exactly where the bracket is not moved. Where it is moved they are
off by the terms of one hertz at most, and at the ends of the table those of the end are taken. -/
theorem interpolate_affine (h : c.Affine a b) (hmany : 1 < c.plan.points.toNat)
    (hplan : c.plan.points.toNat ≤ N) (band : UInt32 → UInt32) {f : UInt32}
    (hstart : c.plan.start ≤ f) (hstop : f ≤ c.plan.stop) :
    ∃ t, c.interpolate none f band = .ok t ∧
      ((∀ i, Between c.plan f i → ¬ Straddles c.plan band i) → t = .affine a b f.toNat) ∧
      ∀ i, Between c.plan f i → Straddles c.plan band i →
        if band f = band (c.plan.get i) then
          if i = 0 then c.termsAt 0 = .ok t else Terms.Near b t (.affine a b f.toNat)
        else
          if i.toNat + 2 = c.plan.points.toNat then c.termsAt (c.plan.points.toNat - 1) = .ok t
          else Terms.Near b t (.affine a b f.toNat) := by
  obtain ⟨t, ht, hanswers⟩ := c.interpolate_answers (by omega) hplan band f
  refine ⟨t, ht, ?_⟩
  have hlast := toNat_last (n := c.plan.points) (by omega)
  have hchosen := find_chosen c.plan band f
  generalize find c.plan band f = l at hchosen hanswers
  cases hchosen with
  | first hfirst =>
    have heq : c.plan.get 0 = f := by
      rw [FrequencyPlan.get_zero]
      exact UInt32.le_antisymm hstart (hfirst.resolve_left (Nat.not_le.mpr hmany))
    refine ⟨fun _ => ?_, fun _ hi => absurd hfirst hi.not_first⟩
    rw [h.stored (i := 0) (Nat.zero_lt_of_lt hmany) hanswers, heq]
  | last _ _ hend =>
    have heq : c.plan.get (c.plan.points - 1) = f := by
      rw [FrequencyPlan.get_last hmany (UInt32.le_trans hstart hstop) (by omega)]
      exact UInt32.le_antisymm hend hstop
    refine ⟨fun _ => ?_, fun _ hi => absurd hend hi.not_last⟩
    rw [h.stored (i := c.plan.points - 1) (by omega) hanswers, heq]
  | point hinside heq =>
    refine ⟨fun _ => ?_, fun _ hi => absurd heq hi.ne_get_bracket⟩
    rw [h.stored (Nat.lt_of_succ_lt hinside.bracket_lt) hanswers, ← heq]
  | kept hf hband =>
    exact ⟨fun _ => h.kept hf hanswers, fun i hi hmoved => absurd (hf.unique hi ▸ hmoved) hband⟩
  | down hf hband hquery hpos =>
    refine ⟨fun hnone => absurd hband (hnone _ hf), fun i hi _ => ?_⟩
    rw [hf.unique hi, if_pos hquery, if_neg (fun hz => by simp [hz] at hpos)]
    exact h.near_down hf hpos hanswers
  | lowest hf hband hquery =>
    refine ⟨fun hnone => absurd hband (hnone _ hf), fun i hi _ => ?_⟩
    rw [hf.unique hi, if_pos hquery, if_pos rfl]
    exact hanswers
  | up hf hband hquery hmore =>
    refine ⟨fun hnone => absurd hband (hnone _ hf), fun i hi _ => ?_⟩
    rw [hf.unique hi, if_neg hquery, if_neg (by omega)]
    exact h.near_up hf hmore hanswers
  | highest hf hband hquery hend =>
    refine ⟨fun hnone => absurd hband (hnone _ hf), fun i hi _ => ?_⟩
    rw [hf.unique hi, if_neg hquery, if_pos hend, ← hlast]
    exact hanswers

/-- Points at 0, 3, 7 and 10 Hz. The terms rise by `2 - i` per hertz. -/
def ramp : Calibration ℚ 4 where
  status := .none
  plan := ⟨0, 10, 4⟩
  table := .ofFn fun i => .affine (.build fun _ => 1) (.build fun _ => ⟨2, -1⟩)
    ((⟨0, 10, 4⟩ : FrequencyPlan).get i.val.toUInt16).toNat
  saveSlot := 1

theorem ramp_affine : ramp.Affine (.build fun _ => 1) (.build fun _ => ⟨2, -1⟩) := by
  intro i hi
  have hin : i.toNat < 4 := hi
  rw [termsAt_of_lt ramp hin]
  change Except.ok (Vector.ofFn _)[i.toNat] = _
  rw [Vector.getElem_ofFn]
  dsimp only [Nat.toUInt16]
  rw [UInt16.ofNat_toNat]
  rfl

/-- The bracket from 3 Hz to 7 Hz is moved down to one that is narrower by a hertz. -/
theorem interpolate_affine_ramp :
    ramp.Affine (.build fun _ => 1) (.build fun _ => ⟨2, -1⟩) ∧ 1 < ramp.plan.points.toNat ∧
    ramp.plan.points.toNat ≤ 4 ∧ ramp.plan.start ≤ 4 ∧ 4 ≤ ramp.plan.stop ∧
    Straddles ramp.plan (bandsFrom 5) 1 ∧
    ∃ t, ramp.interpolate none 4 (bandsFrom 5) = .ok t ∧
      Terms.Near (.build fun _ => ⟨2, -1⟩) t
        (.affine (.build fun _ => 1) (.build fun _ => ⟨2, -1⟩) 4) := by
  have hstraddles : Straddles ramp.plan (bandsFrom 5) 1 := by decide
  have hbetween : Between ramp.plan 4 1 :=
    ⟨⟨by decide, by decide, by decide⟩, by decide, by decide, by decide, by decide⟩
  obtain ⟨t, ht, -, hmoved⟩ :=
    interpolate_affine ramp_affine (by decide) (by decide) (bandsFrom 5) (f := 4) (by decide)
      (by decide)
  have hnear := hmoved 1 hbetween hstraddles
  rw [if_pos (by decide), if_neg (by decide)] at hnear
  exact ⟨ramp_affine, by decide, by decide, by decide, by decide, hstraddles, t, ht, hnear⟩

end Calibration

end NetworkAnalyzer
