import Mathlib.Algebra.Order.Field.Basic
import NetworkAnalyzer.Correction
import NetworkAnalyzer.Proofs.Calibration.Readings
import NetworkAnalyzer.Proofs.Calibration.Solving

/-!
# Calibrating against an error model

An `ErrorModel` says what a port reads for a device: the reflection `Γ` is seen as
`ed + er·Γ / (1 - es·Γ)`, the transmission `S` as `ex + t·S`. A load is a device with reflection
zero, an open one with `1`, a short one with `-1`; a thru has transmission one and an isolation zero
(`ErrorModel.standard`). Measuring the standards in any order and solving recovers the model, so
that the correction undoes it.

Everything here is exactly computed, over any ordered field. The guards of the solution stay and
show as hypotheses: the open and the short must be told apart by more than `Terms.degenerate`, and
so must the transmission and zero. A model without reflection tracking cannot be undone, and
neither can the reading of a device at which the model divides by zero.

* `Session`, `Session.holds`: what the slots hold after any sequence of measurements. A later one of
  the same standard replaces the earlier one.
* `Session.exists`: every list of standards can be measured, so the theorem is about something.
* `solveMatch_eq`, `solveReflection_eq`, `solveTransmission_eq`: solving recovers the terms.
* `reflection_undoes`, `transmission_undoes`: exactly computed, correcting with terms solved from
  the standards of a model inverts the model.
* `Session.corrects`: the two together, for every order of standards, every number of passes and
  every point of the plan.
* `corrects_skewed`: three points, each with a model of its own.
-/

namespace NetworkAnalyzer

variable {K : Type} [Field K] [LinearOrder K]

/-- Systematic errors of the two channels at one frequency. -/
structure ErrorModel (K : Type) where
  ed : Phasor K
  es : Phasor K
  er : Phasor K
  ex : Phasor K
  t : Phasor K

namespace ErrorModel

variable (m : ErrorModel K)

def reflected (γ : Phasor K) : Phasor K := m.ed + m.er * γ / (1 - m.es * γ)

def transmitted (s : Phasor K) : Phasor K := m.ex + m.t * s

def standard : Standard → Phasor K
  | .load => m.ed
  | .open => m.ed + m.er / (1 - m.es)
  | .short => m.ed - m.er / (1 + m.es)
  | .thru => m.ex + m.t
  | .isolation => m.ex

variable {m : ErrorModel K} [IsStrictOrderedRing K]

/-! ## Solving recovers the model -/

theorem ne_zero_of_guard {z : Phasor K} (h : Terms.degenerate < z.normSq) : z ≠ 0 := by
  have hguard : (0 : K) ≤ Terms.degenerate := by
    change (0 : K) ≤ (1 : Nat) / 10 ^ 20
    positivity
  exact Phasor.ne_zero_of_lt_normSq hguard h

theorem solveMatch_eq {t : Terms K} (hl : t.directivity = m.standard .load)
    (ho : t.sourceMatch = m.standard .open) (hs : t.reflectionTracking = m.standard .short)
    (h₁ : 1 - m.es ≠ 0) (h₂ : 1 + m.es ≠ 0)
    (hguard : Terms.degenerate < (m.standard .open - m.standard .short).normSq) :
    t.solveMatch.sourceMatch = m.es := by
  have hopen : t.sourceMatch - t.directivity = m.er / (1 - m.es) := by
    rw [ho, hl]
    simp only [standard]
    ring
  have hshort : t.reflectionTracking - t.directivity = -(m.er / (1 + m.es)) := by
    rw [hs, hl]
    simp only [standard]
    ring
  have hdiff : m.standard .open - m.standard .short =
      m.er / (1 - m.es) - -(m.er / (1 + m.es)) := by
    simp only [standard]
    ring
  have hsum : m.er / (1 - m.es) + -(m.er / (1 + m.es)) =
      m.es * (m.er / (1 - m.es) - -(m.er / (1 + m.es))) := by
    field_simp
    ring
  rw [hdiff] at hguard
  unfold Terms.solveMatch
  simp only [hopen, hshort]
  rw [Phasor.divOr_of_lt hguard, hsum, mul_div_cancel_right₀ _ (ne_zero_of_guard hguard)]

theorem solveReflection_eq {t : Terms K} (hl : t.directivity = m.standard .load)
    (hs : t.reflectionTracking = m.standard .short) (hm : t.solveMatch.sourceMatch = m.es)
    (h₂ : 1 + m.es ≠ 0) :
    (t.solveMatch.solveReflection (-1)).reflectionTracking = m.er := by
  have hshort : t.reflectionTracking - t.directivity = -(m.er / (1 + m.es)) := by
    rw [hs, hl]
    simp only [standard]
    ring
  have hneg : (Phasor.real (-1) : Phasor K) = -1 := by
    ext <;> simp [Phasor.real]
  calc (t.solveMatch.solveReflection (-1)).reflectionTracking
      = ((1 - t.solveMatch.sourceMatch.scale (-1)) *
          (t.reflectionTracking - t.directivity)).scale (-1) := rfl
    _ = (1 - m.es * -1) * -(m.er / (1 + m.es)) * -1 := by
        rw [hm, hshort, Phasor.scale_eq_mul, Phasor.scale_eq_mul, hneg]
    _ = m.er := by
        field_simp
        ring

theorem solveTransmission_eq {t : Terms K} (hi : t.isolation = m.standard .isolation)
    (ht : t.transmissionTracking = m.standard .thru)
    (hguard : Terms.degenerate < m.t.normSq) :
    t.solveTransmission.transmissionTracking = 1 / m.t := by
  have hthru : t.transmissionTracking - t.isolation = m.t := by
    rw [ht, hi]
    simp only [standard]
    ring
  unfold Terms.solveTransmission
  simp only [hthru]
  exact Phasor.divOr_of_lt hguard

/-! ## Correcting inverts the model -/

theorem reflection_undoes {t : Terms K} (hd : t.directivity = m.ed) (hm : t.sourceMatch = m.es)
    (hr : t.reflectionTracking = m.er) (her : m.er ≠ 0) {γ : Phasor K} (hγ : 1 - m.es * γ ≠ 0) :
    Correction.reflection (m.reflected γ) t = γ := by
  have hseen : m.reflected γ - t.directivity = m.er * γ / (1 - m.es * γ) := by
    rw [hd]
    unfold reflected
    ring
  have hden : t.reflectionTracking + t.sourceMatch * (m.er * γ / (1 - m.es * γ)) =
      m.er / (1 - m.es * γ) := by
    rw [hr, hm]
    field_simp
    ring
  have hne : m.er / (1 - m.es * γ) ≠ 0 := div_ne_zero her hγ
  unfold Correction.reflection
  simp only [hseen, hden]
  rw [Phasor.divOr_of_lt (Phasor.normSq_pos hne), mul_div_right_comm, mul_div_cancel_left₀ _ hne]

theorem transmission_undoes {t : Terms K} (hx : t.isolation = m.ex)
    (ht : t.transmissionTracking = 1 / m.t) (hne : m.t ≠ 0) (s γ : Phasor K) :
    Correction.transmission (m.transmitted s) γ t false = s := by
  unfold Correction.transmission transmitted
  simp only [hx, ht, Bool.false_eq_true, if_false]
  field_simp
  ring

end ErrorModel

/-! ## Sessions -/

namespace Calibration

variable {N : Nat} {plan : FrequencyPlan} {value : Standard → Nat → Phasor K}

/-- A successful measurement of `s` over `plan`, by some sweeper whose passes hand over `v`. -/
def Measures (plan : FrequencyPlan) (s : Standard) (v : Nat → Phasor K)
    (c c' : Calibration K N) : Prop :=
  ∃ (σ : Type) (sweeper : Sweeper σ K) (connected : σ → Prop) (averaging : UInt16) (w w' : σ),
    sweeper.plan w = plan ∧ sweeper.Delivers s plan.points.toNat v connected ∧ connected w ∧
      c.collect sweeper s averaging w = .ok ((.ok (), c'), w')

/-- Standards measured one after the other over `plan`. -/
inductive Session (plan : FrequencyPlan) (value : Standard → Nat → Phasor K) :
    List Standard → Calibration K N → Calibration K N → Prop
  | nil (c : Calibration K N) : Session plan value [] c c
  | snoc {seen : List Standard} {s : Standard} {c c₁ c₂ : Calibration K N} :
      Session plan value seen c c₁ → Measures plan s (value s) c₁ c₂ →
      Session plan value (s :: seen) c c₂

/-- The standards in `seen` lie measured in their slots. -/
structure Holds (plan : FrequencyPlan) (value : Standard → Nat → Phasor K)
    (seen : List Standard) (c : Calibration K N) : Prop where
  plan : seen ≠ [] → c.plan = plan
  flag : ∀ s ∈ seen, c.status.has s.flag
  value : ∀ s ∈ seen, ∀ i < c.points, c.valueAt s.slot i = some (value s i)

omit [Field K] [LinearOrder K] in
theorem Holds.table {seen : List Standard} {c : Calibration K N} (h : Holds plan value seen c)
    {i : Nat} (hi : i < c.points) :
    ∃ t, c.table[i]? = some t ∧ ∀ s ∈ seen, t.get s.slot = value s i := by
  have hN : i < N := Nat.lt_of_lt_of_le hi c.points_le
  refine ⟨c.table[i], Vector.getElem?_eq_getElem hN, fun s hs => ?_⟩
  have hv := h.value s hs i hi
  unfold valueAt at hv
  rw [Vector.getElem?_eq_getElem hN] at hv
  exact Option.some.inj hv

variable [IsStrictOrderedRing K]

theorem Holds.measure {seen : List Standard} {s : Standard} {c c' : Calibration K N}
    (hc : Holds plan value seen c) (h : Measures plan s (value s) c c') :
    Holds plan value (s :: seen) c' := by
  obtain ⟨σ, sweeper, connected, averaging, w, w', rfl, hd, hw, h⟩ := h
  have hn : (c.onPlan (sweeper.plan w)).points ≤ (sweeper.plan w).points.toNat := by
    unfold points
    rw [onPlan_plan]
    exact Nat.min_le_left _ _
  obtain ⟨hplan, hstatus, hsame, hother⟩ := collect_ok (hd.mono hn) hw h
  refine ⟨fun _ => hplan, fun r hr => ?_, fun r hr i hi => ?_⟩
  · by_cases hrs : r = s
    · rw [hstatus, hrs, Standard.has_collected_same]
    · have hseen : r ∈ seen := (List.mem_cons.mp hr).resolve_left hrs
      have hkept := onPlan_of_eq (hc.plan (List.ne_nil_of_mem hseen))
      rw [hstatus, Standard.has_collected_of_ne _ _ hrs, hkept]
      exact hc.flag r hseen
  · by_cases hrs : r = s
    · rw [hrs]
      exact hsame i hi
    · have hseen : r ∈ seen := (List.mem_cons.mp hr).resolve_left hrs
      have hpoints : c'.points = c.points := by
        unfold points
        rw [hplan, hc.plan (List.ne_nil_of_mem hseen)]
      rw [hother _ (fun e => hrs (Standard.slot_injective e))]
      exact hc.value r hseen i (hpoints ▸ hi)

theorem Session.holds {seen : List Standard} {c c' : Calibration K N}
    (h : Session plan value seen c c') : Holds plan value seen c' := by
  induction h with
  | nil c => exact ⟨fun hne => absurd rfl hne, by simp, by simp⟩
  | snoc _ hmeasure ih => exact ih.measure hmeasure

omit [IsStrictOrderedRing K] in
theorem measures_steady (s : Standard) (v : Nat → Phasor K) (c : Calibration K N) :
    ∃ c', Measures plan s v c c' := by
  obtain ⟨c', h⟩ := collect_steady plan s v 1 c
  exact ⟨c', Unit, .steady plan v, _, 1, (), (), rfl, Sweeper.steady_delivers plan s v, trivial, h⟩

omit [IsStrictOrderedRing K] in
/-- Every list of standards can be measured. -/
theorem Session.exists (c : Calibration K N) : ∀ seen : List Standard,
    ∃ c', Session plan value seen c c'
  | [] => ⟨c, .nil c⟩
  | s :: seen => by
    obtain ⟨c₁, h⟩ := Session.exists c seen
    obtain ⟨c₂, h'⟩ := measures_steady s (value s) c₁
    exact ⟨c₂, .snoc h h'⟩

/-- Standards of an error model, measured in any order and with any number of passes, solve to
terms that undo the model at every point of the plan. -/
theorem Session.corrects {model : Nat → ErrorModel K} {seen : List Standard}
    {c c' : Calibration K N} (h : Session plan (fun s i => (model i).standard s) seen c c')
    {i : Nat} (hi : i < plan.points.toNat) (hN : i < N) :
    (.load ∈ seen → .open ∈ seen → .short ∈ seen →
      (model i).er ≠ 0 → 1 - (model i).es ≠ 0 → 1 + (model i).es ≠ 0 →
      Terms.degenerate < ((model i).standard .open - (model i).standard .short).normSq →
      ∃ t, c'.solve.termsAt i = .ok t ∧ ∀ γ, 1 - (model i).es * γ ≠ 0 →
        Correction.reflection ((model i).reflected γ) t = γ) ∧
    (.isolation ∈ seen → .thru ∈ seen → Terms.degenerate < (model i).t.normSq →
      ∃ t, c'.solve.termsAt i = .ok t ∧ ∀ s γ,
        Correction.transmission ((model i).transmitted s) γ t false = s) := by
  have hholds := h.holds
  have hpoint : seen ≠ [] → i < c'.points := by
    intro hne
    unfold points
    rw [hholds.plan hne]
    exact Nat.lt_min.mpr ⟨hi, hN⟩
  constructor
  · intro hl ho hs her h₁ h₂ hguard
    have hi' := hpoint (List.ne_nil_of_mem hl)
    obtain ⟨t, ht, hslot⟩ := hholds.table hi'
    obtain ⟨hd, hm, hr⟩ := t.solve_reflectionSet (hholds.flag _ hl) (hholds.flag _ ho)
      (hholds.flag _ hs)
    have hmatch : t.solveMatch.sourceMatch = (model i).es :=
      ErrorModel.solveMatch_eq (hslot _ hl) (hslot _ ho) (hslot _ hs) h₁ h₂ hguard
    have htracking : (t.solveMatch.solveReflection (-1)).reflectionTracking = (model i).er :=
      ErrorModel.solveReflection_eq (hslot _ hl) (hslot _ hs) hmatch h₂
    refine ⟨_, termsAt_solve c' hi' ht, fun γ hγ => ?_⟩
    exact ErrorModel.reflection_undoes (hd.trans (hslot _ hl)) (hm.trans hmatch)
      (hr.trans htracking) her hγ
  · intro hx hth hguard
    have hi' := hpoint (List.ne_nil_of_mem hx)
    obtain ⟨t, ht, hslot⟩ := hholds.table hi'
    obtain ⟨hiso, htt⟩ := t.solve_through (hholds.flag _ hx) (hholds.flag _ hth)
    have hinverse : t.solveTransmission.transmissionTracking = 1 / (model i).t :=
      ErrorModel.solveTransmission_eq (hslot _ hx) (hslot _ hth) hguard
    refine ⟨_, termsAt_solve c' hi' ht, fun s γ => ?_⟩
    exact ErrorModel.transmission_undoes (hiso.trans (hslot _ hx)) (htt.trans hinverse)
      (ErrorModel.ne_zero_of_guard hguard) s γ

def skewed (i : Nat) : ErrorModel ℚ :=
  ⟨⟨1 / 10, i⟩, ⟨0, 1 / 5⟩, ⟨i + 1, -1 / 2⟩, ⟨1 / 100, 0⟩, ⟨0, i + 2⟩⟩

theorem corrects_skewed : ∃ c : Calibration ℚ 3,
    Session ⟨1000, 3000, 3⟩ (fun s i => (skewed i).standard s)
      [.thru, .short, .load, .isolation, .open] .empty c ∧
    (∃ t, c.solve.termsAt 1 = .ok t ∧ ∀ γ, 1 - (skewed 1).es * γ ≠ 0 →
      Correction.reflection ((skewed 1).reflected γ) t = γ) ∧
    ∃ t, c.solve.termsAt 1 = .ok t ∧ ∀ s γ,
      Correction.transmission ((skewed 1).transmitted s) γ t false = s := by
  have hmeasured : ∃ c : Calibration ℚ 3, Session ⟨1000, 3000, 3⟩
      (fun s i => (skewed i).standard s) [.thru, .short, .load, .isolation, .open] .empty c :=
    Session.exists _ _
  obtain ⟨c, h⟩ := hmeasured
  obtain ⟨hγ, hs⟩ := Session.corrects h (show 1 < _ by decide) (by decide)
  refine ⟨c, h, hγ (by decide) (by decide) (by decide) ?_ ?_ ?_ ?_, hs (by decide) (by decide) ?_⟩
  · decide +kernel
  · decide +kernel
  · decide +kernel
  · decide +kernel
  · decide +kernel

end Calibration

end NetworkAnalyzer
