import NetworkAnalyzer.Proofs.Calibration.Lookups
import NetworkAnalyzer.Proofs.Calibration.Provenance
import NetworkAnalyzer.Proofs.Loop.Interludes

/-!
# Corrections are founded

Once the correction of a calibration is enabled, the terms at every frequency are those its
ledger has: solved from standards of the present plan, a standard of it that is a term as it
was measured, or neutral. Without any standard they are neutral and change no value. All of
this takes a plan with a point: solving fills the points of the plan, but a lookup falls back
on the first entry of the tables, whether the plan has a first point or not.

So there are three parts. `Proofs.Calibration.Provenance` shows that a calibration is as its ledger
says. Here, lookups are read off the ledger, and neutral terms are shown to be without effect in
single precision. What is left over is the plan without a point: there, the correction multiplies
by a zero that nobody entered.

* `Holds.read`: a lookup inside the plan reads what the ledger has.
* `LooksUp.neutral`: a lookup between points without a standard is neutral, too.
* `Calibration.History.terms_founded`: the terms of every history, at every frequency.
* `Calibration.solve_emptyPlan_unfounded`: a solved calibration without a point multiplies by zero.
* `Calibration.History.session`: measuring through a session extends a history, whatever the board
  does. This is what makes histories of the instrument out of histories of calibrations.
-/

namespace NetworkAnalyzer

variable {N : Nat}

/-! ## From the ledger to the terms -/

namespace Ledger

section Terms

variable {α : Type} [Scalar α] {L : Ledger α} {c : Calibration α N}

theorem value_of_term {o : Origin α} {s : Term} {i : Nat} {z : Phasor α}
    (h : o.term s i = some z) : o.value s i = some z := by
  cases o with
  | stale => cases h
  | measured column =>
    change (if s.solvedFlag = none then some (column i) else none) = some z at h
    split at h
    · exact h
    · cases h
  | solved column => exact h
  | neutral => exact h

theorem Holds.termsAt (h : L.Holds c) (happly : c.status.has .apply = true) {i : Nat}
    (hi : i < L.plan.points.toNat) : ∃ t, c.termsAt i = .ok t ∧ L.TermsAt i t := by
  have hN : i < N := Nat.lt_of_lt_of_le hi h.fits
  refine ⟨c.table[i], dif_pos hN, hi, fun s => ?_⟩
  obtain ⟨z, hz⟩ := h.complete (h.applied.symm.trans happly) s i
  have hvalue := h.value s i hi z (value_of_term hz)
  unfold Calibration.valueAt at hvalue
  rw [Vector.getElem?_eq_getElem hN] at hvalue
  rw [hz]
  exact congrArg some (Option.some.inj hvalue).symm

theorem Holds.read (h : L.Holds c) (happly : c.status.has .apply = true) {l : Lookup}
    (hl : l.Within L.plan.points.toNat) : ∃ t, c.read l = .ok t ∧ L.LooksUp l t := by
  cases l with
  | stored i => exact h.termsAt happly hl
  | line lower offset width shift =>
    obtain ⟨lo, hlo, hloAt⟩ := h.termsAt happly (Nat.lt_of_succ_lt hl)
    obtain ⟨hi, hhi, hhiAt⟩ := h.termsAt happly hl
    refine ⟨lo.onLine hi (Lookup.coefficient offset width shift), ?_, lo, hi, hloAt, hhiAt, rfl⟩
    change (do
      let lo ← c.termsAt lower.toNat
      let hi ← c.termsAt (lower.toNat + 1)
      return lo.onLine hi (Lookup.coefficient offset width shift)) = _
    rw [hlo, hhi]
    rfl

theorem TermsAt.neutral (hnone : ∀ s, (L.origin.get s).hasStandard = false) {i : Nat}
    {t : Terms α} (h : L.TermsAt i t) : t = .neutral := by
  apply Slots.ext_get
  intro s
  have hs := h.2 s
  have hneutral : (Terms.neutral : Terms α).get s = s.neutral := Slots.get_build _ _
  have hno := hnone s
  cases ho : L.origin.get s with
  | stale => rw [ho] at hs; cases hs
  | measured column => rw [ho] at hno; cases hno
  | solved column => rw [ho] at hno; cases hno
  | neutral =>
    rw [ho] at hs
    exact (Option.some.inj hs).symm.trans hneutral.symm

end Terms

/-- Where no standard stands behind any term, every lookup is neutral. -/
theorem LooksUp.neutral {L : Ledger Float32} (hnone : ∀ s, (L.origin.get s).hasStandard = false)
    {l : Lookup} {t : Terms Float32} (h : L.LooksUp l t) : t = .neutral := by
  cases l with
  | stored i => exact TermsAt.neutral hnone h
  | line lower offset width shift =>
    obtain ⟨lo, hi, hlo, hhi, rfl⟩ := h
    rw [TermsAt.neutral hnone hlo, TermsAt.neutral hnone hhi]
    exact Terms.neutral_onLine (Lookup.coefficient_finite offset width shift)

end Ledger

/-! ## What a calibration corrects with -/

/-- The two values compare equal, as floats do. -/
def Phasor.Same (z w : Phasor Float32) : Prop := (z.re == w.re) = true ∧ (z.im == w.im) = true

theorem Phasor.SameValue.same {z w : Phasor Float32} (h : z.SameValue w) (hw : w.IsFinite) :
    z.Same w := ⟨h.re.beq hw.re, h.im.beq hw.im⟩

/-- Whatever brought a calibration about: with the correction enabled, on a plan with a point,
the terms at any frequency and in any harmonic bands are read at points of the plan and are
there what the ledger of the plan has. Without any standard they are neutral, and the
corrections leave every value as it is. -/
theorem Calibration.History.terms_founded {L : Ledger Float32} {c : Calibration Float32 N}
    (h : History L c) (happly : c.status.has .apply = true) (hpoints : c.plan.points ≠ 0) :
    c.plan = L.plan ∧
    (∀ f band, ∃ t, c.interpolate none f band = .ok t ∧ L.LooksUp (.find c.plan band f) t) ∧
    (∀ i < c.plan.points.toNat, ∀ f band,
      ∃ t, c.interpolate (some i) f band = .ok t ∧ L.TermsAt i t) ∧
    ((∀ s, (L.origin.get s).hasStandard = false) →
      (∀ f band, c.interpolate none f band = .ok .neutral) ∧
      (∀ i < c.plan.points.toNat, ∀ f band, c.interpolate (some i) f band = .ok .neutral) ∧
      ∀ m γ : Phasor Float32, m.IsFinite → γ.IsFinite →
        (Correction.reflection m .neutral).Same m ∧
          ∀ enhanced, (Correction.transmission m γ .neutral enhanced).Same m) := by
  have hholds := h.holds
  have hplan := hholds.plan
  have hlookup : ∀ f band,
      ∃ t, c.interpolate none f band = .ok t ∧ L.LooksUp (.find c.plan band f) t := by
    intro f band
    have hpos : 0 < c.plan.points.toNat :=
      Nat.pos_of_ne_zero fun hzero => hpoints (UInt16.toNat_inj.mp hzero)
    refine hholds.read happly ?_
    rw [← hplan]
    exact Lookup.find_within hpos band f
  have hstored : ∀ i < c.plan.points.toNat, ∀ f band,
      ∃ t, c.interpolate (some i) f band = .ok t ∧ L.TermsAt i t := by
    intro i hi f band
    rw [hplan] at hi
    exact hholds.termsAt happly hi
  refine ⟨hplan, hlookup, hstored, fun hnone => ⟨fun f band => ?_, fun i hi f band => ?_,
    fun m γ hm hγ => ⟨(Correction.reflection_neutral hm).same hm, fun enhanced =>
      (Correction.transmission_neutral hm hγ enhanced).same hm⟩⟩⟩
  · obtain ⟨t, ht, hlooks⟩ := hlookup f band
    rw [ht, hlooks.neutral hnone]
  · obtain ⟨t, ht, hat⟩ := hstored i hi f band
    rw [ht, hat.neutral hnone]

/-! ### A plan with three points -/

def FrequencyPlan.threePoints : FrequencyPlan := ⟨1000000, 3000000, 3⟩

theorem Calibration.collect_thruThree : ∃ c' : Calibration Float32 3,
    Calibration.empty.collect (.steady .threePoints fun _ => 1) .thru 1 () =
      .ok ((.ok (), c'), ()) := Calibration.collect_steady .threePoints .thru _ 1 .empty

theorem Calibration.History.terms_founded_thruThree :
    ∃ (L : Ledger Float32) (c : Calibration Float32 3),
    History L c ∧ c.status.has .apply = true ∧ c.plan = .threePoints ∧
      ∀ f band, ∃ t, c.interpolate none f band = .ok t ∧ L.LooksUp (.find c.plan band f) t := by
  obtain ⟨c, hcollect⟩ := Calibration.collect_thruThree
  have hcovers := (Sweeper.steady_delivers (α := Float32) .threePoints .thru fun _ => 1).covers
  have hmeasured := History.empty.collect (by decide) (hcovers.complete trivial 1) hcollect
  have happly : c.solve.status.has .apply = true := has_solvedStatus c.status .apply
  obtain ⟨-, -, hplan, -⟩ := Calibration.collect_inv hcollect
  have hthree : c.solve.plan = .threePoints := hplan
  obtain ⟨-, hterms, -⟩ := hmeasured.solve.terms_founded happly (by rw [hthree]; decide)
  exact ⟨_, _, hmeasured.solve, happly, hthree, hterms⟩

/-! ### A plan without a point -/

/-- On a plan without a point every frequency finds the first entry of the tables, whatever it
holds. -/
theorem Calibration.interpolate_emptyPlan {α : Type} [Scalar α] (c : Calibration α N)
    (h : c.plan.points = 0) (f : UInt32) (band : UInt32 → UInt32) :
    c.interpolate none f band = c.termsAt 0 := by
  have hfind : Lookup.find c.plan band f = .stored 0 := by
    unfold Lookup.find
    rw [h]
    rfl
  change c.read (.find c.plan band f) = _
  rw [hfind]
  rfl

/-- Solving a calibration that is on no plan enables the correction with terms that are all
zero, and a corrected transmission reads zero. -/
theorem Calibration.solve_emptyPlan_unfounded : ∃ (L : Ledger Float32) (c : Calibration Float32 4),
    History L c ∧ c.status.has .apply = true ∧ (∀ s, (L.origin.get s).hasStandard = false) ∧
      c.interpolate none 5000000 (fun _ => 1) ≠ .ok .neutral ∧
      ∃ t, c.interpolate none 5000000 (fun _ => 1) = .ok t ∧
        Correction.transmission 1 0 t false = 0 := by
  have hzero : (Calibration.empty : Calibration Float32 4).solve.interpolate none 5000000
      (fun _ => 1) = .ok (.build fun _ => 0) :=
    (Calibration.interpolate_emptyPlan _ rfl _ _).trans rfl
  have hone : (1 : Phasor Float32) ≠ 0 := by decide
  have hnone : ∀ s, ((Ledger.fresh ⟨0, 0, 0⟩ : Ledger Float32).solve.origin.get s).hasStandard =
      false := by intro s; cases s <;> rfl
  have hreading : Correction.transmission 1 0 (.build fun _ => 0 : Terms Float32) false = 0 := by
    decide
  have happly : (Calibration.empty : Calibration Float32 4).solve.status.has .apply = true :=
    has_solvedStatus Flags.none .apply
  refine ⟨_, _, History.empty.solve, happly, hnone, fun hneutral => ?_, _, hzero, hreading⟩
  have hterms : (.build fun _ => 0) = (Terms.neutral : Terms Float32) :=
    Except.ok.inj (hzero.symm.trans hneutral)
  exact hone (congrArg Slots.transmissionTracking hterms).symm

/-! ## Measuring through a session -/

namespace SweepHead

variable {ε : Type}

theorem mem_handOver (h : SweepHead) (traces : Traces Float32 N) (c : Channel) {i : Nat}
    (hi : i < (h.points N).toNat) : ∃ z, (i, z) ∈ h.handOver traces c := by
  have hN : i < N := Nat.lt_of_lt_of_le hi (Nat.le_trans h.points_le (Nat.min_le_right _ _))
  refine ⟨(traces.get c)[i], ?_⟩
  unfold handOver
  refine List.mem_map.mpr ⟨((traces.get c)[i], i), ?_, rfl⟩
  refine List.mem_zipIdx_iff_getElem?.mpr ?_
  rw [List.getElem?_take_of_lt hi]
  simp [hN]

/-- The passes of a session stay on its plan and hand all of it over. -/
theorem sweeper_covers (board : Board (Shared N ε)) (s : Standard) (plan : FrequencyPlan) :
    (sweeper board).Covers s plan.points.toNat fun w => w.1.sessionPlan N = plan := by
  have hkept : ∀ {h h' : SweepHead}, h'.plan = h.plan → h.sessionPlan N = plan →
      h'.sessionPlan N = plan := by
    intro h h' hplan hw
    unfold sessionPlan at hw ⊢
    rw [points_congr hplan, hplan]
    exact hw
  constructor
  · intro b w u w' hw hset
    cases hset
    exact hkept rfl hw
  · intro w d w' hw hsweep
    obtain ⟨r, hscan, ⟨e, -, rfl⟩ | ⟨t, -, rfl⟩⟩ := sweep_scan hsweep
    · exact ⟨hkept (scan_plan hscan) hw, fun hok => by cases hok⟩
    · have hw' : w'.1.sessionPlan N = plan := hkept (scan_plan hscan) hw
      refine ⟨hw', fun _ i hi => mem_handOver _ _ _ ?_⟩
      rw [← hw'] at hi
      exact hi

end SweepHead

/-- Measuring a standard through a session extends the history of a calibration, whatever the
board does and however the passes end. -/
theorem Calibration.History.session {ε : Type} {board : Board (Shared N ε)} {L : Ledger Float32}
    {c c' : Calibration Float32 N} {s : Standard} {averaging : UInt16} {head head' : SweepHead}
    {r : Except Failure Unit} {w w' : Shared N ε} (h : History L c)
    (hrun : head.collect board s averaging c w = .ok ((r, c', head'), w')) :
    History (L.collect (SweepHead.sweeper board) s averaging (head, w)) c' :=
  h.collect (Nat.le_trans head.points_le (Nat.min_le_right _ _))
    ((SweepHead.sweeper_covers board s _).complete rfl averaging) (SweepHead.collect_inv hrun)

end NetworkAnalyzer
