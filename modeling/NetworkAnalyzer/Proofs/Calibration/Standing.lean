import Mathlib.Logic.Function.Basic
import NetworkAnalyzer.Proofs.Calibration.Provenance

/-!
# What the flags of a calibration stand for

Slots are shared and flags are put one by one, by operations that void different things. A
`Course` is any sequence of them from the empty calibration; it keeps the latest measurement of
each standard, whatever came of it (`Attempt`).

An attempt is kept until the standard is measured again, also when it is solved into a term, voided
or forgotten by a reset. The flag says which of this happened: if it is set, the slot still holds
what the latest attempt came to. So the invariant speaks of flagged slots only, and every operation
either leaves a slot and its flag alone or clears the flag.

* `has_collected`: every flag after a measurement, in terms of those before.
* `Coherent`: which flags exclude or imply which. A standard and the term that takes its slot are
  never flagged together.
* `Backed`: the slot of a standard holds what a measurement came to.
* `Standing`: the flags are coherent, and the flag of a standard vouches for its latest measurement.
  Every operation keeps it.
* `Course.holds`: the invariant holds along every course.
* `Flagged`: what the next measurement makes of the flags.
* `Course.holds_latest`: exactly computed, a flagged slot holds the mean of the passes of the latest
  measurement, and what the next measurement makes of the flags.
* `Course.holds_latest_drifting`: three passes that hand over different values.
-/

namespace NetworkAnalyzer

variable {α σ : Type} [Scalar α] {N : Nat}

/-- A measurement of a standard, as it went. -/
structure Attempt (α : Type) where
  plan : FrequencyPlan
  averaging : UInt16
  outcome : Except Failure Unit
  passes : List (List (Nat × Phasor α))

/-- A measurement that succeeds was handed each point of the plan once in each of its passes. -/
def Sweeper.Once (sweeper : Sweeper σ α) (s : Standard) (averaging : UInt16) (w : σ) : Prop :=
  ∀ {values w'}, sweeper.reading s averaging w = .ok ((.ok (), values), w') →
    ∀ pass ∈ values, ∀ i < (sweeper.plan w).points.toNat, ∃ z, handed i pass = [z]

omit [Scalar α] in
/-- A measurement of a standard makes as many passes as it was asked for. -/
theorem Sweeper.passes_length {sweeper : Sweeper σ α} {s : Standard} {left : Nat}
    {values : List (List (Nat × Phasor α))} {w w' : σ}
    (h : sweeper.passes s left w = .ok ((.ok (), values), w')) : values.length = left := by
  induction left generalizing values w with
  | zero =>
    obtain ⟨he, -⟩ := Run.pure_inv h
    cases he
    rfl
  | succ left ih =>
    unfold Sweeper.passes at h
    obtain ⟨⟨first, outcome⟩, w₁, -, h₁⟩ := Run.bind_inv h
    cases outcome with
    | error e => cases (Run.pure_inv h₁).1
    | ok u =>
      obtain ⟨⟨outcome, rest⟩, w₂, hrest, h₂⟩ := Run.bind_inv h₁
      obtain ⟨he, rfl⟩ := Run.pure_inv h₂
      cases he
      simp [ih hrest]

omit [Scalar α] in
theorem Sweeper.reading_length {sweeper : Sweeper σ α} {s : Standard} {averaging : UInt16}
    {values : List (List (Nat × Phasor α))} {w w' : σ}
    (h : sweeper.reading s averaging w = .ok ((.ok (), values), w')) :
    values.length = (max averaging 1).toNat := by
  unfold Sweeper.reading at h
  rw [Run.get_bind] at h
  obtain ⟨w₁, -, h₁⟩ := Run.optional_inv h
  obtain ⟨result, w₂, hpasses, h₂⟩ := Run.bind_inv h₁
  obtain ⟨u, w₃, -, h₃⟩ := Run.bind_inv h₂
  obtain ⟨rfl, -⟩ := Run.pure_inv h₃
  exact Sweeper.passes_length hpasses

theorem Standard.has_collected (s : Standard) (status : CalStatus) (valid : Bool) (o : CalFlag) :
    (s.collected status valid).has o =
      if o = s.flag then valid
      else match o, s with
        | .apply, _ | .sourceMatch, .open | .reflectionTracking, .open
        | .sourceMatch, .short | .reflectionTracking, .short | .transmissionTracking, .thru => false
        | o, _ => status.has o := by
  cases s <;> cases o <;> simp (disch := decide) [collected, flag, Flags.has_put_of_ne]

namespace Calibration

/-- Calibrations that the operations bring about, with the latest measurement of each standard. -/
inductive Course : (Standard → Option (Attempt α)) → Calibration α N → Prop
  | empty : Course (fun _ => none) .empty
  | collect {latest : Standard → Option (Attempt α)} {c c' : Calibration α N} {σ : Type}
      {sweeper : Sweeper σ α} {s : Standard} {averaging : UInt16} {r : Except Failure Unit}
      {values : List (List (Nat × Phasor α))} {w w' : σ} :
      Course latest c → (sweeper.plan w).points.toNat ≤ N → sweeper.Once s averaging w →
      sweeper.reading s averaging w = .ok ((r, values), w') →
      c.collect sweeper s averaging w = .ok ((r, c'), w') →
      Course (Function.update latest s (some ⟨sweeper.plan w, averaging, r, values⟩)) c'
  | solve {latest : Standard → Option (Attempt α)} {c : Calibration α N} :
      Course latest c → Course latest c.solve
  | reset {latest : Standard → Option (Attempt α)} {c : Calibration α N} :
      Course latest c → Course latest c.reset
  | setEnhancedResponse {latest : Standard → Option (Attempt α)} {c : Calibration α N} (on : Bool) :
      Course latest c → Course latest (c.setEnhancedResponse on)
  | updateInterpolation {latest : Standard → Option (Attempt α)} {c : Calibration α N}
      (plan : FrequencyPlan) : Course latest c → Course latest (c.updateInterpolation plan)

/-- The slot of a standard holds what a measurement came to. -/
structure Backed (c : Calibration α N) (s : Standard) (a : Attempt α) : Prop where
  plan : a.plan = c.plan
  fits : a.plan.points.toNat ≤ N
  outcome : a.outcome = .ok ()
  count : a.passes.length = (max a.averaging 1).toNat
  once : ∀ pass ∈ a.passes, ∀ i < a.plan.points.toNat, ∃ z, handed i pass = [z]
  value : ∀ i < a.plan.points.toNat, c.valueAt s.slot i = some (mean i a.passes 0)

/-- Which flags exclude or imply which. -/
structure Coherent (status : CalStatus) : Prop where
  sourceMatch : status.has .sourceMatch = true → status.has .open = false
  reflectionTracking : status.has .reflectionTracking = true → status.has .short = false
  transmissionTracking : status.has .transmissionTracking = true → status.has .thru = false
  tracked : status.has .sourceMatch = true → status.has .reflectionTracking = true
  applied : status.has .apply = true →
    status.has .open = false ∧ status.has .short = false ∧ status.has .thru = false

/-- The flags are coherent, and a flagged standard is backed by its latest measurement. -/
structure Standing (latest : Standard → Option (Attempt α)) (c : Calibration α N) : Prop where
  coherent : Coherent c.status
  backed : ∀ s : Standard, c.status.has s.flag = true → ∃ a, latest s = some a ∧ c.Backed s a

/-! ## Flags -/

namespace Coherent

variable {status : CalStatus}

theorem none : Coherent .none := by
  constructor <;> simp

theorem put (h : Coherent status) {o : CalFlag} (ho : o = .enhancedResponse ∨ o = .interpolated)
    (b : Bool) : Coherent (status.put o b) := by
  obtain ⟨hmatch, htracking, hthrough, htracked, happlied⟩ := h
  rcases ho with rfl | rfl
  · constructor <;> simpa (disch := decide) [Flags.has_put_of_ne]
  · constructor <;> simpa (disch := decide) [Flags.has_put_of_ne]

theorem collected (h : Coherent status) (s : Standard) (valid : Bool) :
    Coherent (s.collected status valid) := by
  obtain ⟨hmatch, htracking, hthrough, htracked, -⟩ := h
  cases s <;> constructor <;> simp_all [Standard.has_collected, Standard.flag]

theorem solved (h : Coherent status) : Coherent (solvedStatus status) := by
  constructor <;> simp only [has_solvedStatus] <;> simp
  rintro (hlisted | ⟨hopen, -⟩)
  · simp [h.tracked hlisted]
  · simp [hopen]

end Coherent

/-! ## What every operation keeps -/

variable {latest : Standard → Option (Attempt α)} {c c' : Calibration α N}

theorem Backed.points {s : Standard} {a : Attempt α} (h : c.Backed s a) :
    c.points = a.plan.points.toNat := by
  unfold Calibration.points
  rw [← h.plan]
  exact Nat.min_eq_left h.fits

theorem Backed.of_same {s : Standard} {a : Attempt α} (h : c.Backed s a) (hplan : c'.plan = c.plan)
    (hvalue : ∀ i < a.plan.points.toNat, c'.valueAt s.slot i = c.valueAt s.slot i) :
    c'.Backed s a where
  plan := h.plan.trans hplan.symm
  fits := h.fits
  outcome := h.outcome
  count := h.count
  once := h.once
  value i hi := (hvalue i hi).trans (h.value i hi)

theorem valueAt_solve {s : Standard} (hs : c.solve.status.has s.flag = true) {i : Nat}
    (hi : i < c.points) : c.solve.valueAt s.slot i = c.valueAt s.slot i := by
  have hflag : (solvedStatus c.status).has s.flag = true := hs
  rw [has_solvedStatus] at hflag
  unfold valueAt solve
  rw [Vector.getElem?_mapIdx, Option.map_map]
  congr 1
  funext t
  simp only [Function.comp_def, if_pos hi, Terms.solve_eq]
  cases s with
  | load => exact if_pos hflag
  | isolation => exact if_pos hflag
  | «open» | short | thru => cases hflag

theorem Standing.solve (h : Standing latest c) : Standing latest c.solve where
  coherent := h.coherent.solved
  backed s hs := by
    have hflag : c.status.has s.flag = true := by
      have hsolved : (solvedStatus c.status).has s.flag = true := hs
      rw [has_solvedStatus] at hsolved
      cases s <;> first | exact hsolved | cases hsolved
    obtain ⟨a, ha, hbacked⟩ := h.backed s hflag
    exact ⟨a, ha, hbacked.of_same rfl fun i hi => valueAt_solve hs (hbacked.points ▸ hi)⟩

theorem reset_standing (latest : Standard → Option (Attempt α)) (c : Calibration α N) :
    Standing latest c.reset where
  coherent := .none
  backed s hs := by
    have hflag : (Flags.none : CalStatus).has s.flag = true := hs
    simp at hflag

theorem Standing.put (h : Standing latest c) {o : CalFlag}
    (ho : o = .enhancedResponse ∨ o = .interpolated) (b : Bool) :
    Standing latest { c with status := c.status.put o b } where
  coherent := h.coherent.put ho b
  backed s hs := by
    have hother : (c.status.put o b).has s.flag = c.status.has s.flag := by
      rcases ho with rfl | rfl <;> cases s <;> exact Flags.has_put_of_ne _ _ (by decide)
    rw [hother] at hs
    obtain ⟨a, ha, hbacked⟩ := h.backed s hs
    exact ⟨a, ha, hbacked.of_same rfl fun i _ => rfl⟩

theorem Standing.onPlan (h : Standing latest c) (plan : FrequencyPlan) :
    Standing latest (c.onPlan plan) := by
  by_cases hplan : c.plan = plan
  · rw [onPlan_of_eq hplan]
    exact h
  · rw [onPlan_of_ne hplan]
    refine ⟨.none, fun s hs => ?_⟩
    simp at hs

theorem Standing.collect {sweeper : Sweeper σ α} {s : Standard} {averaging : UInt16}
    {r : Except Failure Unit} {values : List (List (Nat × Phasor α))} {w w' : σ}
    (h : Standing latest c) (hfits : (sweeper.plan w).points.toNat ≤ N)
    (honce : sweeper.Once s averaging w)
    (hreading : sweeper.reading s averaging w = .ok ((r, values), w'))
    (hcollect : c.collect sweeper s averaging w = .ok ((r, c'), w')) :
    Standing (Function.update latest s (some ⟨sweeper.plan w, averaging, r, values⟩)) c' := by
  obtain ⟨values', hreading', hplan, hstatus, hother, hown⟩ := collect_inv hcollect
  cases hreading.symm.trans hreading'
  have hstanding := h.onPlan (sweeper.plan w)
  refine ⟨hstatus ▸ hstanding.coherent.collected s _, fun t ht => ?_⟩
  by_cases hts : t = s
  · subst hts
    have hr : r = .ok () := by
      rw [hstatus, Standard.has_collected_same] at ht
      cases r with
      | error e => cases ht
      | ok u => rfl
    subst hr
    obtain ⟨-, hmean⟩ := hown rfl
    refine ⟨_, Function.update_self _ _ _, hplan.symm, hfits, rfl,
      Sweeper.reading_length hreading, honce hreading, fun i hi => ?_⟩
    have hpoints : i < c'.points := by
      unfold Calibration.points
      rw [hplan]
      exact Nat.lt_min.mpr ⟨hi, Nat.lt_of_lt_of_le hi hfits⟩
    refine hmean i hpoints fun pass hin => ?_
    obtain ⟨z, hz⟩ := honce hreading pass hin i hi
    exact ⟨z, mem_of_handed (hz ▸ List.mem_singleton_self z)⟩
  · rw [hstatus, Standard.has_collected_of_ne _ _ hts] at ht
    obtain ⟨a, ha, hbacked⟩ := hstanding.backed t ht
    refine ⟨a, (Function.update_of_ne hts _ _).trans ha, hbacked.of_same ?_ fun i _ => ?_⟩
    · rw [hplan, onPlan_plan]
    · rw [hother _ fun hslot => hts (Standard.slot_injective hslot), valueAt_onPlan]

theorem Course.holds (h : Course latest c) : Standing latest c := by
  induction h with
  | empty => exact ⟨.none, fun s hs => by simp [Calibration.empty] at hs⟩
  | collect _ hfits honce hreading hcollect ih => exact ih.collect hfits honce hreading hcollect
  | solve _ ih => exact ih.solve
  | reset => exact reset_standing _ _
  | setEnhancedResponse on _ ih => exact ih.put (Or.inl rfl) on
  | updateInterpolation plan _ ih => exact ih.put (Or.inr rfl) _

/-! ## The next measurement -/

/-- What a measurement makes of the flags: the correction is off, the terms that the standard went
into are void, its own flag says whether the measurement succeeded, and on the same plan the flags
of the other standards stay. -/
def Flagged (s : Standard) (r : Except Failure Unit) (c c' : Calibration α N) : Prop :=
  c'.status.has .apply = false ∧
    (s = .open ∨ s = .short →
      c'.status.has .sourceMatch = false ∧ c'.status.has .reflectionTracking = false) ∧
    (s = .thru → c'.status.has .transmissionTracking = false) ∧
    (c'.status.has s.flag = true ↔ r = .ok ()) ∧
    (c'.plan = c.plan → ∀ t, t ≠ s → c'.status.has t.flag = c.status.has t.flag)

theorem collect_flagged {sweeper : Sweeper σ α} {s : Standard} {averaging : UInt16}
    {r : Except Failure Unit} {c c' : Calibration α N} {w w' : σ}
    (h : c.collect sweeper s averaging w = .ok ((r, c'), w')) : Flagged s r c c' := by
  obtain ⟨values, -, hplan, hstatus, -⟩ := collect_inv h
  unfold Flagged
  rw [hstatus]
  refine ⟨s.has_collected_apply _ _, ?_, ?_, ?_, fun hsame t ht => ?_⟩
  · rintro (rfl | rfl) <;> simp [Standard.has_collected, Standard.flag]
  · rintro rfl
    simp [Standard.has_collected, Standard.flag]
  · rw [Standard.has_collected_same]
    cases r with
    | error e => exact iff_of_false Bool.false_ne_true fun hr => by cases hr
    | ok u => exact iff_of_true rfl rfl
  · rw [Standard.has_collected_of_ne _ _ ht, onPlan_of_eq (hsame.symm.trans hplan)]

/-! ## Exactly computed -/

variable {K : Type} [Field K] [LinearOrder K] [IsStrictOrderedRing K]

/-- In every calibration that the operations bring about: the flag of a standard vouches that its
latest measurement succeeded on the present plan, and that its slot holds the mean of the passes of
that measurement at each point; a standard and the term that takes its slot are never flagged
together; a source match comes with a reflection tracking; with the correction on, no open, short
or thru is flagged. And the next measurement, whatever comes of it, voids what it has to. -/
theorem Course.holds_latest {latest : Standard → Option (Attempt K)} {c : Calibration K N}
    (h : Course latest c) :
    (∀ s : Standard, c.status.has s.flag = true → ∃ a, latest s = some a ∧ a.outcome = .ok () ∧
      a.plan = c.plan ∧ c.points = a.plan.points.toNat ∧
      a.passes.length = (max a.averaging 1).toNat ∧
      ∀ i < a.plan.points.toNat, (∀ pass ∈ a.passes, ∃ z, handed i pass = [z]) ∧
        c.valueAt s.slot i = some ((a.passes.flatMap (handed i)).sum / a.passes.length)) ∧
    (c.status.has .open = true → c.status.has .sourceMatch = false) ∧
    (c.status.has .short = true → c.status.has .reflectionTracking = false) ∧
    (c.status.has .thru = true → c.status.has .transmissionTracking = false) ∧
    (c.status.has .sourceMatch = true → c.status.has .reflectionTracking = true) ∧
    (c.status.has .apply = true →
      c.status.has .open = false ∧ c.status.has .short = false ∧ c.status.has .thru = false) ∧
    ∀ {σ : Type} {sweeper : Sweeper σ K} {s : Standard} {averaging : UInt16}
      {r : Except Failure Unit} {c' : Calibration K N} {w w' : σ},
      c.collect sweeper s averaging w = .ok ((r, c'), w') → Flagged s r c c' := by
  obtain ⟨⟨hmatch, htracking, hthrough, htracked, happlied⟩, hbacked⟩ := h.holds
  have hexclusive {a b : Bool} (hab : a = true → b = false) : b = true → a = false := by
    intro hb
    cases a with
    | false => rfl
    | true => cases hb.symm.trans (hab rfl)
  refine ⟨fun s hs => ?_, hexclusive hmatch, hexclusive htracking, hexclusive hthrough, htracked,
    happlied, collect_flagged⟩
  obtain ⟨a, ha, hb⟩ := hbacked s hs
  refine ⟨a, ha, hb.outcome, hb.plan, hb.points, hb.count, fun i hi => ?_⟩
  have honce := fun pass hin => hb.once pass hin i hi
  refine ⟨honce, ?_⟩
  have hne : a.passes ≠ [] := by
    have hcount := hb.count
    have hpos := one_le_averaging a.averaging
    rintro hnil
    simp [hnil] at hcount
    omega
  rw [hb.value i hi, mean_once hne honce]

def drifting (plan : FrequencyPlan) (v : Nat → Nat → Phasor α) : Sweeper Nat α where
  plan _ := plan
  bandwidth _ := Parameters.bandwidth100
  setBandwidth _ := pure ()
  sweep _ _ := do
    let pass ← get
    set (pass + 1)
    return ⟨(List.range plan.points.toNat).map fun i => (i, v pass i), .ok ()⟩

omit [Scalar α] in
theorem drifting_once (plan : FrequencyPlan) (v : Nat → Nat → Phasor α) (s : Standard)
    (averaging : UInt16) (w : Nat) : (drifting plan v).Once s averaging w := by
  have hset : ∀ {b : UInt16} {u : Nat} {x : Unit} {u' : Nat}, True →
      (drifting plan v).setBandwidth b u = .ok (x, u') → True := fun _ _ => trivial
  intro values w' hreading
  refine Sweeper.reading_forall hset ?_ trivial hreading
  rintro u d u' - hsweep
  refine ⟨trivial, fun _ i hi => ?_⟩
  cases hsweep
  exact ⟨_, handed_range (v u) hi⟩

/-- Three passes over two points are averaged. -/
theorem Course.holds_latest_drifting :
    ∃ (latest : Standard → Option (Attempt ℚ)) (c : Calibration ℚ 2),
      Course latest c ∧ c.status.has .short = true ∧
        c.valueAt .reflectionTracking 1 = some ⟨2, -1⟩ := by
  obtain ⟨values, c, hreading, hcollect, hflag, hmean⟩ :
      ∃ (values : List (List (Nat × Phasor ℚ))) (c : Calibration ℚ 2),
        (drifting ⟨1000, 2000, 2⟩ fun pass i => (⟨pass + i, -1⟩ : Phasor ℚ)).reading .short 3 0 =
          .ok ((.ok (), values), 3) ∧
        Calibration.collect (drifting ⟨1000, 2000, 2⟩ fun pass i => (⟨pass + i, -1⟩ : Phasor ℚ))
          .short 3 .empty 0 = .ok ((.ok (), c), 3) ∧
        c.status.has .short = true ∧
        (values.flatMap (handed 1)).sum / values.length = ⟨2, -1⟩ :=
    ⟨_, _, rfl, rfl, rfl, by decide +kernel⟩
  have hcourse := Course.empty.collect (by decide) (drifting_once _ _ _ _ _) hreading hcollect
  obtain ⟨hbacked, -⟩ := Course.holds_latest hcourse
  obtain ⟨a, ha, -, -, -, -, hvalue⟩ := hbacked .short hflag
  rw [Function.update_self] at ha
  cases ha
  refine ⟨_, c, hcourse, hflag, (hvalue 1 (Nat.lt_succ_self 1)).2.trans ?_⟩
  exact congrArg some hmean

end Calibration

end NetworkAnalyzer
