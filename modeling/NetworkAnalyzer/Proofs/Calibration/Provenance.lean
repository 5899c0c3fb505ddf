import NetworkAnalyzer.Proofs.Calibration.Ledger
import NetworkAnalyzer.Proofs.Calibration.Storing

/-!
# Calibrations are as their ledger says

`Holds L c` relates the flags and the tables of a calibration to a ledger: a slot holds a
standard exactly if its flag says so, a solved term exactly if the status lists it, and at the
points of the plan the values are those of the ledger. Each operation on calibrations keeps
the relation, so it holds of every history.

The ledger decides by origin, solving decides by flags. That the two come to the same is the long
part, and it is done slot by slot:

* a standard that was measured is flagged, and the flags tell the reflection set of the ledger
  (`Holds.reflectionSet`);
* a term that is solved is solved from columns that the table has (`Agrees`), one lemma for each
  reflection set;
* a term that is not solved stays if the status lists it, or becomes neutral (`Holds.value_kept`).

What is not flagged is not read: solving takes an absent load or isolation as zero. This is why the
old values that another plan leaves in the tables never show.

## Main results

* `Holds.collected`, `Holds.collect`: measuring a standard, successfully or not.
* `Holds.value_solve`, `Holds.solve`: solving by the flags of the status is solving by origin.
* `Holds.load`: loading the record of another calibration, which brings its ledger with it.
* `Calibration.History.holds`: the relation holds of every history.
-/

namespace NetworkAnalyzer

variable {α : Type} [Scalar α] {N : Nat}

/-- Of the standards only the one that was measured changes its flag. -/
theorem Standard.has_collected_standard (s : Standard) (status : CalStatus) (valid : Bool)
    (t : Term) : (s.collected status valid).has t.standardFlag =
      if t = s.slot then valid else status.has t.standardFlag := by
  cases s <;> cases t <;>
    simp (disch := decide) [collected, flag, slot, Term.standardFlag, Flags.has_put_of_ne]

/-- Of the solved terms those lose their flag that share their slot with a standard of the same
kind. -/
theorem Standard.isListed_collected (s : Standard) (status : CalStatus) (valid : Bool) (t : Term) :
    t.isListed (s.collected status valid) =
      if t = s.slot ∨ s.voids t = true then false else t.isListed status := by
  cases t <;> cases s <;>
    simp (disch := decide) [Term.isListed, Term.solvedFlag, collected, flag, slot, voids,
      Flags.has_put_of_ne]

/-- The ledger tells the truth about a calibration: its plan and flags, and for every slot where the
values come from. -/
structure Ledger.Holds (L : Ledger α) (c : Calibration α N) : Prop where
  plan : c.plan = L.plan
  fits : L.plan.points.toNat ≤ N
  applied : c.status.has .apply = L.applied
  measured : ∀ s : Term, c.status.has s.standardFlag = (L.origin.get s).isMeasured
  solved : ∀ s : Term, s.isListed c.status = (L.origin.get s).isSolved
  exclusive : L.Exclusive
  /-- Once the correction is enabled, every slot stands for its term. -/
  complete : L.applied = true → ∀ s i, ∃ z, (L.origin.get s).term s i = some z
  value : ∀ s, ∀ i < L.plan.points.toNat, ∀ z, (L.origin.get s).value s i = some z →
    c.valueAt s i = some z

namespace Ledger

variable {L : Ledger α} {c c' : Calibration α N}

theorem fresh_holds {plan : FrequencyPlan} (hplan : c.plan = plan) (hfits : plan.points.toNat ≤ N)
    (hstatus : c.status = .none) : (fresh plan : Ledger α).Holds c := by
  have hstale : ∀ s, (fresh plan : Ledger α).origin.get s = .stale := Slots.get_build _
  refine ⟨hplan, hfits, ?_, fun s => ?_, fun s => ?_, fun _ => ⟨rfl, rfl⟩, fun h => (by cases h),
    fun s i _ z hz => ?_⟩
  · rw [hstatus]
    exact Flags.has_none _
  · rw [hstatus, hstale]
    exact Flags.has_none _
  · rw [hstatus, hstale]
    cases s <;> rfl
  · rw [hstale] at hz
    cases hz

theorem Holds.points (h : L.Holds c) : c.points = L.plan.points.toNat := by
  unfold Calibration.points
  rw [h.plan]
  exact Nat.min_eq_left h.fits

/-- What changes neither plan nor tables nor any of the flags the ledger knows. -/
theorem Holds.of_same (h : L.Holds c) (hplan : c'.plan = c.plan)
    (hvalue : ∀ s, ∀ i < L.plan.points.toNat, c'.valueAt s i = c.valueAt s i)
    (happly : c'.status.has .apply = c.status.has .apply)
    (hmeasured : ∀ s : Term, c'.status.has s.standardFlag = c.status.has s.standardFlag)
    (hsolved : ∀ s : Term, s.isListed c'.status = s.isListed c.status) :
    L.Holds c' where
  plan := hplan.trans h.plan
  fits := h.fits
  applied := happly.trans h.applied
  measured s := (hmeasured s).trans (h.measured s)
  solved s := (hsolved s).trans (h.solved s)
  exclusive := h.exclusive
  complete := h.complete
  value s i hi z hz := (hvalue s i hi).trans (h.value s i hi z hz)

theorem Holds.put (h : L.Holds c) {o : CalFlag} (ho : o = .enhancedResponse ∨ o = .interpolated)
    (b : Bool) : L.Holds { c with status := c.status.put o b } := by
  have hother : ∀ f, f ≠ .enhancedResponse → f ≠ .interpolated →
      (c.status.put o b).has f = c.status.has f := by
    intro f he hi
    refine Flags.has_put_of_ne _ _ ?_
    rcases ho with rfl | rfl <;> assumption
  refine h.of_same rfl (fun _ _ _ => rfl) (hother _ (by decide) (by decide)) (fun s => ?_)
    fun s => ?_
  · cases s <;> exact hother _ (by decide) (by decide)
  · cases s <;> first | rfl | exact hother _ (by decide) (by decide)

theorem Holds.onPlan (h : L.Holds c) {plan : FrequencyPlan} (hfits : plan.points.toNat ≤ N) :
    (L.onPlan plan).Holds (c.onPlan plan) := by
  unfold Ledger.onPlan
  split
  · rename_i hsame
    rw [Calibration.onPlan_of_eq (h.plan.trans hsame)]
    exact h
  · rename_i hother
    rw [Calibration.onPlan_of_ne (by rw [h.plan]; exact hother)]
    exact fresh_holds rfl hfits rfl

omit [Scalar α] in
theorem get_collected (L : Ledger α) (s : Standard) (column : Option (Nat → Phasor α)) (t : Term) :
    (L.collected s column).origin.get t =
      if t = s.slot then
        match column with
        | some column => .measured column
        | none => .stale
      else if s.voids t then (L.origin.get t).void
      else L.origin.get t := Slots.get_build _ _

omit [Scalar α] in
theorem Exclusive.collected (h : L.Exclusive) (s : Standard) (column : Option (Nat → Phasor α)) :
    (L.collected s column).Exclusive := by
  have hown : ∀ column : Option (Nat → Phasor α), (match column with
      | some column => Origin.measured column
      | none => .stale).isSolved = false := by intro column; cases column <;> rfl
  cases s with
  | load => exact h
  | «open» => exact fun _ => ⟨hown column, Origin.isSolved_void _⟩
  | short => exact fun _ => ⟨Origin.isSolved_void _, hown column⟩
  | thru => exact h
  | isolation => exact h

/-- What a measurement makes of a calibration, it makes of its ledger. -/
theorem Holds.collected (h : L.Holds c) {s : Standard} {column : Option (Nat → Phasor α)}
    (hplan : c'.plan = c.plan) (hstatus : c'.status = s.collected c.status column.isSome)
    (hother : ∀ t, t ≠ s.slot → ∀ i, c'.valueAt t i = c.valueAt t i)
    (hown : ∀ col, column = some col → ∀ i < L.plan.points.toNat,
      c'.valueAt s.slot i = some (col i)) : (L.collected s column).Holds c' where
  plan := hplan.trans h.plan
  fits := h.fits
  applied := by
    rw [hstatus]
    exact s.has_collected_apply _ _
  measured t := by
    rw [hstatus, get_collected, s.has_collected_standard]
    by_cases ht : t = s.slot
    · rw [if_pos ht, if_pos ht]
      cases column <;> rfl
    · rw [if_neg ht, if_neg ht, h.measured t]
      split
      · exact (Origin.isMeasured_void _).symm
      · rfl
  solved t := by
    rw [hstatus, get_collected, s.isListed_collected]
    by_cases ht : t = s.slot
    · rw [if_pos (Or.inl ht), if_pos ht]
      cases column <;> rfl
    · rw [if_neg ht]
      by_cases hv : s.voids t = true
      · rw [if_pos (Or.inr hv), if_pos hv, Origin.isSolved_void]
      · rw [if_neg (not_or.mpr ⟨ht, hv⟩), if_neg hv, h.solved t]
  exclusive := h.exclusive.collected s column
  complete happly := by cases happly
  value t i hi z hz := by
    rw [get_collected] at hz
    by_cases ht : t = s.slot
    · subst ht
      rw [if_pos rfl] at hz
      cases column with
      | none => cases hz
      | some col =>
        cases hz
        exact hown col rfl i hi
    · rw [if_neg ht] at hz
      refine (hother t ht i).trans (h.value t i hi z ?_)
      split at hz
      · cases ho : L.origin.get t with
        | measured col => rw [ho] at hz; exact hz
        | stale => rw [ho] at hz; cases hz
        | solved col => rw [ho] at hz; cases hz
        | neutral => rw [ho] at hz; cases hz
      · exact hz

/-! ## Solving -/

theorem Holds.reflectionSet (h : L.Holds c) : ReflectionSet.of c.status = L.reflectionSet := by
  unfold ReflectionSet.of Ledger.reflectionSet
  rw [show c.status.has .short = _ from h.measured .reflectionTracking,
    show c.status.has .open = _ from h.measured .sourceMatch]
  rfl

/-- Solving makes terms of the standards that are no terms as they were measured. -/
theorem isMeasured_solve (L : Ledger α) (s : Term) :
    (L.solve.origin.get s).isMeasured = (s.solvedFlag.isNone && (L.origin.get s).isMeasured) := by
  cases s with
  | directivity => exact Origin.isMeasured_direct _
  | sourceMatch =>
    change L.matchTerm.isMeasured = false
    unfold matchTerm
    split <;> first | rfl | exact Origin.isMeasured_settled _
  | reflectionTracking =>
    change L.trackingTerm.isMeasured = false
    unfold trackingTerm
    split <;> first | rfl | exact Origin.isMeasured_settled _
  | transmissionTracking =>
    change L.throughTerm.isMeasured = false
    unfold throughTerm
    split <;> first | rfl | exact Origin.isMeasured_settled _
  | isolation => exact Origin.isMeasured_direct _

theorem solve_complete (L : Ledger α) (s : Term) (i : Nat) :
    ∃ z, (L.solve.origin.get s).term s i = some z := by
  have hsettled : ∀ o : Origin α, ∃ z, o.settled.term s i = some z := by
    intro o; cases o <;> exact ⟨_, rfl⟩
  have hdirect : s.solvedFlag = none → ∀ o : Origin α, ∃ z, o.direct.term s i = some z := by
    intro hs o; cases o <;> first | exact ⟨_, rfl⟩ | exact ⟨_, if_pos hs⟩
  cases s with
  | directivity => exact hdirect rfl _
  | sourceMatch =>
    change ∃ z, L.matchTerm.term _ i = some z
    unfold matchTerm
    split <;> first | exact ⟨_, rfl⟩ | exact hsettled _
  | reflectionTracking =>
    change ∃ z, L.trackingTerm.term _ i = some z
    unfold trackingTerm
    split <;> first | exact ⟨_, rfl⟩ | exact hsettled _
  | transmissionTracking =>
    change ∃ z, L.throughTerm.term _ i = some z
    unfold throughTerm
    split <;> first | exact ⟨_, rfl⟩ | exact hsettled _
  | isolation => exact hdirect rfl _

/-- The status after solving lists the terms that the ledger has as solved. -/
theorem Holds.isListed_solve (h : L.Holds c) (s : Term) :
    s.isListed (solvedStatus c.status) = (L.solve.origin.get s).isSolved := by
  have hmeasured := h.measured
  have hsolved := h.solved
  cases s with
  | directivity => exact (Origin.isSolved_direct _).symm
  | sourceMatch =>
    refine (has_solvedStatus c.status .sourceMatch).trans ?_
    change (_ : Bool) = L.matchTerm.isSolved
    dsimp only
    rw [show c.status.has .sourceMatch = _ from hsolved .sourceMatch,
      show c.status.has .open = _ from hmeasured .sourceMatch,
      show c.status.has .short = _ from hmeasured .reflectionTracking]
    unfold matchTerm Ledger.reflectionSet
    cases ho : L.origin.sourceMatch.isMeasured <;>
      cases hr : L.origin.reflectionTracking.isMeasured
    · simp [Slots.get, ho]
    · simp [Slots.get, ho, hr, (h.exclusive (Or.inr hr)).1]
    · simp [Slots.get, ho, hr, (h.exclusive (Or.inl ho)).1]
    · simp [Slots.get, ho, hr]
  | reflectionTracking =>
    refine (has_solvedStatus c.status .reflectionTracking).trans ?_
    change (_ : Bool) = L.trackingTerm.isSolved
    dsimp only
    rw [show c.status.has .reflectionTracking = _ from hsolved .reflectionTracking,
      show c.status.has .open = _ from hmeasured .sourceMatch,
      show c.status.has .short = _ from hmeasured .reflectionTracking]
    unfold trackingTerm Ledger.reflectionSet
    cases ho : L.origin.sourceMatch.isMeasured <;>
      cases hr : L.origin.reflectionTracking.isMeasured <;>
      simp [Slots.get, ho, hr]
  | transmissionTracking =>
    refine (has_solvedStatus c.status .transmissionTracking).trans ?_
    change (_ : Bool) = L.throughTerm.isSolved
    dsimp only
    rw [show c.status.has .transmissionTracking = _ from hsolved .transmissionTracking,
      show c.status.has .thru = _ from hmeasured .transmissionTracking]
    unfold throughTerm
    cases ht : L.origin.transmissionTracking.isMeasured <;>
      simp [Slots.get, ht]
  | isolation => exact (Origin.isSolved_direct _).symm

/-! ### Values -/

theorem get_row (L : Ledger α) (i : Nat) (s : Term) :
    (L.row i).get s = (L.origin.get s).column i := Slots.get_build _ s

/-- At a point, the slots of a table are as the ledger has them. -/
structure Agrees (L : Ledger α) (status : CalStatus) (i : Nat) (t : Terms α) : Prop where
  directivity : (t.cleared status).directivity = (L.row i).directivity
  isolation : (t.cleared status).isolation = (L.row i).isolation
  measured : ∀ s, (L.origin.get s).isMeasured = true → t.get s = (L.row i).get s
  solved : ∀ s, (L.origin.get s).isSolved = true → t.get s = (L.row i).get s

theorem Holds.agrees (h : L.Holds c) {i : Nat} (hi : i < L.plan.points.toNat) {t : Terms α}
    (ht : c.table[i]? = some t) : L.Agrees c.status i t := by
  have hvalue : ∀ s z, (L.origin.get s).value s i = some z → t.get s = z := by
    intro s z hz
    have hs := h.value s i hi z hz
    unfold Calibration.valueAt at hs
    rw [ht] at hs
    exact Option.some.inj hs
  have hstandard : ∀ s, (L.origin.get s).hasStandard = true → t.get s = (L.row i).get s := by
    intro s hs
    rw [get_row]
    cases ho : L.origin.get s with
    | stale => rw [ho] at hs; cases hs
    | measured column => exact hvalue s _ (by rw [ho]; rfl)
    | solved column => exact hvalue s _ (by rw [ho]; rfl)
    | neutral => rw [ho] at hs; cases hs
  have hzero : ∀ s, (L.origin.get s).hasStandard = false → (L.row i).get s = 0 := by
    intro s hs
    rw [get_row]
    cases ho : L.origin.get s with
    | stale => rfl
    | measured column => rw [ho] at hs; cases hs
    | solved column => rw [ho] at hs; cases hs
    | neutral => rfl
  have hmeasured : ∀ s, (L.origin.get s).isMeasured = true → t.get s = (L.row i).get s :=
    fun s hs => hstandard s (by simp [Origin.hasStandard, hs])
  have hdirect : ∀ s, s.solvedFlag = none → (if c.status.has s.standardFlag then t.get s else 0) =
      (L.row i).get s := by
    intro s hs
    have hunsolved : (L.origin.get s).isSolved = false := by
      rw [← h.solved s]
      unfold Term.isListed
      rw [hs]
    rw [h.measured s]
    cases hm : (L.origin.get s).isMeasured with
    | true => exact hmeasured s hm
    | false => exact (hzero s (by simp [Origin.hasStandard, hm, hunsolved])).symm
  exact ⟨hdirect .directivity rfl, hdirect .isolation rfl, hmeasured,
    fun s hs => hstandard s (by simp [Origin.hasStandard, hs])⟩

omit [Scalar α] in
theorem reflectionSet_measured {L : Ledger α} :
    match L.reflectionSet with
    | .shortOpen => L.origin.sourceMatch.isMeasured = true ∧
        L.origin.reflectionTracking.isMeasured = true
    | .openOnly => L.origin.sourceMatch.isMeasured = true
    | .shortOnly => L.origin.reflectionTracking.isMeasured = true
    | .neither => True := by
  unfold Ledger.reflectionSet
  cases ho : L.origin.sourceMatch.isMeasured <;>
    cases hr : L.origin.reflectionTracking.isMeasured <;> simp

section Values

variable {status : CalStatus} {i : Nat} {t : Terms α}

/-- Source match and reflection tracking read directivity, open and short. -/
theorem Agrees.shortOpen (h : L.Agrees status i t) (hset : L.reflectionSet = .shortOpen) :
    (t.cleared status).solveMatch.sourceMatch = (L.row i).solveMatch.sourceMatch ∧
      ((t.cleared status).solveMatch.solveReflection (-1)).reflectionTracking =
        ((L.row i).solveMatch.solveReflection (-1)).reflectionTracking := by
  have hfacts := reflectionSet_measured (L := L)
  rw [hset] at hfacts
  have hopen : (t.cleared status).sourceMatch = (L.row i).sourceMatch :=
    h.measured .sourceMatch hfacts.1
  have hshort : (t.cleared status).reflectionTracking = (L.row i).reflectionTracking :=
    h.measured .reflectionTracking hfacts.2
  unfold Terms.solveReflection Terms.solveMatch
  dsimp only
  rw [h.directivity, hopen, hshort]
  exact ⟨rfl, rfl⟩

theorem Agrees.openOnly (h : L.Agrees status i t) (hset : L.reflectionSet = .openOnly) :
    (Terms.solveReflection { (t.cleared status).openAsShort with sourceMatch := 0 }
        1).reflectionTracking =
      (Terms.solveReflection { (L.row i).openAsShort with sourceMatch := 0 }
        1).reflectionTracking := by
  have hfacts := reflectionSet_measured (L := L)
  rw [hset] at hfacts
  have hopen : (t.cleared status).sourceMatch = (L.row i).sourceMatch :=
    h.measured .sourceMatch hfacts
  unfold Terms.solveReflection Terms.openAsShort
  dsimp only
  rw [h.directivity, hopen]

theorem Agrees.shortOnly (h : L.Agrees status i t) (hset : L.reflectionSet = .shortOnly) :
    (Terms.solveReflection { t.cleared status with sourceMatch := 0 } (-1)).reflectionTracking =
      (Terms.solveReflection { L.row i with sourceMatch := 0 } (-1)).reflectionTracking := by
  have hfacts := reflectionSet_measured (L := L)
  rw [hset] at hfacts
  have hshort : (t.cleared status).reflectionTracking = (L.row i).reflectionTracking :=
    h.measured .reflectionTracking hfacts
  unfold Terms.solveReflection
  dsimp only
  rw [h.directivity, hshort]

theorem Agrees.thru (h : L.Agrees status i t)
    (hthru : L.origin.transmissionTracking.isMeasured = true) :
    (t.cleared status).solveTransmission.transmissionTracking =
      (L.row i).solveTransmission.transmissionTracking := by
  have hvalue : (t.cleared status).transmissionTracking = (L.row i).transmissionTracking :=
    h.measured .transmissionTracking hthru
  unfold Terms.solveTransmission
  dsimp only
  rw [h.isolation, hvalue]

end Values

theorem value_direct {o : Origin α} {s : Term} (hs : s.neutral = (0 : Phasor α)) (i : Nat)
    (ho : o.isSolved = false) : o.direct.value s i = some (o.column i) := by
  cases o with
  | solved column => cases ho
  | measured column => rfl
  | stale => exact congrArg some hs
  | neutral => exact congrArg some hs

theorem value_settled (o : Origin α) (s : Term) (i : Nat) :
    o.settled.value s i = some (if o.isSolved then o.column i else s.neutral) := by
  cases o <;> rfl

/-- A term that is not solved anew stays if the status lists it, or becomes neutral. -/
theorem Holds.value_kept (h : L.Holds c) {i : Nat} {t : Terms α} (hagrees : L.Agrees c.status i t)
    (s : Term) : (L.origin.get s).settled.value s i =
      some (if s.isListed c.status then t.get s else s.neutral) := by
  rw [value_settled, h.solved s]
  cases hs : (L.origin.get s).isSolved with
  | true => rw [if_pos rfl, if_pos rfl, hagrees.solved s hs, get_row]
  | false => rfl

/-- Solving by the status leaves the terms that the ledger solves by origin. -/
theorem Holds.value_solve (h : L.Holds c) {i : Nat} (hi : i < L.plan.points.toNat) {t : Terms α}
    (ht : c.table[i]? = some t) (s : Term) :
    (L.solve.origin.get s).value s i = some ((t.solve c.status).get s) := by
  have hagrees := h.agrees hi ht
  have hset := h.reflectionSet
  have hsolved := h.solved
  have hkept := fun s => h.value_kept hagrees s
  rw [Terms.solve_eq]
  cases s with
  | directivity =>
    refine (value_direct rfl i (hsolved .directivity).symm).trans ?_
    rw [← get_row L i .directivity]
    exact congrArg some hagrees.directivity.symm
  | sourceMatch =>
    change L.matchTerm.value _ i = some (t.matchOf c.status)
    unfold matchTerm Terms.matchOf
    rw [hset]
    cases hs : L.reflectionSet with
    | shortOpen => exact congrArg some (hagrees.shortOpen hs).1.symm
    | openOnly => rfl
    | shortOnly => rfl
    | neither => exact hkept .sourceMatch
  | reflectionTracking =>
    change L.trackingTerm.value _ i = some (t.trackingOf c.status)
    unfold trackingTerm Terms.trackingOf
    rw [hset]
    cases hs : L.reflectionSet with
    | shortOpen => exact congrArg some (hagrees.shortOpen hs).2.symm
    | openOnly => exact congrArg some (hagrees.openOnly hs).symm
    | shortOnly => exact congrArg some (hagrees.shortOnly hs).symm
    | neither => exact hkept .reflectionTracking
  | transmissionTracking =>
    change L.throughTerm.value _ i = some (t.throughOf c.status)
    unfold throughTerm Terms.throughOf
    rw [show c.status.has .thru = _ from h.measured .transmissionTracking]
    by_cases hthru : L.origin.transmissionTracking.isMeasured = true
    · rw [if_pos hthru, if_pos (show (L.origin.get .transmissionTracking).isMeasured = true from
        hthru)]
      exact congrArg some (hagrees.thru hthru).symm
    · rw [if_neg hthru, if_neg (show ¬(L.origin.get .transmissionTracking).isMeasured = true from
        hthru)]
      exact hkept .transmissionTracking
  | isolation =>
    refine (value_direct rfl i (hsolved .isolation).symm).trans ?_
    rw [← get_row L i .isolation]
    exact congrArg some hagrees.isolation.symm

/-- Solving a calibration solves its ledger. -/
theorem Holds.solve (h : L.Holds c) : L.solve.Holds c.solve where
  plan := h.plan
  fits := h.fits
  applied := has_solvedStatus c.status .apply
  measured s := by
    rw [isMeasured_solve, ← h.measured s]
    refine (has_solvedStatus c.status s.standardFlag).trans ?_
    cases s <;> rfl
  solved s := h.isListed_solve s
  exclusive hraw := by
    have hmatch : L.solve.origin.sourceMatch.isMeasured = false := isMeasured_solve L .sourceMatch
    have htracking : L.solve.origin.reflectionTracking.isMeasured = false :=
      isMeasured_solve L .reflectionTracking
    rcases hraw with hraw | hraw
    · exact absurd (hraw.symm.trans hmatch) (by decide)
    · exact absurd (hraw.symm.trans htracking) (by decide)
  complete _ := L.solve_complete
  value s i hi z hz := by
    have hN : i < N := Nat.lt_of_lt_of_le hi h.fits
    have hpoints : i < c.points := by
      rw [h.points]
      exact hi
    have hentry : c.table[i]? = some c.table[i] := Vector.getElem?_eq_getElem hN
    rw [h.value_solve hi hentry s] at hz
    cases hz
    unfold Calibration.valueAt Calibration.solve
    rw [Vector.getElem?_mapIdx, hentry]
    simp only [Option.map_some, if_pos hpoints]

/-! ## Every history -/

theorem Holds.collect {σ : Type} {sweeper : Sweeper σ α} {s : Standard} {averaging : UInt16}
    {r : Except Failure Unit} {w w' : σ} (h : L.Holds c)
    (hfits : (sweeper.plan w).points.toNat ≤ N)
    (hcomplete : sweeper.Complete s averaging w)
    (hrun : c.collect sweeper s averaging w = .ok ((r, c'), w')) :
    (L.collect sweeper s averaging w).Holds c' := by
  obtain ⟨values, hreading, hplan, hstatus, hother, hown⟩ := Calibration.collect_inv hrun
  have hnew := h.onPlan hfits
  have hplan' : (L.onPlan (sweeper.plan w)).plan = sweeper.plan w :=
    hnew.plan.symm.trans (Calibration.onPlan_plan c _)
  have hsame := Calibration.valueAt_onPlan c (sweeper.plan w)
  have hpoints : c'.points = (sweeper.plan w).points.toNat := by
    unfold Calibration.points
    rw [hplan]
    exact Nat.min_eq_left hfits
  unfold Ledger.collect
  rw [hreading]
  cases r with
  | ok u =>
    refine hnew.collected (hplan.trans (Calibration.onPlan_plan c _).symm) hstatus
      (fun t ht i => (hother t ht i).trans (hsame t i).symm) fun column hcolumn i hi => ?_
    cases hcolumn
    rw [hplan'] at hi
    exact (hown rfl).2 i (by rwa [hpoints]) fun pass hin => hcomplete hreading pass hin i hi
  | error e =>
    refine hnew.collected (hplan.trans (Calibration.onPlan_plan c _).symm) hstatus
      (fun t ht i => (hother t ht i).trans (hsame t i).symm) fun column hcolumn => ?_
    cases hcolumn

end Ledger

theorem Ledger.Holds.load {L : Ledger Float32} {c c' : Calibration Float32 N} (h : L.Holds c')
    (slot : UInt16) : L.Holds (c.load c'.toRecord slot).2 := by
  have hfits : c'.plan.points.toNat ≤ N := by rw [h.plan]; exact h.fits
  rw [Calibration.load_toRecord hfits]
  refine h.of_same rfl (fun s i hi => ?_) rfl (fun _ => rfl) fun _ => rfl
  rw [← h.plan] at hi
  exact Calibration.get_overwrite_toRecord hfits c s hi

/-- Every calibration is as the ledger of its history says. -/
theorem Calibration.History.holds {L : Ledger Float32} {c : Calibration Float32 N}
    (h : History L c) :
    L.Holds c := by
  induction h with
  | empty => exact Ledger.fresh_holds rfl (Nat.zero_le _) rfl
  | collect _ hfits hcomplete hrun ih => exact ih.collect hfits hcomplete hrun
  | solve _ ih => exact ih.solve
  | reset _ ih => exact Ledger.fresh_holds ih.plan ih.fits rfl
  | setEnhancedResponse on _ ih => exact ih.put (Or.inl rfl) on
  | updateInterpolation plan _ ih => exact ih.put (Or.inr rfl) _
  | load slot _ _ _ ih => exact ih.load slot

end NetworkAnalyzer
