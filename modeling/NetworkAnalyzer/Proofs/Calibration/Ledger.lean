import NetworkAnalyzer.Calibration.Record
import NetworkAnalyzer.Proofs.Calibration.NeutralTerms
import NetworkAnalyzer.Proofs.Calibration.Readings
import NetworkAnalyzer.Proofs.Calibration.Solving

/-!
# The ledger of a calibration

The tables of a calibration are overwritten in place: a term takes the slot of a standard,
another plan keeps the old values, a failed pass leaves half a standard. A ledger says what
each slot should hold for the present plan, without looking at tables or flags: nothing, a
standard as it was measured, a term as it was solved, or a neutral value (`Origin`).

| operation             | slot of the standard | terms solved from it | other slots |
|-----------------------|----------------------|----------------------|-------------|
| measured successfully | `measured`           | `stale`              | kept        |
| measured, but failed  | `stale`              | `stale`              | kept        |
| reset, another plan   | `stale`              | `stale`              | `stale`     |

Solving leaves no slot `stale`: each is a standard that is a term as it was measured, a term solved
now or before, or `neutral`.

A ledger is built from the readings of a sweeper (`Sweeper.reading`) and not from the tables, so
that a table which keeps an old value does not agree with it.

* `Ledger.collect`, `Ledger.solve`: what the operations on calibrations do to a ledger.
* `Ledger.Exclusive`: raw reflection standards and terms solved from earlier ones are never side by
  side. Solving would otherwise mix a new open with a tracking of an old short.
* `Ledger.TermsAt`, `Ledger.LooksUp`: the terms at a point and at any frequency.
* `Calibration.History`: calibrations with the ledger of the operations that brought them about.
-/

namespace NetworkAnalyzer

variable {α : Type} [Scalar α] {N : Nat}

/-! ## The ledger -/

/-- Where the contents of a slot come from. A column lists the values at the points of the
plan. -/
inductive Origin (α : Type) where
  /-- Nothing that the present plan accounts for. -/
  | stale
  /-- The standard of the slot, as it was measured. -/
  | measured (column : Nat → Phasor α)
  /-- The term of the slot, as it was solved from standards. -/
  | solved (column : Nat → Phasor α)
  /-- The neutral value of the term. -/
  | neutral

namespace Term

def standardFlag : Term → CalFlag
  | .directivity => .load
  | .sourceMatch => .open
  | .reflectionTracking => .short
  | .transmissionTracking => .thru
  | .isolation => .isolation

/-- The flag of a term that is solved. Load and isolation are terms as they were measured. -/
def solvedFlag : Term → Option CalFlag
  | .sourceMatch => some .sourceMatch
  | .reflectionTracking => some .reflectionTracking
  | .transmissionTracking => some .transmissionTracking
  | .directivity | .isolation => none

def isListed (t : Term) (status : CalStatus) : Bool :=
  match t.solvedFlag with
  | some f => status.has f
  | none => false

end Term

namespace Origin

def isMeasured : Origin α → Bool
  | .measured _ => true
  | _ => false

def isSolved : Origin α → Bool
  | .solved _ => true
  | _ => false

def hasStandard (o : Origin α) : Bool := o.isMeasured || o.isSolved

/-- What a slot of this origin holds at a point. -/
def value (s : Term) (i : Nat) : Origin α → Option (Phasor α)
  | .stale => none
  | .measured column | .solved column => some (column i)
  | .neutral => some s.neutral

/-- The term that a slot of this origin stands for at a point. A raw open, short or thru is
no term. -/
def term (s : Term) (i : Nat) : Origin α → Option (Phasor α)
  | .stale => none
  | .measured column => if s.solvedFlag = none then some (column i) else none
  | .solved column => some (column i)
  | .neutral => some s.neutral

/-- The values of a standard or a solved term; anything else counts as absent, that is zero. -/
def column : Origin α → Nat → Phasor α
  | .measured column | .solved column => column
  | .stale | .neutral => fun _ => 0

/-- Solved terms are void; a measured standard remains one. -/
def void : Origin α → Origin α
  | .measured column => .measured column
  | _ => .stale

/-- A term that is taken as it was measured, or defaulted. -/
def direct : Origin α → Origin α
  | .measured column => .measured column
  | _ => .neutral

/-- A term that was solved before, or defaulted. -/
def settled : Origin α → Origin α
  | .solved column => .solved column
  | _ => .neutral

section Flags

variable (o : Origin α) (f : Nat → Phasor α)

omit [Scalar α]

@[simp] theorem isSolved_solved : (solved f).isSolved = true := rfl
@[simp] theorem isSolved_neutral : (neutral : Origin α).isSolved = false := rfl
@[simp] theorem isMeasured_void : o.void.isMeasured = o.isMeasured := by cases o <;> rfl
@[simp] theorem isSolved_void : o.void.isSolved = false := by cases o <;> rfl
@[simp] theorem isMeasured_direct : o.direct.isMeasured = o.isMeasured := by cases o <;> rfl
@[simp] theorem isSolved_direct : o.direct.isSolved = false := by cases o <;> rfl
@[simp] theorem isMeasured_settled : o.settled.isMeasured = false := by cases o <;> rfl
@[simp] theorem isSolved_settled : o.settled.isSolved = o.isSolved := by cases o <;> rfl

end Flags

end Origin

/-- What the tables of a calibration should hold. -/
structure Ledger (α : Type) where
  plan : FrequencyPlan
  /-- The correction is enabled. -/
  applied : Bool
  origin : Slots (Origin α)

/-- Measuring this standard voids the solved term of the slot. -/
def Standard.voids : Standard → Term → Bool
  | .open, .sourceMatch | .open, .reflectionTracking => true
  | .short, .sourceMatch | .short, .reflectionTracking => true
  | .thru, .transmissionTracking => true
  | _, _ => false

namespace Ledger

def fresh (plan : FrequencyPlan) : Ledger α := ⟨plan, false, .build fun _ => .stale⟩

def onPlan (L : Ledger α) (plan : FrequencyPlan) : Ledger α :=
  if L.plan = plan then L else fresh plan

/-- A standard was measured, or failed to be. -/
def collected (L : Ledger α) (s : Standard) (column : Option (Nat → Phasor α)) : Ledger α :=
  { L with
    applied := false
    origin := .build fun t =>
      if t = s.slot then
        match column with
        | some column => .measured column
        | none => .stale
      else if s.voids t then (L.origin.get t).void
      else L.origin.get t }

/-- A measurement with the readings of the sweeper. -/
def collect {σ : Type} (L : Ledger α) (sweeper : Sweeper σ α) (s : Standard) (averaging : UInt16)
    (w : σ) : Ledger α :=
  match sweeper.reading s averaging w with
  | .ok ((.ok (), values), _) =>
    (L.onPlan (sweeper.plan w)).collected s (some fun i => Calibration.mean i values 0)
  | .ok ((.error _, _), _) => (L.onPlan (sweeper.plan w)).collected s none
  | .error _ => L

/-- The values at a point, absent ones taken as zero. -/
def row (L : Ledger α) (i : Nat) : Terms α := .build fun s => (L.origin.get s).column i

/-- The reflection standards that were measured. -/
def reflectionSet (L : Ledger α) : ReflectionSet :=
  match L.origin.reflectionTracking.isMeasured, L.origin.sourceMatch.isMeasured with
  | true, true => .shortOpen
  | false, true => .openOnly
  | true, false => .shortOnly
  | false, false => .neither

def matchTerm (L : Ledger α) : Origin α :=
  match L.reflectionSet with
  | .shortOpen => .solved fun i => (L.row i).solveMatch.sourceMatch
  | .openOnly | .shortOnly => .neutral
  | .neither => L.origin.sourceMatch.settled

def trackingTerm (L : Ledger α) : Origin α :=
  match L.reflectionSet with
  | .shortOpen =>
    .solved fun i => ((L.row i).solveMatch.solveReflection (-1)).reflectionTracking
  | .openOnly =>
    .solved fun i =>
      (Terms.solveReflection { (L.row i).openAsShort with sourceMatch := 0 } 1).reflectionTracking
  | .shortOnly =>
    .solved fun i =>
      (Terms.solveReflection { L.row i with sourceMatch := 0 } (-1)).reflectionTracking
  | .neither => L.origin.reflectionTracking.settled

def throughTerm (L : Ledger α) : Origin α :=
  if L.origin.transmissionTracking.isMeasured then
    .solved fun i => (L.row i).solveTransmission.transmissionTracking
  else L.origin.transmissionTracking.settled

/-- The terms are solved and the correction is enabled. -/
def solve (L : Ledger α) : Ledger α :=
  { L with
    applied := true
    origin :=
      { directivity := L.origin.directivity.direct
        sourceMatch := L.matchTerm
        reflectionTracking := L.trackingTerm
        transmissionTracking := L.throughTerm
        isolation := L.origin.isolation.direct } }

/-- A raw reflection standard and a term solved from earlier ones are never side by side. -/
def Exclusive (L : Ledger α) : Prop :=
  L.origin.sourceMatch.isMeasured = true ∨ L.origin.reflectionTracking.isMeasured = true →
    L.origin.sourceMatch.isSolved = false ∧ L.origin.reflectionTracking.isSolved = false

/-- At point `i` of the plan, `t` are the terms that were solved, measured or defaulted. -/
def TermsAt (L : Ledger α) (i : Nat) (t : Terms α) : Prop :=
  i < L.plan.points.toNat ∧ ∀ s, (L.origin.get s).term s i = some (t.get s)

end Ledger

/-- What a lookup comes to in the ledger. -/
def Ledger.LooksUp (L : Ledger α) : Lookup → Terms α → Prop
  | .stored i, t => L.TermsAt i.toNat t
  | .line lower offset width shift, t => ∃ lo hi,
    L.TermsAt lower.toNat lo ∧ L.TermsAt (lower.toNat + 1) hi ∧
      t = lo.onLine hi (Lookup.coefficient offset width shift)

/-! ## Histories -/

/-- A calibration that was brought about by the operations on calibrations, and the ledger of
what was done. -/
inductive Calibration.History : Ledger Float32 → Calibration Float32 N → Prop
  | empty : History (.fresh ⟨0, 0, 0⟩) .empty
  | collect {L : Ledger Float32} {c c' : Calibration Float32 N} {σ : Type}
      {sweeper : Sweeper σ Float32} {s : Standard} {averaging : UInt16} {r : Except Failure Unit}
      {w w' : σ} : History L c → (sweeper.plan w).points.toNat ≤ N →
      sweeper.Complete s averaging w →
      c.collect sweeper s averaging w = .ok ((r, c'), w') →
      History (L.collect sweeper s averaging w) c'
  | solve {L : Ledger Float32} {c : Calibration Float32 N} :
      History L c → History L.solve c.solve
  | reset {L : Ledger Float32} {c : Calibration Float32 N} :
      History L c → History (.fresh L.plan) c.reset
  | setEnhancedResponse {L : Ledger Float32} {c : Calibration Float32 N} (on : Bool) :
      History L c → History L (c.setEnhancedResponse on)
  | updateInterpolation {L : Ledger Float32} {c : Calibration Float32 N} (plan : FrequencyPlan) :
      History L c → History L (c.updateInterpolation plan)
  | load {L L' : Ledger Float32} {c c' : Calibration Float32 N} (slot : UInt16) :
      History L c → History L' c' → History L' (c.load c'.toRecord slot).2

end NetworkAnalyzer
