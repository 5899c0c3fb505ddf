import NetworkAnalyzer.Channel
import NetworkAnalyzer.FrequencyPlan
import NetworkAnalyzer.Parameters

/-!
# Calibration tables

A calibration holds five values per frequency point. A raw standard and the error term derived from
it share one slot: deriving the term overwrites the measurement, and the status word says which of
the two a slot holds.

| slot | standard  | term                                     |
|------|-----------|------------------------------------------|
| 0    | load      | directivity                              |
| 1    | open      | source match                             |
| 2    | short     | reflection tracking                      |
| 3    | thru      | transmission tracking, stored inverted   |
| 4    | isolation | isolation                                |

The status lists five standards but three terms only, since source match and the two trackings are
derived and directivity and isolation are the measurements themselves. Measuring a standard voids
the terms that were derived from an earlier measurement (`Standard.collected`). A measurement that
failed voids the standard, too: its slot is partially overwritten.

The tables have room for `N` points, and the plan may ask for more. What is measured, solved and
stored concerns the points that both have (`points`), and everything behind them is kept as it is.

Besides, the status says whether the correction is applied, whether a sweep needs terms between the
points (`updateInterpolation`), and whether transmissions are corrected for the source match.
-/

namespace NetworkAnalyzer

open Parameters

/-! ## Standards, terms, status -/

/-- What is connected to the port while a calibration pass is collected. -/
inductive Standard where
  | load
  | open
  | short
  | thru
  | isolation
  deriving DecidableEq, Repr

/-- The five slots of the table. A slot first holds the standard measured into it and, once the
calibration is solved, the error term of this name. -/
inductive Term where
  | directivity
  | sourceMatch
  | reflectionTracking
  | transmissionTracking
  | isolation
  deriving DecidableEq, Repr

namespace Standard

def all : List Standard := [.load, .open, .short, .thru, .isolation]

/-- The slot a standard is measured into, named by the term that will replace it. -/
def slot : Standard → Term
  | .load => .directivity
  | .open => .sourceMatch
  | .short => .reflectionTracking
  | .thru => .transmissionTracking
  | .isolation => .isolation

def names : NameTable Standard :=
  [("Load", .load), ("Open", .open), ("Short", .short), ("Thru", .thru), ("Isolation", .isolation)]

/-- The channel a standard is measured on. -/
def channel : Standard → Channel
  | .load | .open | .short => .s11
  | .thru | .isolation => .s21

end Standard

namespace Term

def all : List Term :=
  [.directivity, .sourceMatch, .reflectionTracking, .transmissionTracking, .isolation]

/-- The terms by their usual abbreviations. -/
def names : NameTable Term :=
  [("Ed", .directivity), ("Es", .sourceMatch), ("Er", .reflectionTracking),
   ("Et", .transmissionTracking), ("Ex", .isolation)]

def index : Term → Nat
  | .directivity => 0
  | .sourceMatch => 1
  | .reflectionTracking => 2
  | .transmissionTracking => 3
  | .isolation => 4

end Term

def Standard.index (s : Standard) : Nat := s.slot.index

def Standard.ofNat? (n : Nat) : Option Standard := Standard.all[n]?

def Term.ofNat? (n : Nat) : Option Term := Term.all[n]?

/-- A standard that has been measured, a term that has been solved, or how the tables are used. -/
inductive CalFlag where
  | load
  | open
  | short
  | thru
  | isolation
  | sourceMatch
  | reflectionTracking
  | transmissionTracking
  /-- The terms are complete: correct with them. -/
  | apply
  /-- The sweep runs on another plan than the tables. -/
  | interpolated
  | enhancedResponse
  deriving DecidableEq, Repr

instance : BitLayout CalFlag where
  width := 16
  bit
    | .load => 0
    | .open => 1
    | .short => 2
    | .thru => 3
    | .isolation => 4
    | .sourceMatch => 5
    | .reflectionTracking => 6
    | .transmissionTracking => 7
    | .apply => 8
    | .interpolated => 9
    | .enhancedResponse => 10

abbrev CalStatus := Flags CalFlag

def CalFlag.names : NameTable CalFlag :=
  [("load", .load), ("open", .open), ("short", .short), ("thru", .thru), ("isolation", .isolation),
   ("es", .sourceMatch), ("er", .reflectionTracking), ("et", .transmissionTracking),
   ("apply", .apply), ("interpolated", .interpolated), ("enhanced_response", .enhancedResponse)]

/-- The flag of a measured standard. -/
def Standard.flag : Standard → CalFlag
  | .load => .load
  | .open => .open
  | .short => .short
  | .thru => .thru
  | .isolation => .isolation

/-- The status after a measurement of a standard. The terms derived from an
earlier measurement are void, and so is the standard itself when the measurement
failed: its slot is partially overwritten. -/
def Standard.collected (s : Standard) (status : CalStatus) (valid : Bool) : CalStatus :=
  let status := (status.put .apply false).put s.flag valid
  match s with
  | .load | .isolation => status
  | .open | .short => (status.put .sourceMatch false).put .reflectionTracking false
  | .thru => status.put .transmissionTracking false

/-! ## Five slots -/

/-- One entry per slot. -/
structure Slots (β : Type) where
  directivity : β
  sourceMatch : β
  reflectionTracking : β
  transmissionTracking : β
  isolation : β
  deriving DecidableEq, Repr

namespace Slots

variable {β γ : Type}

def get (t : Slots β) : Term → β
  | .directivity => t.directivity
  | .sourceMatch => t.sourceMatch
  | .reflectionTracking => t.reflectionTracking
  | .transmissionTracking => t.transmissionTracking
  | .isolation => t.isolation

def set (t : Slots β) (slot : Term) (x : β) : Slots β :=
  match slot with
  | .directivity => { t with directivity := x }
  | .sourceMatch => { t with sourceMatch := x }
  | .reflectionTracking => { t with reflectionTracking := x }
  | .transmissionTracking => { t with transmissionTracking := x }
  | .isolation => { t with isolation := x }

def build (f : Term → β) : Slots β :=
  ⟨f .directivity, f .sourceMatch, f .reflectionTracking, f .transmissionTracking, f .isolation⟩

def toList (t : Slots β) : List β := Term.all.map t.get

@[simp] theorem get_set_same (t : Slots β) (s : Term) (x : β) : (t.set s x).get s = x := by
  cases s <;> rfl

theorem get_set_of_ne (t : Slots β) {s r : Term} (x : β) (h : r ≠ s) :
    (t.set s x).get r = t.get r := by
  cases s <;> cases r <;> first | rfl | exact absurd rfl h

@[simp] theorem get_build (f : Term → β) (s : Term) : (build f).get s = f s := by
  cases s <;> rfl

end Slots

/-- The five values at one frequency. -/
abbrev Terms (α : Type) := Slots (Phasor α)

def Terms.zero {α : Type} [Scalar α] : Terms α := .build fun _ => 0

instance {α : Type} [Scalar α] : Inhabited (Terms α) := ⟨.zero⟩

/-! ## Calibrations -/

/-- Calibration tables of up to `N` points. -/
structure Calibration (α : Type) (N : Nat) where
  status : CalStatus
  /-- The plan the tables were recorded on. -/
  plan : FrequencyPlan
  table : Vector (Terms α) N
  /-- The slot the calibration was last stored in or loaded from. -/
  saveSlot : UInt16

namespace Calibration

variable {α : Type} {N : Nat}

def empty [Scalar α] : Calibration α N :=
  { status := .none, plan := ⟨0, 0, 0⟩, table := .replicate N .zero, saveSlot := noSaveSlot }

instance [Scalar α] : Inhabited (Calibration α N) := ⟨empty⟩

/-- Points of the plan that the tables hold. -/
def points (c : Calibration α N) : Nat := min c.plan.points.toNat N

/-- Forgets all standards and terms; plan and tables stay. -/
def reset (c : Calibration α N) : Calibration α N := { c with status := .none }

def setEnhancedResponse (c : Calibration α N) (on : Bool) : Calibration α N :=
  { c with status := c.status.put .enhancedResponse on }

def setSaveSlot (c : Calibration α N) (slot : UInt16) : Calibration α N :=
  { c with saveSlot := slot }

/-- Flags whether a sweep over `plan` needs interpolated terms. -/
def updateInterpolation (c : Calibration α N) (plan : FrequencyPlan) : Calibration α N :=
  { c with status :=
      c.status.put .interpolated (!c.plan.covers plan.start plan.stop plan.points) }

/-- The five values at point `i`. -/
def termsAt (c : Calibration α N) (i : Nat) : Except Fault (Terms α) := entryAt c.table i

def slot (c : Calibration α N) (s : Term) : List (Phasor α) :=
  (c.table.toList.take c.points).map (·.get s)

/-- A raw standard over the points of the plan. -/
def standard (c : Calibration α N) (s : Standard) : List (Phasor α) := c.slot s.slot

/-- Every point of the plan changed by `f`, the rest of the table kept. -/
def mapPoints (c : Calibration α N) (f : Terms α → Terms α) : Calibration α N :=
  { c with table := c.table.mapIdx fun i t => if i < c.points then f t else t }

end Calibration

end NetworkAnalyzer
