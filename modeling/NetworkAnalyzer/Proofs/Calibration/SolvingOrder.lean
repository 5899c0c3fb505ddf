import NetworkAnalyzer.Proofs.Calibration.Solving

/-!
# Solving term by term

The terms are solved over the raw values they are made of. `solveInOrder` does it one term after the
other: each step runs over the whole plan, overwrites a slot and moves a flag, and the next step
reads the slots and the flags that it left. `solve` does all the steps at a point before it goes to
the next.

The two come to the same because no step looks at a neighbouring point, and because each flag is
moved once, after the last point of its step. One step is not confined to the plan: the open that
stands in for a missing short is moved over the whole table, points outside the plan included
(`moveOpen`). A step is therefore a pair of functions, one for the points of the plan and one for
all others (`changed`).

* `solve_phases`: the steps at one point, grouped into reflections, transmission and neutral values.
* `changed_changed`: a step over the plan after another is both steps at each point.
* `changed_derive`, `changed_moveOpen`, `changed_fillUnless`, `changed_clearAbsent`: each kind of
  step in this form.
* `changed_solveReflections`, `changed_solveThrough`, `changed_fillNeutral`: the three groups.
* `solve_eq_inOrder`: the two come to the same.
-/

namespace NetworkAnalyzer

/-! ## The steps at one point -/

namespace Terms

section

variable {α : Type} [Scalar α]

def reflected (t : Terms α) (status : CalStatus) : Terms α :=
  match ReflectionSet.of status with
  | .shortOpen => t.solveMatch.solveReflection (-1)
  | .openOnly => solveReflection (t.openAsShort.set .sourceMatch 0) 1
  | .shortOnly => solveReflection (t.set .sourceMatch 0) (-1)
  | .neither => t

def passed (t : Terms α) (status : CalStatus) : Terms α :=
  if status.has .thru then t.solveTransmission else t

/-- Neutral values for the terms that are not listed. -/
def completed (t : Terms α) (status : CalStatus) : Terms α :=
  let t := if status.has .transmissionTracking then t else t.set .transmissionTracking 1
  let t := if status.has .reflectionTracking then t else t.set .reflectionTracking 1
  if status.has .sourceMatch then t else t.set .sourceMatch 0

end

end Terms

def reflectedStatus (s : CalStatus) : CalStatus :=
  match ReflectionSet.of s with
  | .shortOpen =>
    (((s.put .open false).put .sourceMatch true).put .short false).put .reflectionTracking true
  | .openOnly => ((s.put .open false).put .short false).put .reflectionTracking true
  | .shortOnly => (s.put .short false).put .reflectionTracking true
  | .neither => s

def passedStatus (s : CalStatus) : CalStatus :=
  if s.has .thru then (s.put .thru false).put .transmissionTracking true else s

theorem solvedStatus_eq (s : CalStatus) :
    solvedStatus s = (passedStatus (reflectedStatus s)).put .apply true := rfl

theorem has_thru_reflectedStatus (s : CalStatus) : (reflectedStatus s).has .thru = s.has .thru := by
  unfold reflectedStatus
  cases ReflectionSet.of s <;> simp (disch := decide) only [Flags.has_put_of_ne]

namespace Terms

theorem solve_phases {α : Type} [Scalar α] (t : Terms α) (status : CalStatus) : t.solve status =
    (((t.cleared status).reflected status).passed (reflectedStatus status)).completed
      (passedStatus (reflectedStatus status)) := by
  unfold solve completed passed
  simp (disch := decide) only [solvedStatus_eq, Flags.has_put_of_ne, has_thru_reflectedStatus,
    cleared_eq]
  rfl

end Terms

/-! ## The steps over a plan -/

namespace Calibration

section Steps

variable {α : Type} [Scalar α] {N : Nat}

/-- One slot set to `z` at every point of the plan, unless the status has `flag`. -/
def fillUnless (c : Calibration α N) (flag : CalFlag) (slot : Term) (z : Phasor α) :
    Calibration α N :=
  if c.status.has flag then c else c.mapPoints (·.set slot z)

/-- A term computed over its standard at every point of the plan: the flag of the standard becomes
that of the term. -/
def derive (c : Calibration α N) (f : Terms α → Terms α) (standard term : CalFlag) :
    Calibration α N :=
  { c.mapPoints f with status := (c.status.put standard false).put term true }

/-- The column of the open moved over that of the short, points outside the plan included. -/
def moveOpen (c : Calibration α N) : Calibration α N :=
  { c with table := c.table.map Terms.openAsShort, status := c.status.put .open false }

/-- What is subtracted from the standards, zero where it was not measured. -/
def clearAbsent (c : Calibration α N) : Calibration α N :=
  (c.fillUnless .load .directivity 0).fillUnless .isolation .isolation 0

def solveReflections (c : Calibration α N) : Calibration α N :=
  match ReflectionSet.of c.status with
  | .shortOpen => (c.derive Terms.solveMatch .open .sourceMatch).derive
      (Terms.solveReflection · (-1)) .short .reflectionTracking
  | .openOnly => (c.moveOpen.mapPoints (·.set .sourceMatch 0)).derive
      (Terms.solveReflection · 1) .short .reflectionTracking
  | .shortOnly => (c.mapPoints (·.set .sourceMatch 0)).derive
      (Terms.solveReflection · (-1)) .short .reflectionTracking
  | .neither => c

def solveThrough (c : Calibration α N) : Calibration α N :=
  if c.status.has .thru then c.derive Terms.solveTransmission .thru .transmissionTracking else c

/-- Neutral values for the terms that are not listed by now. -/
def fillNeutral (c : Calibration α N) : Calibration α N :=
  ((c.fillUnless .transmissionTracking .transmissionTracking 1).fillUnless
    .reflectionTracking .reflectionTracking 1).fillUnless .sourceMatch .sourceMatch 0

/-- The terms solved one after the other, each over the whole plan. -/
def solveInOrder (c : Calibration α N) : Calibration α N :=
  let c := c.clearAbsent.solveReflections.solveThrough.fillNeutral
  { c with status := c.status.put .apply true, saveSlot := Parameters.noSaveSlot }

end Steps

section Changed

variable {α : Type} {N : Nat}

/-- `c` with `f` at every point of the plan, `g` at all others, and another status. -/
def changed (c : Calibration α N) (f g : Terms α → Terms α) (status : CalStatus) :
    Calibration α N :=
  { c with
    status := status
    table := c.table.mapIdx fun i t => if i < c.points then f t else g t }

variable (c : Calibration α N) (f f' g g' : Terms α → Terms α) (s s' : CalStatus)

theorem changed_self : c.changed id id c.status = c := by
  have hrows : (c.table.mapIdx fun i t => if i < c.points then id t else id t) = c.table := by
    ext i hi
    simp
  unfold changed
  rw [hrows]

theorem changed_changed : (c.changed f g s).changed f' g' s' = c.changed (f' ∘ f) (g' ∘ g) s' := by
  unfold changed points
  simp only [Vector.mapIdx_mapIdx]
  congr 1
  congr 1
  funext i t
  dsimp only [Function.comp]
  split <;> rfl

theorem changed_mapPoints : (c.changed f g s).mapPoints f' = c.changed (f' ∘ f) g s :=
  changed_changed c f f' g id s s

theorem changed_derive (standard term : CalFlag) : (c.changed f g s).derive f' standard term =
    c.changed (f' ∘ f) g ((s.put standard false).put term true) :=
  changed_changed c f f' g id s _

theorem changed_moveOpen : (c.changed f g s).moveOpen =
    c.changed (Terms.openAsShort ∘ f) (Terms.openAsShort ∘ g) (s.put .open false) := by
  rw [← changed_changed c f Terms.openAsShort g Terms.openAsShort s]
  unfold moveOpen
  congr 1
  ext i hi
  simp only [changed, Vector.getElem_map, Vector.getElem_mapIdx, ite_self]

theorem changed_fillUnless (flag : CalFlag) (slot : Term) (z : Phasor α) :
    (c.changed f g s).fillUnless flag slot z =
      c.changed (fun t => if s.has flag then f t else (f t).set slot z) g s := by
  unfold fillUnless
  rw [show (c.changed f g s).status = s from rfl, changed_mapPoints]
  cases s.has flag <;> rfl

end Changed

section Phases

variable {α : Type} [Scalar α] {N : Nat} (c : Calibration α N) (f g : Terms α → Terms α)
  (s : CalStatus)

theorem changed_clearAbsent :
    (c.changed f g s).clearAbsent = c.changed (fun t => (f t).cleared s) g s := by
  unfold clearAbsent
  rw [changed_fillUnless, changed_fillUnless]
  congr 1
  funext t
  unfold Terms.cleared
  cases s.has .load <;> cases s.has .isolation <;> rfl

theorem changed_solveReflections : (c.changed f g s).solveReflections =
    c.changed (fun t => (f t).reflected s)
      (fun t => if ReflectionSet.of s = .openOnly then (g t).openAsShort else g t)
      (reflectedStatus s) := by
  unfold solveReflections Terms.reflected reflectedStatus
  rw [show (c.changed f g s).status = s from rfl]
  cases ReflectionSet.of s <;> dsimp only
  · rw [changed_derive, changed_derive]
    rfl
  · rw [changed_moveOpen, changed_mapPoints, changed_derive]
    rfl
  · rw [changed_mapPoints, changed_derive]
    rfl
  · rfl

theorem changed_solveThrough : (c.changed f g s).solveThrough =
    c.changed (fun t => (f t).passed s) g (passedStatus s) := by
  unfold solveThrough Terms.passed passedStatus
  rw [show (c.changed f g s).status = s from rfl, changed_derive]
  cases s.has .thru <;> rfl

theorem changed_fillNeutral :
    (c.changed f g s).fillNeutral = c.changed (fun t => (f t).completed s) g s := by
  unfold fillNeutral
  rw [changed_fillUnless, changed_fillUnless, changed_fillUnless]
  rfl

/-- Solving term by term over the plan is solving point by point. -/
theorem solve_eq_inOrder : c.solve = c.solveInOrder := by
  have hphases : c.clearAbsent.solveReflections.solveThrough.fillNeutral =
      c.changed (Terms.solve c.status)
        (fun t => if ReflectionSet.of c.status = .openOnly then t.openAsShort else t)
        (passedStatus (reflectedStatus c.status)) := by
    conv_lhs => rw [← changed_self c]
    rw [changed_clearAbsent, changed_solveReflections, changed_solveThrough, changed_fillNeutral]
    congr 1
    funext t
    exact (t.solve_phases c.status).symm
  unfold solveInOrder
  rw [hphases]
  rfl

end Phases

end Calibration

end NetworkAnalyzer
