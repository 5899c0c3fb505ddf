import NetworkAnalyzer.Calibration.Basic

/-!
# Measuring a standard

A standard is measured in complete passes, at a bandwidth of at least 100 Hz, and averaged into its
slot. The first pass stores its values, later ones add theirs, and several are scaled by the share
of one pass at the end.

The passes belong to a `Sweeper`, which is a parameter: it runs one pass and delivers points, some
of which may lie outside the plan and are dropped, and it may fail at any point. Values that were
delivered before a failure are in the slot.

The bandwidth of the sweeper is raised for the measurement if it was lower. It is restored
afterwards in any case, whether or not it was raised and whether or not the measurement succeeded.

A plan that differs from the calibration's discards everything measured before: the status is
cleared, the plan adopted, and the tables keep values that nothing lists any more.
-/

namespace NetworkAnalyzer

open Parameters

/-- What one pass handed over before it ended: values with their point index, in
order, and how the pass ended. -/
structure Delivery (α : Type) where
  values : List (Nat × Phasor α)
  outcome : Except Failure Unit

/-- Runs complete passes over the state `σ`. -/
structure Sweeper (σ α : Type) where
  /-- The plan the next pass will use. -/
  plan : σ → FrequencyPlan
  bandwidth : σ → UInt16
  setBandwidth : UInt16 → Run σ Unit
  /-- One pass over the mask, with the points of one channel handed over. -/
  sweep : SweepMask → Channel → Run σ (Delivery α)

namespace Calibration

variable {α : Type} [Scalar α] {N : Nat} {σ : Type}

/-- One value of a pass entered into its slot: the first pass stores, later ones add. -/
def enter (c : Calibration α N) (slot : Term) (first : Bool) (i : Nat) (z : Phasor α) :
    Calibration α N :=
  if h : i < c.points then
    have inTable : i < N := Nat.lt_of_lt_of_le h (Nat.min_le_right _ _)
    let t := c.table[i]
    { c with table := c.table.setIfInBounds i (t.set slot (if first then z else t.get slot + z)) }
  else c

def enterAll (c : Calibration α N) (slot : Term) (first : Bool) (values : List (Nat × Phasor α)) :
    Calibration α N :=
  values.foldl (fun c (i, z) => c.enter slot first i z) c

/-- `left` more passes of a standard; the first failure ends the measurement. -/
def sumPasses (sweeper : Sweeper σ α) (s : Standard) (first : Bool) :
    Nat → Calibration α N → Run σ (Except Failure Unit × Calibration α N)
  | 0, c => return (.ok (), c)
  | left + 1, c => do
    let pass ← sweeper.sweep (SweepMask.raw s.channel) s.channel
    let c := c.enterAll s.slot first pass.values
    match pass.outcome with
    | .error e => return (.error e, c)
    | .ok () => sumPasses sweeper s false left c

/-- Sums the passes of a standard into its slot, then divides by their number. A failed pass leaves
the sums of the passes before it. -/
def measure (sweeper : Sweeper σ α) (s : Standard) (count : Nat) (c : Calibration α N) :
    Run σ (Except Failure Unit × Calibration α N) := do
  let (outcome, c) ← sumPasses sweeper s true count c
  match outcome with
  | .error e => return (.error e, c)
  | .ok () =>
    if count > 1 then
      let share : α := 1 / Scalar.ofNat count
      return (.ok (), c.mapPoints fun t => t.set s.slot ((t.get s.slot).scale share))
    else
      return (.ok (), c)

/-- Tables measured on another plan are of no use: the calibration starts again on the new one. -/
def onPlan (c : Calibration α N) (plan : FrequencyPlan) : Calibration α N :=
  if c.plan.covers plan.start plan.stop plan.points then c
  else { c with status := .none, plan := plan }

/-- Measures a standard with `averaging` passes; zero counts as one. The
sweeper's bandwidth is raised for the measurement and restored afterwards. -/
def collect (sweeper : Sweeper σ α) (s : Standard) (averaging : UInt16) (c : Calibration α N) :
    Run σ (Except Failure Unit × Calibration α N) := do
  let c := c.onPlan (sweeper.plan (← get))
  let bandwidth := sweeper.bandwidth (← get)
  if bandwidth < bandwidth100 then
    sweeper.setBandwidth bandwidth100
  let (outcome, c) ← measure sweeper s (max averaging 1).toNat c
  sweeper.setBandwidth bandwidth
  return (outcome, { c with status := s.collected c.status outcome.toBool })

end Calibration

end NetworkAnalyzer
