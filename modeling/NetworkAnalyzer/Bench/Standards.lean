import NetworkAnalyzer.Calibration.Collection

/-!
# Simulated standards

A sweeper that replays chosen values as the response of a calibration standard, over any scalar.

It may disturb its passes by an offset of alternating sign, so that an even number of them averages
to the chosen values and an odd number does not. It may deliver points beyond the plan, which a
measurement has to leave out, and it may fail at a chosen point of a chosen pass, after it has
handed over the points before.

How it was used is noted down: the bandwidth that it was given, and each pass.
-/

namespace NetworkAnalyzer.Bench

structure StandardPattern (α : Type) [Scalar α] where
  /-- Values of the points, repeated as often as needed. -/
  values : Array (Phasor α)
  /-- Added to even passes and taken from odd ones; passes count from 1. -/
  wobble : α := 0
  /-- Points delivered beyond the plan. -/
  extra : Nat := 0
  /-- Pass and point at which the sweeper fails. -/
  failsAt : Option (Nat × Nat) := none
  failure : Failure := .hardwareTimeout

inductive SweeperMark where
  | bandwidth (b : UInt16)
  | sweep (mask : SweepMask) (c : Channel) (b : UInt16)
  deriving DecidableEq, Repr

/-- A sweeper that replays a pattern. -/
structure PatternSweeper (α : Type) [Scalar α] where
  pattern : StandardPattern α
  plan : FrequencyPlan
  bandwidth : UInt16
  passes : Nat := 0
  marks : Array SweeperMark := #[]

namespace PatternSweeper

variable {α : Type} [Scalar α]

def pointCount (s : PatternSweeper α) : Nat := s.plan.points.toNat + s.pattern.extra

/-- The value of point `i` in the pass that runs. -/
def valueAt (s : PatternSweeper α) (i : Nat) : Phasor α :=
  let w := if s.passes % 2 = 0 then s.pattern.wobble else -s.pattern.wobble
  s.pattern.values.getD (i % s.pattern.values.size) 0 + ⟨w, 0⟩

/-- The point at which the pass that runs fails, if it does. -/
def failurePoint (s : PatternSweeper α) : Option Nat :=
  match s.pattern.failsAt with
  | some (pass, i) => if pass = s.passes ∧ i < s.pointCount then some i else none
  | none => none

def delivery (s : PatternSweeper α) : Delivery α :=
  let points (count : Nat) := (List.range count).map fun i => (i, s.valueAt i)
  match s.failurePoint with
  | some i => ⟨points i, .error s.pattern.failure⟩
  | none => ⟨points s.pointCount, .ok ()⟩

def sweeper : Sweeper (PatternSweeper α) α where
  plan s := s.plan
  bandwidth s := s.bandwidth
  setBandwidth b := modify fun s => { s with bandwidth := b, marks := s.marks.push (.bandwidth b) }
  sweep mask c := do
    modify fun s =>
      { s with passes := s.passes + 1, marks := s.marks.push (.sweep mask c s.bandwidth) }
    return (← get).delivery

end PatternSweeper

end NetworkAnalyzer.Bench
