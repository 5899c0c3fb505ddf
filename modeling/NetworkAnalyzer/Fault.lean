/-!
# Faults, failures and runs

A **failure** is an answer: a deadline passed or a resource was taken, and the caller decides what
to do. It is a value of the operation, `Except Failure _`, and the state that the operation leaves
is part of what is said of it.

A **fault** is the end of the computation: an index outside a table, a time difference or a sum of
durations that does not exist. No caller handles one, and there is no state after it.

`Run σ α` is a computation over the state `σ` that may fault. Everything that touches a board or
the state shared with interrupts is a `Run`; what only computes is a plain function, and a table
look-up in between is `entryAt`.

Names and texts of both are those under which they are reported.
-/

namespace NetworkAnalyzer

/-- What ends a computation for good. -/
inductive Fault where
  /-- A transform was asked for a length that is no power of two up to its maximum. -/
  | transformLength
  /-- An index outside a table. -/
  | indexOutOfBounds (length index : Nat)
  /-- The later of two instants lies before the earlier one. -/
  | negativeElapsed
  /-- Two durations sum to more than the clock can count. -/
  | durationOverflow
  /-- A wait on a clock that does not move. -/
  | clockStopped
  deriving DecidableEq, Repr

def Fault.message : Fault → String
  | .transformLength => "assertion failed: n.is_power_of_two() && n <= FFT_SIZE_MAX"
  | .indexOutOfBounds n i =>
    "index out of bounds: the len is " ++ toString n ++ " but the index is " ++ toString i
  | .negativeElapsed => "Sub failed! Other > self"
  | .durationOverflow => "Add failed!"
  | .clockStopped => "the clock stopped"

/-- Timing and resource failures of the measurement. -/
inductive Failure where
  | hardwareTimeout
  | resourceBusy
  | queueExhausted
  | noFreeSlot
  | launchFailed
  deriving DecidableEq, Repr

def Failure.name : Failure → String
  | .hardwareTimeout => "HardwareTimeout"
  | .resourceBusy => "ResourceBusy"
  | .queueExhausted => "QueueExhausted"
  | .noFreeSlot => "NoFreeSlot"
  | .launchFailed => "LaunchFailed"

def Failure.message : Failure → String
  | .hardwareTimeout => "Capture did not complete before its deadline"
  | .resourceBusy => "Resource held by another role past its timeout"
  | .queueExhausted => "Event pool or queue exhausted"
  | .noFreeSlot => "No free scheduler slot fits the request"
  | .launchFailed => "Task launch failed"

abbrev Run (σ α : Type) := StateT σ (Except Fault) α

/-- The entry of a table at `i`, or the fault of looking outside it. -/
def entryAt {α : Type} {n : Nat} (v : Vector α n) (i : Nat) : Except Fault α :=
  if h : i < n then .ok v[i] else .error (.indexOutOfBounds n i)

end NetworkAnalyzer
