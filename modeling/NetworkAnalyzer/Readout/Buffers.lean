import NetworkAnalyzer.Channel
import NetworkAnalyzer.Fault

/-!
# Sweep buffers

The traces of the measurement are shared between one producer and its readers. One role word
arbitrates: the buffers are idle, or the producer is sweeping, or one reader is copying. Both roles
are claimed from idle only, so nothing is written while a reader copies, and one reader copies at a
time.

A producer claims the sweeping role, publishes the point count, writes, and ends its measurement
with `finish`: the role is given back, and if the pass was completed it is counted as a new
generation. A pass may take several measurements, of which only the last completes it; the others
leave what they wrote under the old generation.

A reader claims the copying role and holds a `Snapshot`, the generation and point count it saw. It
reads its points and gives the snapshot back, and hears whether the generation is still the same.

Each operation is one step here, which is how a run sees it that nothing interrupts. In memory the
role, the generation and the point count are words of their own and are accessed one after the
other. In particular `finish` stores the role first and counts second, and a reader loads the
generation after it has the role. Interleavings of these accesses are studied in their own right,
with steps as fine as that.
-/

namespace NetworkAnalyzer

/-- Who has the sweep buffers: nobody, the pass that fills them or a reader that copies them. -/
inductive Role where
  | idle
  | sweeping
  | copying
  deriving DecidableEq, Repr, Inhabited

/-- Traces shared by the producer and its readers. -/
structure Buffers (N : Nat) where
  role : Role := .idle
  /-- Completed passes, modulo `2 ^ 32`. -/
  generation : UInt32 := 0
  /-- Points of the last pass. -/
  points : UInt16 := 0
  traces : Traces Float32 N := .zero
  deriving DecidableEq

/-- A reader's claim on one channel. -/
structure Snapshot where
  channel : Channel
  generation : UInt32
  points : UInt16
  deriving DecidableEq, Repr

namespace Buffers

variable {N : Nat}

instance : Inhabited (Buffers N) := ⟨{}⟩

def isSweeping (b : Buffers N) : Bool := b.role == .sweeping

def isCopying (b : Buffers N) : Bool := b.role == .copying

/-- Takes `role` if nobody holds the buffers; whether it was taken. -/
def claim (b : Buffers N) (role : Role) : Bool × Buffers N :=
  if b.role = .idle then (true, { b with role }) else (false, b)

def unclaim (b : Buffers N) : Buffers N := { b with role := .idle }

/-! ## The producer -/

def begin (b : Buffers N) : Except Failure (Buffers N) :=
  match b.claim .sweeping with
  | (true, b) => .ok b
  | (false, _) => .error .resourceBusy

def setPoints (b : Buffers N) (points : UInt16) : Buffers N := { b with points }

/-- Gives the role back, then counts the pass if it was completed. -/
def finish (b : Buffers N) (completed : Bool) : Buffers N :=
  let b := b.unclaim
  if completed then { b with generation := b.generation + 1 } else b

/-! ## Readers -/

/-- What a reader that has just claimed the role holds. -/
def snapshot (b : Buffers N) (c : Channel) : Snapshot := ⟨c, b.generation, b.points⟩

def view (b : Buffers N) (s : Snapshot) : List (Phasor Float32) :=
  (b.traces.get s.channel).toList.take s.points.toNat

/-- Gives a snapshot back; whether no pass completed since it was taken. -/
def release (b : Buffers N) (s : Snapshot) : Bool × Buffers N :=
  (b.generation == s.generation, b.unclaim)

end Buffers

end NetworkAnalyzer
