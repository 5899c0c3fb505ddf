import NetworkAnalyzer.Receiver.Accumulator

/-!
# Captures

The sweep arms a capture with a settling deadline and a number of buffers; the buffer interrupt
counts it down. The capture is the state that the two share.

* A buffer stamped before the deadline is ignored: the source is still settling.
* The first one that counts carries switching transients. It only clears the accumulator.
* Each further one is mixed in. At zero the capture is complete, and later buffers are ignored.

So a capture with bandwidth code `b` mixes `b + 1` buffers, and takes `b + 2` that count. The count
saturates at its word.

The deadline is an instant and may wrap. Stamps are compared with it as words, so after a wrap a
buffer that is early counts as late, and the other way round.

Abandoning a capture drops what is outstanding and keeps the sums. They are then those of an earlier
capture if no buffer counted, since clearing is the first buffer's work and not that of arming.
-/

namespace NetworkAnalyzer

/-- What the receive interrupt and the sweep share while the buffers of a point are collected. -/
structure Capture where
  /-- Buffers stamped earlier are ignored. -/
  readyAt : Instant := 0
  /-- Buffers still to come. -/
  remaining : UInt16 := 0
  /-- Buffers the capture was armed with. -/
  reload : UInt16 := 0
  accumulator : Accumulator := .zero
  deriving DecidableEq, Repr, Inhabited

namespace Capture

/-- Buffers of a capture with a bandwidth code: one to clear the accumulator, one,
and `bandwidth` extra ones. The count saturates. -/
def bufferCount (bandwidth : UInt16) : UInt16 :=
  if bandwidth ≤ 65533 then bandwidth + 2 else 65535

/-- Asks for the buffers of one measurement, the first of them after `delay`. The accumulator is
cleared when that buffer comes. -/
def arm (c : Capture) (now : Instant) (delay : Duration) (bandwidth : UInt16) : Capture :=
  { c with
    readyAt := now + delay
    reload := bufferCount bandwidth
    remaining := bufferCount bandwidth }

def isComplete (c : Capture) : Bool := c.remaining == 0

/-- A buffer stamped `now` arrives. -/
def onBuffer (c : Capture) (now : Instant) (buffer : List Int16) : Capture :=
  if c.remaining = 0 || now < c.readyAt then c
  else
    let accumulator := if c.reload ≤ c.remaining then .zero else c.accumulator.mix buffer
    { c with accumulator, remaining := c.remaining - 1 }

/-- Gives up on the outstanding buffers; what was accumulated stays. -/
def abandon (c : Capture) : Capture := { c with remaining := 0 }

def value (c : Capture) (s : Sampler) : Phasor Float32 := s.value c.accumulator

end Capture

end NetworkAnalyzer
