import NetworkAnalyzer.Fault

/-!
# Clocks and bounded waits

Time is counted in microseconds in a 64-bit word. Instants wrap; spans of time do not. The span
between two instants is their difference modulo `2 ^ 64`, read as a time that has passed if it is
below `2 ^ 63` and as a fault otherwise, since then the later instant lies before the earlier one.
A sum of two spans that does not fit the word is a fault as well.

Every wait of the instrument has one shape. It reads the clock once, polls, and after each poll
that found nothing reads the clock again: once the timeout has passed it gives up, and otherwise
gives the core up until the next interrupt (`Timebase.relax`) and polls anew. So a wait fails only
after its whole timeout has passed, and never before it has polled once.

Reading the clock and relaxing are computations on the state. That is where others act: an
interrupt handler, another task, or a script that stands for them.

A wait on a clock that stands still would not end. `patience` bounds the polls by the number of
readings that a 64-bit clock has, and what comes after is the fault `clockStopped`; a clock that
moves on with every `relax` never gets there.
-/

namespace NetworkAnalyzer

abbrev Instant := UInt64

abbrev Duration := UInt64

/-- The time from `start` to `now`; a difference of `2 ^ 63` or more means that
`now` lies before `start`. -/
def elapsed (now start : Instant) : Except Fault Duration :=
  if now - start ≤ 0x7fffffffffffffff then .ok (now - start) else .error .negativeElapsed

/-- The sum of two durations. Instants wrap, durations do not. -/
def addDurations (a b : Duration) : Except Fault Duration :=
  if a.toNat + b.toNat < UInt64.size then .ok (a + b) else .error .durationOverflow

/-- The clock, and the wait for the next interrupt used while polling. -/
structure Timebase (σ : Type) where
  now : Run σ Instant
  relax : Run σ Unit

variable {σ β : Type}

/-- Polls allowed before a clock counts as stopped. A clock that moves on every
`relax` passes any timeout earlier. -/
def patience : Nat := 0x10000000000000000

/-- At most `polls` polls, until one finds something or `timeout` has passed since
`start`. -/
def pollFor (clock : Timebase σ) (start : Instant) (timeout : Duration)
    (poll : Run σ (Option β)) : (polls : Nat) → Run σ (Option β)
  | 0 => throw .clockStopped
  | polls + 1 => do
    if let some found ← poll then
      return some found
    if timeout ≤ (← elapsed (← clock.now) start) then
      return none
    clock.relax
    pollFor clock start timeout poll polls

/-- Polls until the poll answers or the timeout, counted from now, has passed. -/
def waitFor (clock : Timebase σ) (timeout : Duration) (poll : Run σ (Option β)) :
    Run σ (Option β) := do
  pollFor clock (← clock.now) timeout poll patience

def waitUntil (clock : Timebase σ) (timeout : Duration) (ready : Run σ Bool) : Run σ Bool := do
  let seen ← waitFor clock timeout do return if ← ready then some () else none
  return seen.isSome

end NetworkAnalyzer
