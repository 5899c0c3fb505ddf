import NetworkAnalyzer.Bench.Script

/-!
# Simulated board

The rig as a board of the sweep, on a state that a script shares with it.

Time moves in the waits alone: every relax lasts until the next codec buffer, which arrives after
the scripted actions of that moment unless the codec is stalled, and reading the clock has no
effect. A capture that waits for its buffers is therefore fed by its own waiting, and what a script
does between two buffers is done while the sweep waits.

The board notes down what was asked of it, if it is told to, so the order of retunes, channel
changes and indications can be compared.

There are two boards. `plainBoard` leaves out settling requests, user input and indicators, and so
shows that the sweep does without them.
-/

namespace NetworkAnalyzer.Bench

variable {N : Nat}

/-- Notes down what the board did, if it is asked to. -/
def note (m : BoardMark) : Run (Shared N Bench) Unit :=
  modifyBench fun b => if b.rig.logs then { b with marks := b.marks.push m } else b

/-- The next codec buffer arrives, unless the codec is stalled. A complete capture
ignores it. -/
def deliverBuffer (s : Shared N Bench) : Shared N Bench :=
  let b := s.environment
  if b.rig.stalled || s.capture.isComplete then s
  else { s with capture := s.capture.onBuffer b.time (b.rig.tone b.relaxes).buffer }

def boardClock : Timebase (Shared N Bench) where
  now := return (← getBench).time
  relax := do
    relaxFor (← getBench).rig.period
    modify deliverBuffer

def tuneRig (f : UInt32) : Run (Shared N Bench) Duration := do
  note (.tuned f)
  let b ← getBench
  let (delay, rig) := b.rig.tune f
  setBench { b with rig, time := b.time + rig.tuneCost }
  return delay

def selectChannel (c : Channel) : Run (Shared N Bench) Unit := do
  note (.selected c)
  modifyBench fun b => { b with rig := { b.rig with channel := c } }

def plainBoard : Board (Shared N Bench) :=
  { toTimebase := boardClock
    tune := tuneRig
    band := fun s f => s.environment.rig.band f
    select := selectChannel }

/-- A board with settling requests, user input and indicators. -/
def board : Board (Shared N Bench) :=
  { (plainBoard : Board (Shared N Bench)) with
    takeSettlingCycles := do
      let b ← getBench
      let (request, rig) := b.rig.takeRequest
      setBench { b with rig }
      return request
    inputPending := do
      let b ← getBench
      let (pending, rig) := b.rig.takePending
      setBench { b with rig }
      return pending
    indicate := fun i => note (.shown i) }

end NetworkAnalyzer.Bench
