import NetworkAnalyzer.Clock
import NetworkAnalyzer.Control
import NetworkAnalyzer.EventBus
import NetworkAnalyzer.Readout.Buffers
import NetworkAnalyzer.Receiver.Capture

/-!
# Shared state

`Shared N ε` is everything that the measurement task shares with interrupts and other tasks: the
capture, the buffers, the mailbox, the event bus, and the environment `ε`, which is the board with
whatever acts on its interrupts. Reading the clock and relaxing are the moments at which the
environment may change any part of it, the traces included.

Between two such moments an operation here is not disturbed. Where the steps of an operation may be
cut by others, and whether that matters, is a question of its own; it is answered for schedules of
single accesses, and `Shared.dumpAmid` puts others into a dump.

The operations wait, so they run against a timebase over the shared state:

* `awaitCapture`: for the armed capture. On timeout the capture gives up its outstanding buffers.
* `awaitCopyRelease`, `acquire`, `awaitGeneration`: for the buffers to be given back, to be free,
  and to have seen a pass. On timeout they leave the state as the environment left it.
* `requestPause`: for the measurement task to come to rest. On timeout the stop stays posted.
* `dispatch`: for an event to arrive.

Deliveries of the bus are handed to the listeners here, one after the other, and a listener is a
computation on the shared state.
-/

namespace NetworkAnalyzer

open Parameters

/-- What tasks and interrupts share. The environment is everything the analyzer does not know of. -/
structure Shared (N : Nat) (ε : Type) where
  capture : Capture := {}
  buffers : Buffers N := {}
  control : Control := .powerUp
  bus : Option EventBus := none
  environment : ε

namespace Shared

variable {N : Nat} {ε : Type}

def setBuffers (b : Buffers N) : Run (Shared N ε) Unit := modify fun s => { s with buffers := b }

def setControl (c : Control) : Run (Shared N ε) Unit := modify fun s => { s with control := c }

def setBus (b : EventBus) : Run (Shared N ε) Unit := modify fun s => { s with bus := some b }

/-! ## Capture -/

/-- Waits for the armed capture. One that does not finish in time is abandoned, so that a late
buffer cannot reach the next point. -/
def awaitCapture (clock : Timebase (Shared N ε)) (timeout : Duration) :
    Run (Shared N ε) (Except Failure Unit) := do
  if ← waitUntil clock timeout (do return (← get).capture.isComplete) then
    return .ok ()
  modify fun s => { s with capture := s.capture.abandon }
  return .error .hardwareTimeout

/-! ## Buffers -/

def awaitCopyRelease (clock : Timebase (Shared N ε)) : Run (Shared N ε) (Except Failure Unit) := do
  if ← waitUntil clock copyReleaseTimeout (do return !(← get).buffers.isCopying) then
    return .ok ()
  return .error .resourceBusy

/-- Claims the buffers for copying, if nobody holds them. -/
def claimCopy : Run (Shared N ε) Bool := do
  let (taken, b) := (← get).buffers.claim .copying
  setBuffers b
  return taken

/-- Waits for the copying role and takes the snapshot under it. -/
def acquire (clock : Timebase (Shared N ε)) (c : Channel) (timeout : Duration) :
    Run (Shared N ε) (Except Failure Snapshot) := do
  if ← waitUntil clock timeout claimCopy then
    return .ok ((← get).buffers.snapshot c)
  return .error .resourceBusy

/-- Gives a snapshot back; whether no pass completed since it was taken. -/
def release (s : Snapshot) : Run (Shared N ε) Bool := do
  let (unchanged, b) := (← get).buffers.release s
  setBuffers b
  return unchanged

/-- Waits for the first completed pass. -/
def awaitGeneration (clock : Timebase (Shared N ε)) :
    Run (Shared N ε) (Except Failure UInt32) := do
  if ← waitUntil clock generationTimeout (do return (← get).buffers.generation != 0) then
    return .ok (← get).buffers.generation
  return .error .resourceBusy

/-! ## Control -/

/-- Whether the measurement task has come to rest. -/
def isPaused (s : Shared N ε) : Bool :=
  !s.control.isEnabled && !s.control.hasPending && !s.buffers.isSweeping

/-- Stops continuous sweeping. From the measurement task this takes effect at once.
Any other caller posts a stop and waits until it was applied and no pass is in
flight; a stop that is not acknowledged in time stays posted. -/
def requestPause (clock : Timebase (Shared N ε)) :
    Caller → Run (Shared N ε) (Except Failure Unit)
  | .sweepTask => do
    setControl ((← get).control.apply .stop)
    return .ok ()
  | .other => do
    let (posted, c) := (← get).control.post .stop
    setControl c
    match posted with
    | .error e => return .error e
    | .ok () =>
      if ← waitUntil clock pauseTimeout (do return (← get).isPaused) then
        return .ok ()
      return .error .resourceBusy

/-! ## Events -/

def deliver (listen : Delivered → Run (Shared N ε) Unit) : List Delivered → Run (Shared N ε) Unit
  | [] => return ()
  | d :: rest => do
    listen d
    deliver listen rest

/-- Publishes an event from a thread. Without a bus nobody hears it. -/
def publish (listen : Delivered → Run (Shared N ε) Unit) (e : Event) : Run (Shared N ε) Unit := do
  if let some bus := (← get).bus then
    let (heard, bus) := bus.publish e
    setBus bus
    deliver listen heard

/-- Before a bus is installed events are dropped. -/
def publishFromInterrupt (listen : Delivered → Run (Shared N ε) Unit) (e : Event) :
    Run (Shared N ε) (Except Failure Unit) := do
  match (← get).bus with
  | none => return .ok ()
  | some bus =>
    let (outcome, heard, bus) := bus.publishFromInterrupt e
    setBus bus
    deliver listen heard
    return outcome

def takeEvent : Run (Shared N ε) (Option Event) := do
  match (← get).bus with
  | none => return none
  | some bus =>
    let (event, bus) := bus.takeEvent
    setBus bus
    return event

/-- Delivers one stored event, waiting up to `timeout` for one to arrive; whether
one was delivered. -/
def dispatch (clock : Timebase (Shared N ε)) (listen : Delivered → Run (Shared N ε) Unit)
    (timeout : Duration) : Run (Shared N ε) Bool := do
  match (← get).bus with
  | some { queue := some _, .. } =>
    match ← waitFor clock timeout takeEvent with
    | none => return false
    | some event =>
      if let some bus := (← get).bus then
        deliver listen (bus.deliveries event)
      return true
  | _ => return false

end Shared

end NetworkAnalyzer
