import NetworkAnalyzer.Bench.Rig
import NetworkAnalyzer.Settings.Basic
import NetworkAnalyzer.Shared

/-!
# Scripted concurrency

A `Bench` is an environment for the shared state in which interrupts and other tasks act at scripted
moments: during a given relax, after the clock has moved, or during a given reading of the clock,
before it is read. Moments are counted from 1, and what a moment has not been scripted for does
nothing. So a script is one interleaving, and the same script always gives the same run.

What the others may do is an `Action`: an interrupt delivers a codec buffer or publishes an event,
the front end changes, or another task makes a `Request`.

The other task holds at most one measurement and at most one snapshot. It makes the requests by
which tasks use the buffers and the control, and a request that does not fit what it holds does
nothing.

What listeners and interrupts see is noted down in order (`Sighting`).
-/

namespace NetworkAnalyzer

namespace Bench

/-! ## Requests of the other task -/

inductive Request where
  /-- Claims the buffers and keeps them. -/
  | begin
  | setPoints (points : UInt16)
  | write (c : Channel) (index : Nat) (z : Phasor Float32)
  | read (c : Channel) (index : Nat)
  | finish (completed : Bool)
  /-- Lets go of the buffers without ending the measurement. -/
  | abandon
  /-- A whole pass: entry `i` of both channels becomes `base + i`, plus `i` on the transmission. -/
  | pass (points : UInt16) (base : Int) (completed : Bool)
  | release
  /-- Drops the snapshot. -/
  | forget
  /-- Shows what the snapshot shows. -/
  | view
  | post (command : Command)
  | drain
  | single
  | resume (caller : Caller)
  | finishPass (completed : Bool)
  | setMode (flag : ModeFlag) (on : Bool)
  deriving DecidableEq, Repr

inductive Reply where
  | nothing
  | outcome (r : Except Failure Unit)
  | truth (b : Bool)
  | value (z : Phasor Float32)
  | shown (s : Snapshot) (points : List (Phasor Float32))

/-! ## Actions and cues -/

inductive Action where
  /-- A codec buffer arrives. -/
  | buffer (tone : Tone)
  /-- An interrupt publishes an event. -/
  | event (e : Event)
  /-- The front end changes. -/
  | adjust (change : Rig → Rig)
  /-- The other task makes a request. -/
  | request (r : Request)

/-- A moment of the script, counted from 1. -/
inductive Moment where
  | relax (count : Nat)
  | reading (count : Nat)
  deriving DecidableEq, Repr

structure Cue where
  moment : Moment
  action : Action

/-! ## The bench -/

/-- Something a listener or an interrupt noted down. -/
inductive Sighting where
  /-- An event, with the generation and whether a pass was in progress. -/
  | heard (d : Delivered) (generation : UInt32) (sweeping : Bool)
  /-- An interrupt published, or failed to. -/
  | published (succeeded : Bool)
  deriving DecidableEq, Repr

end Bench

open Bench in
/-- Clock, script, front end, and what the other tasks hold and noted down. -/
structure Bench where
  time : Instant := 0
  /-- What a relax adds to the clock. -/
  tick : Duration := 1000
  relaxes : Nat := 0
  readings : Nat := 0
  /-- Polls of the condition that `pollUntil` stands for. -/
  polls : Nat := 0
  script : List Cue := []
  /-- Time stamp of scripted codec buffers. -/
  interruptTime : Instant := 0
  rig : Rig := {}
  /-- The other task holds the buffers for measuring. -/
  measuring : Bool := false
  /-- The snapshot of the other task. -/
  snapshot : Option Snapshot := none
  /-- Settings waiting to be adopted. -/
  staged : Option Settings := none
  /-- Passes the host was told about. -/
  results : Nat := 0
  replies : Array Reply := #[]
  sightings : Array Sighting := #[]
  marks : Array BoardMark := #[]

namespace Bench

variable {N : Nat}

def setBench (b : Bench) : Run (Shared N Bench) Unit := modify fun s => { s with environment := b }

def modifyBench (f : Bench → Bench) : Run (Shared N Bench) Unit :=
  modify fun s => { s with environment := f s.environment }

def getBench : Run (Shared N Bench) Bench := return (← get).environment

/-- Notes down what a listener heard. -/
def listen (d : Delivered) : Run (Shared N Bench) Unit :=
  modify fun s =>
    let sighting := Sighting.heard d s.buffers.generation s.buffers.isSweeping
    { s with environment :=
        { s.environment with sightings := s.environment.sightings.push sighting } }

/-! ## Carrying out requests -/

/-- An operation of the other task on the buffers it holds; without them it does
nothing. -/
def whileMeasuring (act : Run (Shared N Bench) Reply) : Run (Shared N Bench) Reply := do
  if (← getBench).measuring then act else return .nothing

/-- Ends the hold on the buffers. -/
def letGo (b : Buffers N) : Run (Shared N Bench) Reply := do
  Shared.setBuffers b
  modifyBench fun e => { e with measuring := false }
  return .nothing

def onControl (step : Except Failure Unit × Control) : Run (Shared N Bench) Reply := do
  Shared.setControl step.2
  return .outcome step.1

def madeUpTraces (base : Int) : Traces Float32 N :=
  let column (c : Channel) : Vector (Phasor Float32) N :=
    Vector.ofFn fun i => ⟨Float32.ofInt (base + i.val), Float32.ofNat c.index⟩
  ⟨column .s11, column .s21⟩

def runPass (points : UInt16) (base : Int) (completed : Bool) : Run (Shared N Bench) Reply := do
  match (← get).buffers.begin with
  | .error e => return .outcome (.error e)
  | .ok b =>
    Shared.setBuffers ({ b.setPoints points with traces := madeUpTraces base }.finish completed)
    return .outcome (.ok ())

/-- Writes one entry of the held buffers. -/
def writeEntry (c : Channel) (index : Nat) (z : Phasor Float32) : Run (Shared N Bench) Reply := do
  let b := (← get).buffers
  let _ ← entryAt (b.traces.get c) index
  Shared.setBuffers { b with traces := b.traces.setPoint c index z }
  return .nothing

/-- Gives the snapshot back; whether it was still current. -/
def releaseSnapshot : Run (Shared N Bench) (Option Bool) := do
  match (← getBench).snapshot with
  | none => return none
  | some s =>
    modifyBench fun e => { e with snapshot := none }
    return some (← Shared.release s)

/-- The answer to a request. -/
def serve : Request → Run (Shared N Bench) Reply
  | .begin => do
    match (← get).buffers.begin with
    | .error e => return .outcome (.error e)
    | .ok b =>
      Shared.setBuffers b
      modifyBench fun e => { e with measuring := true }
      return .outcome (.ok ())
  | .setPoints points => whileMeasuring do
    Shared.setBuffers ((← get).buffers.setPoints points)
    return .nothing
  | .write c index z => whileMeasuring (writeEntry c index z)
  | .read c index => whileMeasuring do
    return .value (← entryAt ((← get).buffers.traces.get c) index)
  | .finish completed => whileMeasuring do letGo ((← get).buffers.finish completed)
  | .abandon => whileMeasuring do letGo (← get).buffers.unclaim
  | .pass points base completed => runPass points base completed
  | .release => do
    match ← releaseSnapshot with
    | some current => return .truth current
    | none => return .nothing
  | .forget => do
    let _ ← releaseSnapshot
    return .nothing
  | .view => do
    match (← getBench).snapshot with
    | some s => return .shown s ((← get).buffers.view s)
    | none => return .nothing
  | .post command => do onControl ((← get).control.post command)
  | .drain => do
    let (changed, c) := (← get).control.drain
    Shared.setControl c
    return .truth changed
  | .single => do onControl ((← get).control.post .single)
  | .resume caller => do onControl ((← get).control.resume caller)
  | .finishPass completed => do
    Shared.setControl ((← get).control.finish completed)
    return .nothing
  | .setMode flag on => do
    Shared.setControl ((← get).control.setMode flag on)
    return .nothing

/-! ## Running the script -/

def perform : Action → Run (Shared N Bench) Unit
  | .buffer tone =>
    modify fun s =>
      { s with capture := s.capture.onBuffer s.environment.interruptTime tone.buffer }
  | .event e => do
    let outcome ← Shared.publishFromInterrupt listen e
    modifyBench fun b => { b with sightings := b.sightings.push (.published outcome.toBool) }
  | .adjust change => modifyBench fun b => { b with rig := change b.rig }
  | .request r => do
    let reply ← serve r
    modifyBench fun b => { b with replies := b.replies.push reply }

/-- Carries out the cues of a moment in the order of the script. -/
def performAt (m : Moment) : List Cue → Run (Shared N Bench) Unit
  | [] => return ()
  | cue :: rest => do
    if cue.moment = m then
      perform cue.action
    performAt m rest

/-- One relax that lasts `step`. -/
def relaxFor (step : Duration) : Run (Shared N Bench) Unit := do
  modifyBench fun b => { b with relaxes := b.relaxes + 1, time := b.time + step }
  let b ← getBench
  performAt (.relax b.relaxes) b.script

/-- One reading of the clock. -/
def readClock : Run (Shared N Bench) Instant := do
  modifyBench fun b => { b with readings := b.readings + 1 }
  let b ← getBench
  performAt (.reading b.readings) b.script
  return (← getBench).time

/-- The clock of the script. -/
def scriptedClock : Timebase (Shared N Bench) where
  now := readClock
  relax := do relaxFor (← getBench).tick

/-- Arms the capture now. -/
def armNow (delay : Duration) (bandwidth : UInt16) : Run (Shared N Bench) Unit := do
  let now ← readClock
  modify fun s => { s with capture := s.capture.arm now delay bandwidth }

/-- A codec buffer arrives several times, stamped each time with the clock. -/
def hearNow (buffer : List Int16) : (times : Nat) → Run (Shared N Bench) Unit
  | 0 => return ()
  | times + 1 => do
    let now ← readClock
    modify fun s => { s with capture := s.capture.onBuffer now buffer }
    hearNow buffer times

/-- A condition that holds from poll number `first` on, or never. -/
def pollUntil (first : Option Nat) : Run (Shared N Bench) Bool := do
  modifyBench fun b => { b with polls := b.polls + 1 }
  let polls := (← getBench).polls
  return first.any (· ≤ polls)

end Bench

end NetworkAnalyzer
