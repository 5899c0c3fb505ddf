import NetworkAnalyzer.Instrument

/-!
# Measurement loop

The body of the measurement task. Each tick serves the host and asks whether a pass may start. If
so, it runs one call of a pass and reports its result to the host; otherwise it idles.

A call of a pass goes through these steps:

* the mask is decided by the settings and the status of the calibration;
* a reader that copies is waited for, and the buffers are claimed. If somebody else has them by
  then, the call fails before it has started;
* the point count is published, and the start announced unless the pass was stepping: a pass that
  goes on was announced before;
* the pass is executed on the traces of the buffers;
* a completed pass is processed for display, in place;
* the buffers are given back, and a completed pass is counted;
* the completion is announced, after the buffers are free.

A breakable call may yield in the middle, and is then not completed; a later tick goes on. A capture
that times out ends the call in the same way. The host learns of every attempt, and accounts for it
with its control.
-/

namespace NetworkAnalyzer

open Parameters

structure SweepResult where
  mask : SweepMask
  /-- Every point of the plan was measured. -/
  completed : Bool
  deriving DecidableEq, Repr

/-- What the program around the loop supplies; each entry may touch the shared state. -/
structure Host (N : Nat) (ε : Type) where
  /-- Housekeeping at the start of every tick. -/
  service : Instrument N → Run (Shared N ε) (Instrument N) := fun i => return i
  /-- Whether a pass may start, and if so whether it is breakable. -/
  canStart : Run (Shared N ε) (Option Bool)
  /-- Called after every attempted pass. -/
  handleResult : SweepResult → Run (Shared N ε) Unit
  /-- Called for every event delivered. -/
  listen : Delivered → Run (Shared N ε) Unit := fun _ => return ()

/-- Instrument and transform memory of the measurement task. -/
structure MeasurementLoop (N : Nat) where
  instrument : Instrument N
  timeDomain : TimeDomain Float32 := {}

namespace MeasurementLoop

variable {N : Nat} {ε : Type}

def process (l : MeasurementLoop N) (traces : Traces Float32 N) (mask : SweepMask) :
    Traces Float32 N × MeasurementLoop N :=
  let points := l.instrument.head.points N
  let (timeDomain, traces) := l.instrument.settings.processing.apply l.timeDomain traces points mask
  (traces, { l with timeDomain })

/-- Runs a call of a pass on the buffers that were just claimed, and gives them back. -/
def runClaimed (board : Board (Shared N ε)) (host : Host N ε) (breakable : Bool) (mask : SweepMask)
    (l : MeasurementLoop N) : Run (Shared N ε) (Except Failure Bool × MeasurementLoop N) := do
  let head := l.instrument.head
  Shared.setBuffers ((← get).buffers.setPoints (head.points N))
  if !(head.state matches .stepping _) then
    Shared.publish host.listen (.sweepStarted mask)
  let (outcome, traces, instrument) ←
    l.instrument.execute board breakable mask (← get).buffers.traces
  let l := { l with instrument }
  let completed := outcome matches .ok true
  let (traces, l) := if completed then l.process traces mask else (traces, l)
  let b := (← get).buffers
  Shared.setBuffers ({ b with traces }.finish completed)
  if completed then
    Shared.publish host.listen (.sweepCompleted mask)
  return (outcome, l)

/-- Waits for a copy in progress, then claims the buffers. Without them no part of the pass
happens. -/
def run (board : Board (Shared N ε)) (host : Host N ε) (breakable : Bool) (mask : SweepMask)
    (l : MeasurementLoop N) : Run (Shared N ε) (Except Failure Bool × MeasurementLoop N) := do
  match ← Shared.awaitCopyRelease board.toTimebase with
  | .error e => return (.error e, l)
  | .ok () =>
    match (← get).buffers.begin with
    | .error e => return (.error e, l)
    | .ok b =>
      Shared.setBuffers b
      l.runClaimed board host breakable mask

/-- One tick: the result as reported to the host, or nothing if the loop idled. -/
def tick (board : Board (Shared N ε)) (host : Host N ε) (l : MeasurementLoop N) :
    Run (Shared N ε) (Option SweepResult × MeasurementLoop N) := do
  let instrument ← host.service l.instrument
  let l := { l with instrument }
  match ← host.canStart with
  | none =>
    let _ ← waitUntil board.toTimebase idleDelay (pure false)
    return (none, l)
  | some breakable =>
    let mask := l.instrument.activeMask
    let (outcome, l) ← l.run board host breakable mask
    let result : SweepResult := ⟨mask, outcome matches .ok true⟩
    host.handleResult result
    return (some result, l)

end MeasurementLoop

end NetworkAnalyzer
