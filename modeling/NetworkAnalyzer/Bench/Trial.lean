import NetworkAnalyzer.Bench.Board
import NetworkAnalyzer.Bench.Host
import NetworkAnalyzer.Sweep.Session

/-!
# Trials

What is done to an instrument on the bench: passes and ticks called until they complete, and
snapshots taken as a reader would take them.

A call of a pass that yields is called again, up to a bound, and the number of calls is part of the
answer. A tick that idles or that completes a pass ends the repetition.

A snapshot may be looked at and given back at once, or kept while something else is tried: a scan
that finds a reader holding the buffers shows whether the scan minds.
-/

namespace NetworkAnalyzer.Bench

open Parameters

variable {N : Nat}

/-- Calls a pass at most `left` times, as long as it yields; the last answer and the
number of calls made in addition to `calls`. -/
def executeTimes (board : Board (Shared N Bench)) (calibration : Option (Calibration Float32 N))
    (breakable : Bool) (mask : SweepMask) :
    (left calls : Nat) → Pass N → Run (Shared N Bench) (Except Failure Bool × Nat × Pass N)
  | 0, calls, p => return (.ok false, calls, p)
  | left + 1, calls, p => do
    let (outcome, p) ← Pass.execute board calibration breakable mask p
    match outcome, left with
    | .ok false, _ + 1 => executeTimes board calibration breakable mask left (calls + 1) p
    | _, _ => return (outcome, calls + 1, p)

/-- Ticks at most `left` times, as long as a tick reports an incomplete pass. -/
def tickTimes (host : Host N Bench) :
    (left calls : Nat) → MeasurementLoop N →
      Run (Shared N Bench) (Option SweepResult × Nat × MeasurementLoop N)
  | 0, calls, l => return (none, calls, l)
  | left + 1, calls, l => do
    let (result, l) ← l.tick board host
    match result, left with
    | some ⟨_, false⟩, _ + 1 => tickTimes host left (calls + 1) l
    | _, _ => return (result, calls + 1, l)

def keepSnapshot (clock : Timebase (Shared N Bench)) (c : Channel)
    (timeout : Duration := snapshotTimeout) : Run (Shared N Bench) (Except Failure Snapshot) := do
  let outcome ← Shared.acquire clock c timeout
  if let .ok s := outcome then
    modifyBench fun b => { b with snapshot := some s }
  return outcome

/-- What one snapshot showed, and whether it was still current when it was given back. -/
structure Glimpse where
  snapshot : Snapshot
  points : List (Phasor Float32)
  current : Bool

/-- Takes a snapshot, reads it and gives it back. -/
def glimpse (clock : Timebase (Shared N Bench)) (c : Channel) :
    Run (Shared N Bench) (Except Failure Glimpse) := do
  match ← Shared.acquire clock c snapshotTimeout with
  | .error e => return .error e
  | .ok snapshot =>
    let points := (← get).buffers.view snapshot
    return .ok { snapshot, points, current := ← Shared.release snapshot }

/-- A scan while a reader holds a snapshot: its outcome, and what giving the snapshot
back afterwards answers. -/
def scanWhileHeld (board : Board (Shared N Bench)) (c : Channel) (mask : SweepMask)
    (h : SweepHead) : Run (Shared N Bench) (Except Failure Unit × Option Bool × SweepHead) := do
  let _ ← keepSnapshot board.toTimebase c
  let (outcome, h) ← h.scan board none mask
  return (outcome.map fun _ => (), ← releaseSnapshot, h)

end NetworkAnalyzer.Bench
