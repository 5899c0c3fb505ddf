import NetworkAnalyzer.Calibration.Collection
import NetworkAnalyzer.Sweep.Pass

/-!
# Sessions

Complete passes outside the regular cycle of the measurement task: calibration and console scans. A
session claims the buffers like the measurement task does, so readers never see a partial pass, and
publishes a completed pass as a new generation. It fails if somebody holds the buffers.

A calibration takes its passes from a session, as a `Sweeper` on the state paired with a head. What
it is handed are the points that the traces hold, each with its index. The plan that the sweeper
shows for them is the head's with the points beyond the traces left out (`sessionPlan`). That plan
spreads the range over fewer points, while the pass tunes the points of the head's own plan.

A session's pass is not breakable and its head is restarted, so it begins at point 0 whatever stood
before.
-/

namespace NetworkAnalyzer

namespace SweepHead

variable {N : Nat} {ε : Type}

/-- The measurement of a held buffer set ended; a pass is done only when complete. -/
def sessionOutcome : Except Failure Bool → Except Failure Unit
  | .ok true => .ok ()
  | .ok false => .error .resourceBusy
  | .error e => .error e

/-- Runs a pass on buffers that were just claimed: the traces as the pass left them. -/
def passOnBuffers (board : Board (Shared N ε)) (calibration : Option (Calibration Float32 N))
    (breakable : Bool) (mask : SweepMask) (h : SweepHead) :
    Run (Shared N ε) (Except Failure Bool × SweepHead) := do
  let (outcome, p) ← Pass.execute board calibration breakable mask ⟨h, (← get).buffers.traces⟩
  modify fun s => { s with buffers := { s.buffers with traces := p.traces } }
  return (outcome, p.head)

/-- One complete pass over `mask`. The traces are the answer when it completed. -/
def scan (board : Board (Shared N ε)) (calibration : Option (Calibration Float32 N))
    (mask : SweepMask) (h : SweepHead) :
    Run (Shared N ε) (Except Failure (Traces Float32 N) × SweepHead) := do
  match ← Shared.awaitCopyRelease board.toTimebase with
  | .error e => return (.error e, h)
  | .ok () =>
    match (← get).buffers.begin with
    | .error e => return (.error e, h)
    | .ok b =>
      Shared.setBuffers (b.setPoints (h.points N))
      let (outcome, h) ← h.passOnBuffers board calibration false mask
      let traces := (← get).buffers.traces
      Shared.setBuffers ((← get).buffers.finish (outcome matches .ok true))
      return ((sessionOutcome outcome).map fun _ => traces, h)

def onHead {σ β : Type} (f : SweepHead → Run σ (β × SweepHead)) : Run (SweepHead × σ) β :=
  fun (h, s) => do
    let ((b, h), s) ← f h s
    return (b, (h, s))

/-- The plan a session measures: the points beyond the traces are left out. -/
def sessionPlan (h : SweepHead) (N : Nat) : FrequencyPlan := { h.plan with points := h.points N }

/-- The measured points of a channel as the calibration receives them. -/
def handOver (h : SweepHead) (traces : Traces Float32 N) (c : Channel) :
    List (Nat × Phasor Float32) :=
  ((traces.get c).toList.take (h.points N).toNat).zipIdx.map fun (z, i) => (i, z)

/-- The sweep as a source of calibration data. Its passes are uncorrected. -/
def sweeper (board : Board (Shared N ε)) : Sweeper (SweepHead × Shared N ε) Float32 where
  plan s := s.1.sessionPlan N
  bandwidth s := s.1.config.bandwidth
  setBandwidth b := modify fun (h, s) => ({ h with config := { h.config with bandwidth := b } }, s)
  sweep mask c := do
    let outcome ← onHead (scan board none mask)
    match outcome with
    | .error e => return ⟨[], .error e⟩
    | .ok traces => return ⟨(← get).1.handOver traces c, .ok ()⟩

def collect (board : Board (Shared N ε)) (s : Standard) (averaging : UInt16)
    (c : Calibration Float32 N) (h : SweepHead) :
    Run (Shared N ε) (Except Failure Unit × Calibration Float32 N × SweepHead) := fun w => do
  let ((outcome, c), (h, w)) ← c.collect (sweeper board) s averaging (h, w)
  return ((outcome, c, h), w)

end SweepHead

end NetworkAnalyzer
