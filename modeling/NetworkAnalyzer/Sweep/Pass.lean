import NetworkAnalyzer.Calibration.Lookup
import NetworkAnalyzer.Correction
import NetworkAnalyzer.Shared
import NetworkAnalyzer.Sweep.Progress

/-!
# Passes

A pass measures every point of a frequency plan in order. `SweepHead` is what survives between the
calls; `Pass` is the head together with the traces being filled.

A call of a pass (`Pass.execute`) starts where the last one stopped. A breakable call yields to
pending user input and to the time slice, and the next call resumes it at the next unmeasured point.
A call that is not breakable starts at point 0 and runs to the end. After a failed capture the next
call starts at point 0, too. The answer is `true` once every point was measured, `false` when the
call yielded or had nothing to do, and a failure when a capture timed out.

A point (`PointSetup.measure`) is tuned to and then captured, one channel after the other:

* the source may ask for extra settling cycles. All channels are captured in every cycle, and the
  values of the last one stay.
* The first channel of a cycle waits for the source, the others only for the multiplexer. The first
  cycle of a point settles longer.
* In the last cycle the error terms are looked up once, and each value is corrected, rotated by its
  delay and, for the transmission, scaled by the gain. The transmission is corrected with the
  reflection as it was entered. In earlier cycles values are entered without the error terms.
* After all captures the reflection is referred to another impedance.

Without channels a point is neither tuned to nor captured, but it counts.

A breakable call may measure one point only if user input waits when it begins. Before every further
point it looks for input first and at its time second; before its first point at the time alone.

The light is on from point 0 to the end of a pass, and a bar is drawn at narrow bandwidths.
-/

namespace NetworkAnalyzer

open Parameters

/-- Where a pass stands between calls. -/
inductive PassState where
  /-- The next call starts at point 0. -/
  | idle
  /-- The next call measures this point. -/
  | stepping (next : UInt16)
  /-- The last pass measured every point. -/
  | completed
  /-- The last pass failed. -/
  | aborted
  deriving DecidableEq, Repr, Inhabited

def PassState.text : PassState → String
  | .idle => "Idle"
  | .stepping next => "Stepping(" ++ toString next.toNat ++ ")"
  | .completed => "Completed"
  | .aborted => "Aborted"

/-- How a point is measured and corrected, whatever its frequency. -/
structure SweepConfig where
  /-- Bandwidth code. -/
  bandwidth : UInt16 := bandwidth1000
  /-- Electrical delay of each channel in seconds. -/
  delayS11 : Float32 := 0
  delayS21 : Float32 := 0
  /-- Gain offset of the transmission in decibels. -/
  gainOffset : Float32 := 0
  /-- Impedance the reflection is referred to, in ohms. -/
  portImpedance : Float32 := loadImpedance
  /-- Impedance of the calibration load, in ohms. -/
  referenceImpedance : Float32 := loadImpedance
  sampler : Sampler := .gamma
  deriving DecidableEq, Repr

def SweepConfig.delay (c : SweepConfig) : Channel → Float32
  | .s11 => c.delayS11
  | .s21 => c.delayS21

/-- What survives between the calls of a pass. -/
structure SweepHead where
  plan : FrequencyPlan
  config : SweepConfig := {}
  state : PassState := .idle
  progress : Progress := {}
  deriving DecidableEq, Repr

/-- The sweep in progress, with the buffers it writes. -/
structure Pass (N : Nat) where
  head : SweepHead
  traces : Traces Float32 N

namespace SweepHead

def restart (h : SweepHead) : SweepHead := { h with state := .idle }

/-- Replaces the plan. Another plan restarts the pass. -/
def setPlan (h : SweepHead) (plan : FrequencyPlan) : SweepHead :=
  if plan = h.plan then h else { h with plan }.restart

/-- Points of one pass over traces of `N` points. -/
def points (h : SweepHead) (N : Nat) : UInt16 := min h.plan.points N.toUInt16

/-- The point the next call measures. -/
def nextPoint (h : SweepHead) (N : Nat) : UInt16 :=
  match h.state with
  | .stepping p => p
  | .completed => h.points N
  | .idle | .aborted => 0

end SweepHead

/-! ## One point -/

/-- One capture of a point: every settling cycle takes one for each channel. -/
structure Shot where
  channel : Channel
  /-- Settling time of the source or the multiplexer before its buffers count. -/
  settle : Duration
  /-- Settling time on top of it, for the first cycle of the point. -/
  lead : Duration
  /-- It belongs to the last settling cycle, whose values are corrected. -/
  final : Bool
  deriving DecidableEq, Repr

/-- The captures of one settling cycle. The first channel waits for the source, the
others only for the multiplexer; the first cycle of a point settles longer. -/
def cycleShots (channels : List Channel) (delay : Duration) (extra cycle : Nat) : List Shot :=
  let lead : Duration := if cycle = 0 then sweepStartDelay else 0
  channels.zipIdx.map fun (c, i) =>
    ⟨c, if i = 0 then delay else channelChangeDelay, lead, cycle = extra⟩

def pointShots (channels : List Channel) (delay : Duration) (extra : Nat) : List Shot :=
  (List.range (extra + 1)).flatMap (cycleShots channels delay extra)

/-- What is known while a point is measured. -/
structure PointState (N : Nat) where
  traces : Traces Float32 N
  /-- The latest value of the reflection at this point. -/
  reflection : Phasor Float32 := 0
  /-- The error terms, once they were looked up. -/
  terms : Option (Terms Float32) := none

/-- What a point is measured with. -/
structure PointSetup (N : Nat) where
  index : UInt16
  frequency : UInt32
  mask : SweepMask
  config : SweepConfig
  /-- The calibration to correct with. -/
  calibration : Option (Calibration Float32 N)
  /-- Linear gain of the transmission. -/
  gain : Float32

namespace PointSetup

variable {N : Nat}

/-- The index of the terms, when the sweep runs on the plan of the calibration. -/
def termIndex (p : PointSetup N) : Option Nat :=
  if p.mask.has .interpolate then none else some p.index.toNat

def enhanced (p : PointSetup N) : Bool :=
  match p.calibration with
  | some cal => cal.status.has .enhancedResponse
  | none => false

/-- Error correction on the last cycle only, then the electrical delay, then the gain of the
transmission. -/
def correct (p : PointSetup N) (s : PointState N) (shot : Shot) (z : Phasor Float32) :
    Phasor Float32 :=
  let z := match shot.final, s.terms with
    | true, some t =>
      match shot.channel with
      | .s11 => Correction.reflection z t
      | .s21 => Correction.transmission z s.reflection t p.enhanced
    | _, _ => z
  let z := if p.mask.removesDelay shot.channel then
      Correction.electricalDelay z (p.config.delay shot.channel) p.frequency
    else z
  match shot.channel with
  | .s11 => z
  | .s21 => z.scale p.gain

/-- Writes the value to its trace. The reflection is kept for correcting the transmission of the
same point. -/
def enter (p : PointSetup N) (s : PointState N) (c : Channel) (z : Phasor Float32) : PointState N :=
  { s with
    traces := s.traces.setPoint c p.index.toNat z
    reflection := match c with
      | .s11 => z
      | .s21 => s.reflection }

/-- The reflection referred to the chosen impedance, if the mask asks for it. -/
def renormalized (p : PointSetup N) (s : PointState N) : Traces Float32 N :=
  if p.mask.has .renormalize && p.mask.measures .s11 then
    s.traces.setPoint .s11 p.index.toNat
      (Correction.renormalize s.reflection p.config.portImpedance p.config.referenceImpedance)
  else s.traces

variable {ε : Type}

/-- The terms at this point, looked up once, at the first capture of the last cycle. -/
def lookUp (board : Board (Shared N ε)) (p : PointSetup N) (s : PointState N) (final : Bool) :
    Run (Shared N ε) (PointState N) := do
  match final, s.terms, p.calibration with
  | true, none, some cal =>
    let terms ← cal.interpolate p.termIndex p.frequency (board.band (← get))
    return { s with terms := some terms }
  | _, _, _ => return s

/-- Takes one capture and enters its value. -/
def shoot (board : Board (Shared N ε)) (p : PointSetup N) (shot : Shot) (s : PointState N) :
    Run (Shared N ε) (Except Failure Unit × PointState N) := do
  board.select shot.channel
  let now ← board.now
  let settle ← addDurations shot.settle shot.lead
  modify fun w => { w with capture := w.capture.arm now settle p.config.bandwidth }
  let s ← p.lookUp board s shot.final
  match ← Shared.awaitCapture board.toTimebase captureTimeout with
  | .error e => return (.error e, s)
  | .ok () =>
    let z := (← get).capture.value p.config.sampler
    return (.ok (), p.enter s shot.channel (p.correct s shot z))

/-- The captures in order, up to the first that fails. -/
def shootAll (board : Board (Shared N ε)) (p : PointSetup N) :
    List Shot → PointState N → Run (Shared N ε) (Except Failure Unit × PointState N)
  | [], s => return (.ok (), s)
  | shot :: rest, s => do
    match ← p.shoot board shot s with
    | (.error e, s) => return (.error e, s)
    | (.ok (), s) => p.shootAll board rest s

/-- Tunes the source to the point, unless no channel is selected: the settling time
and the number of extra settling cycles. -/
def retune (board : Board (Shared N ε)) (p : PointSetup N) :
    Run (Shared N ε) (Duration × UInt8) := do
  if p.mask.measuresAny then
    let delay ← board.tune p.frequency
    let extra ← board.takeSettlingCycles
    return (delay, extra)
  else
    return (0, 0)

/-- One point: retunes the source, takes the captures and renormalizes the reflection. -/
def measure (board : Board (Shared N ε)) (p : PointSetup N) (traces : Traces Float32 N) :
    Run (Shared N ε) (Except Failure Unit × Traces Float32 N) := do
  let (delay, extra) ← p.retune board
  match ← p.shootAll board (pointShots p.mask.channels delay extra.toNat) { traces } with
  | (.error e, s) => return (.error e, s.traces)
  | (.ok (), s) => return (.ok (), p.renormalized s)

end PointSetup

/-! ## The pass -/

namespace Pass

variable {N : Nat} {ε : Type}

def showProgress (board : Board (Shared N ε)) (p : Pass N) (step : Progress × List Indication) :
    Run (Shared N ε) (Pass N) := do
  board.indicateAll step.2
  return { p with head := { p.head with progress := step.1 } }

/-- Erases the bar and turns the light off. -/
def darken (board : Board (Shared N ε)) (p : Pass N) : Run (Shared N ε) (Pass N) :=
  p.showProgress board p.head.progress.finish

def withState (p : Pass N) (state : PassState) : Pass N := { p with head := { p.head with state } }

/-- What stays the same for all points of one call. -/
structure Setup (N : Nat) where
  calibration : Option (Calibration Float32 N)
  breakable : Bool
  mask : SweepMask
  points : UInt16
  /-- Points this call may measure. -/
  budget : Nat
  /-- Start of the time slice. -/
  sliceStart : Instant
  /-- Linear gain of the transmission. -/
  gain : Float32

/-- Whether a call that measured `processed` points has to yield. -/
def mustYield (board : Board (Shared N ε)) (c : Setup N) (processed : Nat) :
    Run (Shared N ε) Bool := do
  if c.budget ≤ processed then
    return true
  if !c.breakable then
    return false
  if 0 < processed then
    if ← board.inputPending then
      return true
  return decide (timeSlice ≤ (← elapsed (← board.now) c.sliceStart))

def pointSetup (c : Setup N) (h : SweepHead) (point : UInt16) : PointSetup N :=
  { index := point
    frequency := h.plan.get point
    mask := c.mask
    config := h.config
    calibration := if c.mask.has .calibrate then c.calibration else none
    gain := c.gain }

/-- Measures the last `left` points, or as many as the call may. -/
def advance (board : Board (Shared N ε)) (c : Setup N) :
    (left processed : Nat) → Pass N → Run (Shared N ε) (Except Failure Bool × Pass N)
  | 0, _, p => do
    let p ← (p.withState .completed).darken board
    return (.ok true, p)
  | left + 1, processed, p => do
    if ← mustYield board c processed then
      return (.ok false, p)
    let point := c.points - (left + 1).toUInt16
    let (outcome, traces) ← (pointSetup c p.head point).measure board p.traces
    let p := { p with traces }
    match outcome with
    | .error e =>
      let p ← (p.withState .aborted).darken board
      return (.error e, p)
    | .ok () =>
      let p ← p.showProgress board (p.head.progress.update point c.points)
      (p.withState (.stepping (point + 1))).advance board c left (processed + 1)

/-- Prepares a call: a pass that cannot be resumed restarts and ends its indications. -/
def rewind (board : Board (Shared N ε)) (breakable : Bool) (p : Pass N) :
    Run (Shared N ε) (Pass N) :=
  if !breakable || p.head.points N ≤ p.head.nextPoint N then
    { p with head := p.head.restart }.darken board
  else
    return p

/-- Points one call may measure: all of them, or one while user input waits. -/
def callBudget (board : Board (Shared N ε)) (breakable : Bool) : Run (Shared N ε) Nat := do
  if !breakable then
    return 65535
  if ← board.inputPending then
    return 1
  return pointsMax

/-- Turns the indications on when the pass starts at point 0. The bar is shown at
narrow bandwidths only. -/
def announce (board : Board (Shared N ε)) (p : Pass N) : Run (Shared N ε) (Pass N) :=
  if p.head.nextPoint N = 0 then
    p.showProgress board (p.head.progress.begin (bandwidth100 ≤ p.head.config.bandwidth))
  else
    return p

def gainOf (config : SweepConfig) (mask : SweepMask) : Float32 :=
  if mask.has .gainOffset then Correction.gain config.gainOffset else 1

/-- Runs or resumes a pass over the points of the plan.

The answer is `true` once every point was measured, `false` when the pass yielded
or had nothing to do, and a failure when a capture timed out. -/
def execute (board : Board (Shared N ε)) (calibration : Option (Calibration Float32 N))
    (breakable : Bool) (mask : SweepMask) (p : Pass N) :
    Run (Shared N ε) (Except Failure Bool × Pass N) := do
  let p ← p.rewind board breakable
  if breakable && mask.isEmpty then
    let p ← p.darken board
    return (.ok false, p)
  let budget ← callBudget board breakable
  let p ← p.announce board
  let sliceStart ← board.now
  let points := p.head.points N
  let point := p.head.nextPoint N
  let gain := gainOf p.head.config mask
  (p.withState (.stepping point)).advance board
    { calibration, breakable, mask, points, budget, sliceStart, gain }
    (points.toNat - point.toNat) 0

end Pass

end NetworkAnalyzer
