import NetworkAnalyzer.Bench.Tone
import NetworkAnalyzer.Board

/-!
# Simulated front end

A `Rig` is the part of a simulated board that the sweep drives: a source with harmonic bands and
settling times, a multiplexer, and a device under test.

The device has a response for each channel. It is linear in the megahertz of the frequency, and may
drift from buffer to buffer over a cycle of seven, so the value that a point shows tells where and
when it was captured.

A retune takes longer into another band. Whether it changes the band is decided by the band that the
last retune stored, since the boundaries may have been moved in between. It also sets a request for
settling cycles, which is cleared by reading it. Queries for user input are answered from a list
first, and with a default after that.
-/

namespace NetworkAnalyzer.Bench

/-- Response of a device: in phase and quadrature amplitude, and their slopes per
megahertz. -/
structure Response where
  inPhase : Int := 3000
  quadrature : Int := 0
  inPhaseSlope : Int := 0
  quadratureSlope : Int := 0
  deriving DecidableEq, Repr

/-- Something the board did. -/
inductive BoardMark where
  | tuned (f : UInt32)
  | selected (c : Channel)
  | shown (i : Indication)
  deriving DecidableEq, Repr

def BoardMark.text : BoardMark → String
  | .tuned f => "F" ++ toString f.toNat
  | .selected c => "C" ++ toString c.index
  | .shown (.activity on) => if on then "A1" else "A0"
  | .shown (.bar x width filled) =>
    "P" ++ ",".intercalate [toString x.toNat, toString width.toNat, if filled then "1" else "0"]

structure Rig where
  /-- Time between two codec buffers. -/
  period : Duration := 250
  /-- Time a retune takes. -/
  tuneCost : Duration := 0
  /-- Settling time asked for after a retune within a band. -/
  delay : Duration := 10
  /-- Settling time asked for after a change of band. -/
  bandDelay : Duration := 5000
  /-- Settling cycles asked for after a retune within a band. -/
  settle : UInt8 := 0
  /-- Settling cycles asked for after a change of band. -/
  bandSettle : UInt8 := 0
  /-- Frequencies from which on a band is in use; the last entry that applies counts. -/
  bands : List (UInt32 × UInt32) := []
  /-- Amplitude at the reference input. -/
  reference : Int := 10000
  s11 : Response := {}
  s21 : Response := {}
  /-- Growth of the in phase amplitude per buffer, restarting every seven buffers. -/
  drift : Int := 0
  /-- Answers to the next queries for user input. -/
  pending : List Bool := []
  /-- Answer to all further queries. -/
  pendingDefault : Bool := false
  /-- The codec delivers no buffers. -/
  stalled : Bool := false
  /-- The board notes down what it does. -/
  logs : Bool := false
  /-- The last retune, if there was one. -/
  tunedTo : Option UInt32 := none
  /-- Band of the last retune. -/
  tunedBand : Option UInt32 := none
  /-- Settling cycles requested by the last retune. -/
  request : UInt8 := 0
  /-- Channel routed to the receiver. -/
  channel : Channel := .s11
  deriving DecidableEq, Repr

namespace Rig

def band (r : Rig) (f : UInt32) : UInt32 :=
  r.bands.foldl (fun found (lowest, id) => if lowest ≤ f then id else found) 0

def response (r : Rig) : Response :=
  match r.channel with
  | .s11 => r.s11
  | .s21 => r.s21

/-- The tone of buffer number `count`. -/
def tone (r : Rig) (count : Nat) : Tone :=
  let megahertz : Int := (r.tunedTo.getD 0).toNat / 1000000
  let p := r.response
  { reference := r.reference
    inPhase := p.inPhase + p.inPhaseSlope * megahertz + r.drift * (count % 7 : Nat)
    quadrature := p.quadrature + p.quadratureSlope * megahertz }

/-- Retunes the source; the settling time asked for. -/
def tune (r : Rig) (f : UInt32) : Duration × Rig :=
  let band := r.band f
  let changed := r.tunedBand.any (· != band)
  (if changed then r.bandDelay else r.delay,
   { r with
     tunedTo := some f
     tunedBand := some band
     request := if changed then r.bandSettle else r.settle })

def takeRequest (r : Rig) : UInt8 × Rig := (r.request, { r with request := 0 })

/-- Answers a query for user input. -/
def takePending (r : Rig) : Bool × Rig :=
  match r.pending with
  | [] => (r.pendingDefault, r)
  | p :: rest => (p, { r with pending := rest })

end Rig

end NetworkAnalyzer.Bench
