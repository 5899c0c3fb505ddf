import NetworkAnalyzer.Spectrum.Fourier
import NetworkAnalyzer.Spectrum.Kaiser

/-!
# Time domain response

A swept trace is a spectrum; its inverse transform of length 512 is the time domain response. The
lowpass functions take the trace as the positive half of a real signal's spectrum and complete it,
the bandpass function transforms it as it is.

A window is applied first. The response is divided by a norm that depends on the window: the sum of
the weights for the bandpass function, twice the sum for the lowpass impulse, and the peak of the
window, times the length of the transform, for the lowpass step.

`TimeDomain` works in one buffer of 512 samples that it keeps, and remembers the last normalization
with the setup it belongs to. A transform

* fills the buffer (`fill`): the windowed points, zeros behind them, and for a lowpass function the
  conjugates of the bins in the upper half;
* turns it into the response in place;
* reads it off (`readOff`): a lowpass response without its imaginary parts, and as a running sum for
  the step response.

Every entry is written before it is read, so neither the buffer nor the norm carries anything over
from one transform to the next. A trace may be longer than what is transformed: at most 512 points
go in, and at most 512 come out. A lowpass trace of more than 256 points reaches into the upper
half, where the conjugates replace its own bins.
-/

namespace NetworkAnalyzer

open Parameters

inductive ResponseKind where
  | lowpassImpulse
  | lowpassStep
  | bandpass
  deriving DecidableEq, Repr, Inhabited

/-- Whether the trace is the positive half of a real signal's spectrum. -/
def ResponseKind.isLowpass : ResponseKind → Bool
  | .lowpassImpulse | .lowpassStep => true
  | .bandpass => false

/-- Shape of the window: rectangular, or a Kaiser window of two strengths. -/
inductive WindowShape where
  | minimum
  | normal
  | maximum
  deriving DecidableEq, Repr

instance : Inhabited WindowShape := ⟨.normal⟩

def WindowShape.beta : WindowShape → UInt16
  | .minimum => 0
  | .normal => 6
  | .maximum => 13

structure ResponseSetup where
  kind : ResponseKind
  window : WindowShape
  points : Nat
  points_le : points ≤ transformLength
  deriving DecidableEq, Repr

abbrev TransformBuffer (α : Type) := Vector (Phasor α) transformLength

/-- The inverse transform of a whole buffer, which holds `2 ^ 9` samples. -/
def TransformBuffer.invert {α : Type} [Scalar α] (roots : Roots α) (x : TransformBuffer α) :
    TransformBuffer α := Fourier.transform roots .inverse 9 x

namespace ResponseSetup

variable {α : Type} [Scalar α]

/-- The setup for the first `points` of a trace of `length` points. No more than the trace has
and the transform takes are used. -/
def ofTrace (kind : ResponseKind) (window : WindowShape) (points length : Nat) : ResponseSetup :=
  ⟨kind, window, min points (min length transformLength), by omega⟩

theorem points_ofTrace_le (kind : ResponseKind) (window : WindowShape) (points length : Nat) :
    (ofTrace kind window points length).points ≤ length :=
  Nat.le_trans (Nat.min_le_right _ _) (Nat.min_le_left _ _)

/-- The lowpass functions use the upper half of a window of twice the length. -/
def offset (s : ResponseSetup) : Nat := if s.kind.isLowpass then s.points else 0

/-- The window as it falls on point `i`. -/
def weight (s : ResponseSetup) (i : Nat) : α :=
  Kaiser.window (i + s.offset).toUInt32 (s.points + s.offset).toUInt32 s.window.beta

def weightSum (s : ResponseSetup) : α :=
  (List.range s.points).foldl (fun sum i => sum + s.weight i) 0

/-- What the windowed data is divided by. The step response sums up what the impulse response
spreads, so it has a norm of its own. -/
def norm (s : ResponseSetup) : α :=
  match s.kind with
  | .lowpassStep =>
    let b : α := Scalar.ofNat s.window.beta.toNat
    Scalar.ofNat transformLength * Kaiser.besselI0 (b * b / Scalar.ofNat 4)
  | .lowpassImpulse => Scalar.ofNat 2 * s.weightSum
  | .bandpass => s.weightSum

def scale (s : ResponseSetup) : α := 1 / s.norm

/-! ## Filling the buffer -/

/-- The windowed points of a trace, from the start of the buffer on. -/
def load (s : ResponseSetup) (scale : α) {N : Nat} (data : Vector (Phasor α) N)
    (inTrace : s.points ≤ N) (x : TransformBuffer α) : TransformBuffer α :=
  Fin.foldl s.points (fun x i =>
    have inRange := s.points_le
    x.set i (data[i.val].scale (s.weight i * scale))) x

def clear (s : ResponseSetup) (x : TransformBuffer α) : TransformBuffer α :=
  Fin.foldl (transformLength - s.points) (fun x i => x.set (s.points + i) 0) x

/-- The negative frequencies of a real signal: bin `512 - i` becomes the conjugate of bin `i`,
from `i = 1` on. A trace of more than 256 points reaches into the upper half; there the
conjugates replace its own bins. -/
def complete (s : ResponseSetup) (x : TransformBuffer α) : TransformBuffer α :=
  Fin.foldl (s.points - 1) (fun x i =>
    have inRange := s.points_le
    x.set (transformLength - (i + 1)) x[i.val + 1].conj) x

def fill (s : ResponseSetup) (scale : α) {N : Nat} (data : Vector (Phasor α) N)
    (inTrace : s.points ≤ N) (x : TransformBuffer α) : TransformBuffer α :=
  let x := s.clear (s.load scale data inTrace x)
  if s.kind.isLowpass then s.complete x else x

/-! ## Reading the response off -/

/-- A lowpass response is real up to rounding. -/
def makeReal (s : ResponseSetup) (x : TransformBuffer α) : TransformBuffer α :=
  Fin.foldl s.points (fun x i =>
    have inRange := s.points_le
    x.set i { x[i.val] with im := 0 }) x

/-- The real part of the preceding point, which is a sum already, added to that of every point. -/
def accumulate (s : ResponseSetup) (x : TransformBuffer α) : TransformBuffer α :=
  Fin.foldl (s.points - 1) (fun x i =>
    have inRange := s.points_le
    x.set (i + 1) { x[i.val + 1] with re := x[i.val + 1].re + x[i.val].re }) x

/-- The response at the points: a lowpass response is real, and the step response is the running
sum of the impulse response. -/
def readOff (s : ResponseSetup) (x : TransformBuffer α) : TransformBuffer α :=
  let x := if s.kind.isLowpass then s.makeReal x else x
  if s.kind = .lowpassStep then s.accumulate x else x

end ResponseSetup

/-- Transforms traces in its buffer and remembers the last window normalization. -/
structure TimeDomain (α : Type) [Scalar α] where
  cached : Option ResponseSetup := none
  scale : α := 1
  buffer : TransformBuffer α := .replicate transformLength 0

namespace TimeDomain

variable {α : Type} [Scalar α]

/-- The normalization of `s`, from memory if it was the last one used. -/
def normalize (t : TimeDomain α) (s : ResponseSetup) : TimeDomain α × α :=
  if t.cached = some s then (t, t.scale)
  else ({ t with cached := some s, scale := s.scale }, s.scale)

/-- Replaces the first points of `data` by their time domain response. At most
512 points are transformed and at most 512 entries replaced. -/
def transform (roots : Roots α) (t : TimeDomain α) {N : Nat} (data : Vector (Phasor α) N)
    (points : Nat) (kind : ResponseKind) (window : WindowShape) :
    TimeDomain α × Vector (Phasor α) N :=
  let s := ResponseSetup.ofTrace kind window points N
  if s.points = 0 then (t, data)
  else
    let (t, scale) := t.normalize s
    let x := s.fill scale data (ResponseSetup.points_ofTrace_le kind window points N) t.buffer
    let x := s.readOff (TransformBuffer.invert roots x)
    ({ t with buffer := x },
      Vector.ofFn fun j => if h : j.val < transformLength then x[j.val] else data[j])

end TimeDomain

end NetworkAnalyzer
