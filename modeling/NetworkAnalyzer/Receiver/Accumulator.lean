import NetworkAnalyzer.Parameters
import NetworkAnalyzer.Phasor

/-!
# Accumulator

The codec delivers buffers in which reference and sample alternate. Both are mixed with the same
table of the intermediate frequency, three periods of 48 entries, and summed until the accumulator
is cleared. The real part of each sum is the cosine product, the imaginary part the sine product.

The sums are singles, and every product is rounded and added on its own, in the order of the words.
The table is the one that a build computes: angles, cosines and sines in double precision, rounded
to single once.

A buffer may have the wrong length. Pairs beyond the table are ignored, and a last word without its
partner is no pair.

A `Sampler` reduces the two sums to one value: their ratio, which is the usual one, or the amplitude
of one of the inputs. A ratio to a silent reference is zero.
-/

namespace NetworkAnalyzer

open Parameters

structure MixerEntry where
  sin : Float32
  cos : Float32

/-- The angle of entry `i` in double precision. -/
def MixerEntry.angle (i : Nat) : Float := (2.0 * 3.141592653589793) * (3 * i).toFloat / 48.0

/-- The intermediate frequency over one buffer, rounded to single precision. -/
def mixerTable : List MixerEntry :=
  (List.range bufferPairs).map fun i =>
    ⟨(MixerEntry.angle i).sin.toFloat32, (MixerEntry.angle i).cos.toFloat32⟩

structure Accumulator where
  sample : Phasor Float32 := 0
  reference : Phasor Float32 := 0
  deriving DecidableEq, Repr, Inhabited

namespace Accumulator

def zero : Accumulator := {}

/-- Reference and sample pairs of a buffer; a last single word is no pair. -/
def pairs : List Int16 → List (Int16 × Int16)
  | reference :: sample :: rest => (reference, sample) :: pairs rest
  | _ => []

/-- Mixes one pair of samples down: the first is the reference, the second the sample input. -/
def mixPair (a : Accumulator) (pair : Int16 × Int16) (m : MixerEntry) : Accumulator :=
  let reference := pair.1.toFloat32
  let sample := pair.2.toFloat32
  { sample := ⟨a.sample.re + sample * m.cos, a.sample.im + sample * m.sin⟩
    reference := ⟨a.reference.re + reference * m.cos, a.reference.im + reference * m.sin⟩ }

/-- One buffer mixed in; pairs beyond the table are ignored. -/
def mix (a : Accumulator) (buffer : List Int16) : Accumulator :=
  ((pairs buffer).zip mixerTable).foldl (fun a (p, m) => a.mixPair p m) a

/-- The ratio of sample to reference, zero when the reference is silent. -/
def gamma (a : Accumulator) : Phasor Float32 :=
  if a.reference.normSq == 0 then 0 else a.sample / a.reference

/-- A sum scaled to an amplitude: sine product first. -/
def amplitudeOf (z : Phasor Float32) : Phasor Float32 :=
  Phasor.scale ⟨z.im, z.re⟩ (Scalar.ofDecimal 1 9)

end Accumulator

/-- What a measured point is computed from. -/
inductive Sampler where
  /-- Ratio of sample to reference: the normal measurement. -/
  | gamma
  /-- Amplitude of the sample input. -/
  | amplitude
  /-- Amplitude of the reference input. -/
  | referenceAmplitude
  deriving DecidableEq, Repr, Inhabited

def Sampler.value : Sampler → Accumulator → Phasor Float32
  | .gamma, a => a.gamma
  | .amplitude, a => Accumulator.amplitudeOf a.sample
  | .referenceAmplitude, a => Accumulator.amplitudeOf a.reference

end NetworkAnalyzer
