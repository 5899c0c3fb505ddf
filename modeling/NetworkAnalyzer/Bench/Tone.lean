/-!
# Test tones

A test tone is one codec buffer with a known answer: the reference input carries a cosine at the
intermediate frequency, the sample input a cosine and a sine of chosen amplitudes.

Tones are made of whole numbers. The cosine is a table of one period in thousandths, the sine the
same table a quarter period later, and amplitudes are multiplied first and divided last, with
whatever exceeds a codec word clamped. So every bench hears the same tone, whatever its processor
makes of a cosine.
-/

namespace NetworkAnalyzer.Bench

structure Tone where
  /-- Cosine at the reference input. -/
  reference : Int
  /-- Cosine at the sample input. -/
  inPhase : Int
  /-- Sine at the sample input. -/
  quadrature : Int
  deriving DecidableEq, Repr, Inhabited

namespace Tone

def cosine : Vector Int 16 :=
  #v[1000, 924, 707, 383, 0, -383, -707, -924, -1000, -924, -707, -383, 0, 383, 707, 924]

def sine : Vector Int 16 := Vector.ofFn fun k => cosine[(k.val + 12) % 16]

/-- Thousandths dropped and the rest clamped to a codec word. -/
def toWord (x : Int) : Int16 := Int16.ofInt (max (-32768) (min 32767 (x.tdiv 1000)))

/-- The reference and sample word of each of the 16 pairs of a period. -/
def period (t : Tone) : List Int16 :=
  (cosine.toList.zip sine.toList).flatMap fun (c, s) =>
    [toWord (t.reference * c), toWord (t.inPhase * c + t.quadrature * s)]

def buffer (t : Tone) : List Int16 := t.period ++ t.period ++ t.period

end Tone

end NetworkAnalyzer.Bench
