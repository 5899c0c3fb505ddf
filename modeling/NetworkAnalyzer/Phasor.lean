import NetworkAnalyzer.Scalar

/-!
# Phasors

A receiver value: amplitude and phase of one tone as a complex number in rectangular form, with
the operations written out so that their rounding is fixed.

Sums, differences and products are the usual formulas, each component computed on its own. A
quotient is formed as `z · conj w / |w|²`: both components are divided by the squared magnitude
last, which is not what a library for complex numbers would do, and in single precision the
difference shows.

Two operations have a rule of their own.

* `divOr` is the guarded quotient that every correction uses. The guard compares the squared
  magnitude of the divisor with `ε` by `≤`, so it does not hold for a NaN, and a NaN divides.
* `rotate` is the phase rotation of a line. Whole turns are dropped before the angle is formed,
  since an angle of many turns has no precision left in a single.

The component equations below are simp lemmas, so a statement about phasors comes apart into two
about scalars. `Phasor.allClose` is the tolerance test on traces, with a larger magnitude that
ignores NaN.
-/

namespace NetworkAnalyzer

/-- Amplitude and phase of one tone, in rectangular form. -/
structure Phasor (α : Type) where
  re : α
  im : α
  deriving DecidableEq, Repr

namespace Phasor

variable {α : Type} [Scalar α]

def real (x : α) : Phasor α := ⟨x, 0⟩

instance : Zero (Phasor α) := ⟨⟨0, 0⟩⟩
instance : One (Phasor α) := ⟨⟨1, 0⟩⟩
instance : Inhabited (Phasor α) := ⟨0⟩
instance : Add (Phasor α) := ⟨fun z w => ⟨z.re + w.re, z.im + w.im⟩⟩
instance : Sub (Phasor α) := ⟨fun z w => ⟨z.re - w.re, z.im - w.im⟩⟩
instance : Mul (Phasor α) :=
  ⟨fun z w => ⟨z.re * w.re - z.im * w.im, z.re * w.im + z.im * w.re⟩⟩

def normSq (z : Phasor α) : α := z.re * z.re + z.im * z.im

instance : Div (Phasor α) :=
  ⟨fun z w =>
    ⟨(z.re * w.re + z.im * w.im) / w.normSq, (z.im * w.re - z.re * w.im) / w.normSq⟩⟩

def scale (z : Phasor α) (k : α) : Phasor α := ⟨z.re * k, z.im * k⟩

def conj (z : Phasor α) : Phasor α := ⟨z.re, -z.im⟩

/-- Quotient, or `fallback` when the squared magnitude of `w` is at most `ε`. -/
def divOr (z w : Phasor α) (ε : α) (fallback : Phasor α) : Phasor α :=
  if w.normSq ≤ ε then fallback else z / w

/-! ## Component equations -/

@[simp] theorem zero_re : (0 : Phasor α).re = 0 := rfl
@[simp] theorem zero_im : (0 : Phasor α).im = 0 := rfl
@[simp] theorem one_re : (1 : Phasor α).re = 1 := rfl
@[simp] theorem one_im : (1 : Phasor α).im = 0 := rfl
@[simp] theorem add_re (z w : Phasor α) : (z + w).re = z.re + w.re := rfl
@[simp] theorem add_im (z w : Phasor α) : (z + w).im = z.im + w.im := rfl
@[simp] theorem sub_re (z w : Phasor α) : (z - w).re = z.re - w.re := rfl
@[simp] theorem sub_im (z w : Phasor α) : (z - w).im = z.im - w.im := rfl
@[simp] theorem mul_re (z w : Phasor α) : (z * w).re = z.re * w.re - z.im * w.im := rfl
@[simp] theorem mul_im (z w : Phasor α) : (z * w).im = z.re * w.im + z.im * w.re := rfl
@[simp] theorem scale_re (z : Phasor α) (k : α) : (z.scale k).re = z.re * k := rfl
@[simp] theorem scale_im (z : Phasor α) (k : α) : (z.scale k).im = z.im * k := rfl
@[simp] theorem conj_re (z : Phasor α) : z.conj.re = z.re := rfl
@[simp] theorem conj_im (z : Phasor α) : z.conj.im = -z.im := rfl

/-! ## Single precision -/

/-- One full turn in radians. -/
def tau : Float32 := Float32.ofBits 0x40c90fdb

/-- The phase advanced by `turns` revolutions. Only the fractional turn matters;
dropping the whole turns first keeps precision for long lines. -/
def rotate (z : Phasor Float32) (turns : Float32) : Phasor Float32 :=
  let φ := tau * (turns - turns.floor)
  let s := φ.toFloat.sin.toFloat32
  let c := φ.toFloat.cos.toFloat32
  ⟨z.re * c - z.im * s, z.im * c + z.re * s⟩

end Phasor

/-! ## Tolerances -/

/-- Whether `a` and `b` differ by at most `rel` times the larger magnitude plus `abs`. -/
def isClose (a b rel abs : Float32) : Bool :=
  let larger := if a.abs < b.abs || a.abs.isNaN then b.abs else a.abs
  decide ((a - b).abs ≤ larger * rel + abs)

def Phasor.isClose (z w : Phasor Float32) (rel abs : Float32) : Bool :=
  NetworkAnalyzer.isClose z.re w.re rel abs && NetworkAnalyzer.isClose z.im w.im rel abs

/-- Closeness of two traces, point by point; traces of different length are not close. -/
def Phasor.allClose (zs ws : List (Phasor Float32)) (rel abs : Float32) : Bool :=
  zs.length == ws.length && (zs.zip ws).all fun (z, w) => z.isClose w rel abs

end NetworkAnalyzer
