/-!
# Scalars

Receiver values are 32-bit floats on the instrument and exact numbers in a
theorem. `Scalar` is what the arithmetic needs of either: the four operations,
a decidable order, and how whole numbers and decimal constants enter.

Nothing is assumed about the operations, so a formula written over `Scalar`
fixes the order in which it rounds.

## Words

Storing and sending copy words of 32 bits and look at no number. `MemoryWord`
is what they need of a scalar: its word, and the scalar of a word. Nothing is
assumed about the two here either.

Two types have words:

* `Float32` computes. It has a single value for all the words that hold no
  number, so a word that passes through it may come out as another word.
* `RawSingle` is the word itself, as memory has it. Copies of it keep every
  word. It computes as `Float32` does.

What is said of stored bits is said over any type with words, and means the
bits of the instrument for `RawSingle`.
-/

namespace NetworkAnalyzer

/-- The numbers a receiver value is made of. -/
class Scalar (α : Type) extends Zero α, One α, Add α, Sub α, Mul α, Div α, Neg α, LE α where
  /-- A whole number, rounded to the nearest scalar. -/
  ofNat : Nat → α
  /-- The decimal constant `m / 10 ^ e`, rounded to the nearest scalar. -/
  ofDecimal : Nat → Nat → α
  /-- Thresholds are compared by deciding `≤`. -/
  decLE : (a b : α) → Decidable (a ≤ b)

instance Scalar.instDecidableLE {α : Type} [Scalar α] : DecidableLE α := Scalar.decLE

/-- Single precision, rounding to nearest. Counts above `2 ^ 64` do not occur. -/
instance : Scalar Float32 where
  zero := 0
  one := 1
  ofNat n := n.toUInt64.toFloat32
  ofDecimal m e := Float32.ofScientific m true e
  decLE a b := Float32.decLe a b

/-! ## Words -/

/-- Values that memory keeps as one 32-bit word. -/
class MemoryWord (α : Type) where
  toWord : α → UInt32
  ofWord : UInt32 → α

instance : MemoryWord Float32 where
  toWord := Float32.toBits
  ofWord := Float32.ofBits

/-- A single by the word that memory holds for it. -/
structure RawSingle where
  word : UInt32
  deriving DecidableEq, Repr

namespace RawSingle

def value (x : RawSingle) : Float32 := .ofBits x.word

def ofValue (x : Float32) : RawSingle := ⟨x.toBits⟩

instance : MemoryWord RawSingle where
  toWord := word
  ofWord := mk

/-- Which of the words without a number an operation returns is left to the processor; here it
is always the same. -/
instance : Scalar RawSingle where
  zero := ofValue 0
  one := ofValue 1
  add x y := ofValue (x.value + y.value)
  sub x y := ofValue (x.value - y.value)
  mul x y := ofValue (x.value * y.value)
  div x y := ofValue (x.value / y.value)
  neg x := ofValue (-x.value)
  le x y := x.value ≤ y.value
  ofNat n := ofValue (Scalar.ofNat n)
  ofDecimal m e := ofValue (Scalar.ofDecimal m e)
  decLE x y := Float32.decLe x.value y.value

end RawSingle

end NetworkAnalyzer
