/-!
# Byte strings of words

Stored records are strings of bytes: whole numbers as varints, seven bits to a byte with the lowest
first and the high bit set on every byte but the last, and 32-bit words in little-endian order.

A varint has a type with a longest form. Reading refuses a number that goes on beyond it, and a last
byte of the longest form that holds more than the type does. A form that is longer than needed is
read: zeros in the high bits are no error, so several byte strings stand for one number, and writing
gives the shortest of them.

A reader takes a value off the front of the bytes and leaves the rest. It fails where the bytes end,
where a varint is not one of its type, and where a sequence announces more items than there is room
for.
-/

namespace NetworkAnalyzer.Wire

abbrev Bytes := List UInt8

/-- Why bytes could not be read. -/
inductive ReadError where
  /-- The bytes end inside a value. -/
  | unexpectedEnd
  /-- A varint is longer than its type allows. -/
  | badVarint
  /-- A sequence has more items than there is room for. -/
  | tooManyItems
  deriving DecidableEq, Repr

def ReadError.name : ReadError → String
  | .unexpectedEnd => "DeserializeUnexpectedEnd"
  | .badVarint => "DeserializeBadVarint"
  | .tooManyItems => "SerdeDeCustom"

def ReadError.message : ReadError → String
  | .unexpectedEnd => "Hit the end of buffer, expected more data"
  | .badVarint =>
    "Found a varint that didn't terminate. Is the usize too big for this platform?"
  | .tooManyItems => "Serde Deserialization Error"

/-- A reader takes a value off the front of the bytes. -/
abbrev Reader (α : Type) := Bytes → Except ReadError (α × Bytes)

/-! ## Varints -/

/-- A type of varints: its longest form, and the largest last byte of that form. -/
structure VarintType where
  maxBytes : Nat
  lastMax : Nat

def varint16 : VarintType := ⟨3, 3⟩
def varint32 : VarintType := ⟨5, 15⟩
def varint64 : VarintType := ⟨10, 1⟩

def writeVarint (n : Nat) : Bytes :=
  if n < 128 then [n.toUInt8] else (n % 128 + 128).toUInt8 :: writeVarint (n / 128)
termination_by n
decreasing_by omega

/-- A number of at most `left` more bytes. -/
def readVarintBytes (lastMax : Nat) : (left : Nat) → Reader Nat
  | 0, _ => .error .badVarint
  | _ + 1, [] => .error .unexpectedEnd
  | left + 1, b :: rest =>
    if b.toNat < 128 then
      if left = 0 ∧ lastMax < b.toNat then .error .badVarint else .ok (b.toNat, rest)
    else
      match readVarintBytes lastMax left rest with
      | .ok (m, rest) => .ok (b.toNat - 128 + 128 * m, rest)
      | .error e => .error e

def readVarint (t : VarintType) : Reader Nat := readVarintBytes t.lastMax t.maxBytes

/-! ## Fixed words -/

def writeWord (w : UInt32) : Bytes :=
  [w.toUInt8, (w >>> 8).toUInt8, (w >>> 16).toUInt8, (w >>> 24).toUInt8]

def readWord : Reader UInt32
  | a :: b :: c :: d :: rest =>
    .ok (a.toUInt32 ||| b.toUInt32 <<< 8 ||| c.toUInt32 <<< 16 ||| d.toUInt32 <<< 24, rest)
  | _ => .error .unexpectedEnd

def writeHalfword (w : UInt16) : Bytes := [w.toUInt8, (w >>> 8).toUInt8]

end NetworkAnalyzer.Wire
