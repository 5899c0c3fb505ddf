import NetworkAnalyzer.Calibration.Basic
import NetworkAnalyzer.Wire.Hex
import NetworkAnalyzer.Wire.Varint

/-!
# Stored calibrations

A stored calibration is a string of bytes: a magic word that versions the
layout, the status word, the plan, and the five slots as sequences of values. A
record with another magic word or with slots that do not fit its plan is
rejected before anything of the running calibration is touched; a rejected
record leaves the calibration reset.

```
magic    status   start    stop     points   directivity … isolation
varint32 varint16 varint32 varint32 varint16 five times: varint64, then the values
```

A value is two 32-bit words, real part first, low byte first. Words are copied
as they are: a word that holds no number is stored and restored like any other.
Bytes behind the record are ignored, so a record can be read from the front of
a storage page.

A sequence is read item by item into tables of limited room. An item that does
not fit is read before the sequence is refused, so bytes that end inside it are
reported as too short and not as too long.

`CalRecord.encode` is the only operation that needs a buffer. It either returns
all bytes or refuses; there are no partial records.
-/

namespace NetworkAnalyzer

open Wire

/-- The magic word of the present layout. -/
def calibrationMagic : UInt32 := 0x434f4e56

/-- A calibration as it is stored. -/
structure CalRecord (α : Type) where
  magic : UInt32
  status : UInt16
  start : UInt32
  stop : UInt32
  points : UInt16
  slots : Slots (List (Phasor α))
  deriving DecidableEq

/-- Why a record was not stored or not adopted. -/
inductive RecordError where
  /-- The buffer is shorter than the record. -/
  | bufferFull
  | unreadable (e : ReadError)
  | magic (found : UInt32)
  | layout (points : UInt16)
  deriving DecidableEq, Repr

def RecordError.name : RecordError → String
  | .bufferFull => "Encode(SerializeBufferFull)"
  | .unreadable e => "Decode(" ++ e.name ++ ")"
  | .magic m => "Magic(" ++ toString m.toNat ++ ")"
  | .layout p => "Layout(" ++ toString p.toNat ++ ")"

def RecordError.message : RecordError → String
  | .bufferFull => "Encoding failed: The serialize buffer is full"
  | .unreadable e => "Decoding failed: " ++ e.message
  | .magic m => "Unexpected magic 0x" ++ Hex.ofWord 8 m.toNat
  | .layout p => "Term layout does not match " ++ toString p.toNat ++ " points"

namespace CalRecord

open MemoryWord

variable {α : Type}

/-- Accepts a record of the present layout that fits `capacity` points. -/
def validate (r : CalRecord α) (capacity : Nat) : Except RecordError Unit :=
  if r.magic ≠ calibrationMagic then .error (.magic r.magic)
  else if capacity < r.points.toNat || r.slots.toList.any (·.length ≠ r.points.toNat) then
    .error (.layout r.points)
  else .ok ()

/-! ## Bytes -/

variable [MemoryWord α]

def writePhasor (z : Phasor α) : Bytes := writeWord (toWord z.re) ++ writeWord (toWord z.im)

def writeSlot (zs : List (Phasor α)) : Bytes :=
  writeVarint zs.length ++ zs.flatMap writePhasor

def toBytes (r : CalRecord α) : Bytes :=
  writeVarint r.magic.toNat ++ writeVarint r.status.toNat ++ writeVarint r.start.toNat
    ++ writeVarint r.stop.toNat ++ writeVarint r.points.toNat
    ++ r.slots.toList.flatMap writeSlot

/-- The bytes of a record, if they fit a buffer of `capacity` bytes. -/
def encode (r : CalRecord α) (capacity : Nat) : Except RecordError Bytes :=
  if r.toBytes.length ≤ capacity then .ok r.toBytes else .error .bufferFull

def readPhasor : Reader (Phasor α) := fun bytes => do
  let (re, bytes) ← readWord bytes
  let (im, bytes) ← readWord bytes
  return (⟨ofWord re, ofWord im⟩, bytes)

/-- `count` items, of which at most `room` may be kept. -/
def readItems : (room count : Nat) → Reader (List (Phasor α))
  | _, 0 => fun bytes => .ok ([], bytes)
  | room, count + 1 => fun bytes => do
    let (z, bytes) ← readPhasor bytes
    match room with
    | 0 => .error .tooManyItems
    | room + 1 =>
      let (zs, bytes) ← readItems room count bytes
      return (z :: zs, bytes)

/-- A sequence of at most `capacity` items. -/
def readSlot (capacity : Nat) : Reader (List (Phasor α)) := fun bytes => do
  let (count, bytes) ← readVarint varint64 bytes
  readItems capacity count bytes

/-- A record with slots of at most `capacity` points. -/
def read (capacity : Nat) : Reader (CalRecord α) := fun bytes => do
  let (magic, bytes) ← readVarint varint32 bytes
  let (status, bytes) ← readVarint varint16 bytes
  let (start, bytes) ← readVarint varint32 bytes
  let (stop, bytes) ← readVarint varint32 bytes
  let (points, bytes) ← readVarint varint16 bytes
  let (directivity, bytes) ← readSlot capacity bytes
  let (sourceMatch, bytes) ← readSlot capacity bytes
  let (reflectionTracking, bytes) ← readSlot capacity bytes
  let (transmissionTracking, bytes) ← readSlot capacity bytes
  let (isolation, bytes) ← readSlot capacity bytes
  return ({ magic := magic.toUInt32
            status := status.toUInt16
            start := start.toUInt32
            stop := stop.toUInt32
            points := points.toUInt16
            slots := { directivity, sourceMatch, reflectionTracking, transmissionTracking,
                       isolation } }, bytes)

/-- The record at the front of the bytes; bytes after it are ignored. -/
def decode (capacity : Nat) (bytes : Bytes) : Except RecordError (CalRecord α) :=
  match read capacity bytes with
  | .ok (r, _) => .ok r
  | .error e => .error (.unreadable e)

end CalRecord

namespace Calibration

variable {α : Type} {N : Nat}

def toRecord (c : Calibration α N) : CalRecord α :=
  { magic := calibrationMagic
    status := c.status.toNat.toUInt16
    start := c.plan.start
    stop := c.plan.stop
    points := c.points.toUInt16
    slots := .build c.slot }

/-- The table with the values of a record at its points. -/
def overwrite (table : Vector (Terms α) N) (slots : Slots (List (Phasor α))) :
    Vector (Terms α) N :=
  let columns := Slots.build fun s => (slots.get s).toArray
  table.mapIdx fun i t => .build fun s => (columns.get s).getD i (t.get s)

/-- Adopts a stored record from a slot, or resets the calibration and says why. -/
def load (c : Calibration α N) (r : CalRecord α) (slot : UInt16) :
    Except RecordError Unit × Calibration α N :=
  match r.validate N with
  | .error e => (.error e, c.reset)
  | .ok () =>
    (.ok (), { status := .ofNat r.status.toNat
               plan := ⟨r.start, r.stop, r.points⟩
               table := overwrite c.table r.slots
               saveSlot := slot })

/-- Takes over a stored calibration. Bytes that are no record, and a record that does not fit, leave
the calibration reset. -/
def restore [MemoryWord α] (c : Calibration α N) (bytes : Bytes) (slot : UInt16) :
    Except RecordError Unit × Calibration α N :=
  match CalRecord.decode N bytes with
  | .error e => (.error e, c.reset)
  | .ok r => c.load r slot

end Calibration

end NetworkAnalyzer
