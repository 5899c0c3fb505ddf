import NetworkAnalyzer.Decimal.Fixed
import NetworkAnalyzer.FrequencyPlan
import NetworkAnalyzer.Shared
import NetworkAnalyzer.Wire.Varint

/-!
# Dumps

A dump prints frequency and channel data per point, as text lines or as a little-endian binary
stream that carries its own mask and row count.

Both channels are to be copied from one and the same generation. They are copied one after the
other, each under a snapshot of its own, and a copy is whole if every snapshot was given back under
the generation it was taken with and all have the same tag of generation and point count. A torn
copy is taken again, three times at most. What torn attempts wrote into the copy stays there, and
so does everything behind the points of the pass.

The output writes rows up to the point count or to the length of the traces, whichever is less, and
the row count of a binary dump is that number. A sink takes a limited number of items. A field that
does not fit is written as far as it goes, and nothing is written after it.

Text shows six decimal places. A binary dump copies words: it is written over any type with words,
so that values that are no numbers come out as they are in memory.
-/

namespace NetworkAnalyzer

open Parameters

inductive ScanOption where
  | frequency
  | dataS11
  | dataS21
  | noCalibration
  | noDelay
  | noGainOffset
  | binary
  deriving DecidableEq, Repr

instance : BitLayout ScanOption where
  width := 16
  bit
    | .frequency => 0
    | .dataS11 => 1
    | .dataS21 => 2
    | .noCalibration => 3
    | .noDelay => 4
    | .noGainOffset => 5
    | .binary => 7

abbrev ScanMask := Flags ScanOption

def ScanOption.names : NameTable ScanOption :=
  [("out_frequency", .frequency), ("out_data0", .dataS11), ("out_data1", .dataS21),
   ("no_calibration", .noCalibration), ("no_edelay", .noDelay), ("no_s21_offset", .noGainOffset),
   ("binary", .binary)]

namespace ScanMask

def outputs (m : ScanMask) : Channel → Bool
  | .s11 => m.has .dataS11
  | .s21 => m.has .dataS21

def channels (m : ScanMask) : List Channel := Channel.all.filter m.outputs

end ScanMask

/-! ## Consistent copies -/

namespace Traces

variable {α : Type} {N : Nat}

/-- The first points of a channel replaced by `values`. -/
def setFirst (t : Traces α N) (c : Channel) (values : List (Phasor α)) : Traces α N :=
  let column := values.toArray
  t.set c ((t.get c).mapIdx fun i z => column.getD i z)

end Traces

namespace Shared

variable {N : Nat} {ε : Type}

/-- What two snapshots must share to show the same pass. -/
abbrev Tag := UInt32 × UInt16

/-- How an attempt to copy the channels ended. -/
inductive CopyAttempt where
  /-- All copies show one pass; its tag, if there was a channel to copy. -/
  | whole (tag : Option Tag)
  /-- A newer pass came in between. -/
  | torn
  | failed (e : Failure)
  deriving DecidableEq, Repr

/-- Copies channels one after the other, each under its own snapshot. `seen` is the
tag of the channels copied before. -/
def copyChannels (clock : Timebase (Shared N ε)) :
    List Channel → (seen : Option Tag) → Traces Float32 N →
      Run (Shared N ε) (CopyAttempt × Traces Float32 N)
  | [], seen, copy => return (.whole seen, copy)
  | c :: rest, seen, copy => do
    match ← acquire clock c snapshotTimeout with
    | .error e => return (.failed e, copy)
    | .ok snapshot =>
      let tag : Tag := (snapshot.generation, snapshot.points)
      let copy := copy.setFirst c ((← get).buffers.view snapshot)
      let unchanged ← release snapshot
      if !unchanged || seen.any (· != tag) then
        return (.torn, copy)
      copyChannels clock rest (some tag) copy

/-- Copies the channels anew as long as they turn out to be of different passes. With no channel to
copy, the point count alone is read. -/
def copyConsistently (clock : Timebase (Shared N ε)) (out : ScanMask) :
    (attempts : Nat) → Traces Float32 N →
      Run (Shared N ε) (Except Failure UInt16 × Traces Float32 N)
  | 0, copy => return (.error .resourceBusy, copy)
  | attempts + 1, copy => do
    let (attempt, copy) ← copyChannels clock out.channels none copy
    match attempt with
    | .failed e => return (.error e, copy)
    | .torn => copyConsistently clock out attempts copy
    | .whole (some tag) => return (.ok tag.2, copy)
    | .whole none => return (.ok (← get).buffers.points, copy)

/-- Copies the channels that `out` selects from one generation; its point count is
the answer. The copy is filled in even when no attempt succeeds. -/
def dump (clock : Timebase (Shared N ε)) (out : ScanMask) (copy : Traces Float32 N) :
    Run (Shared N ε) (Except Failure UInt16 × Traces Float32 N) :=
  copyConsistently clock out copyAttempts copy

end Shared

/-! ## Output -/

/-- A sink that takes a limited number of items. -/
structure Sink (β : Type) where
  room : Nat
  written : List β := []

namespace Sink

variable {β : Type}

/-- Writes a field; what does not fit is lost and the write fails. -/
def put (s : Sink β) (field : List β) : Bool × Sink β :=
  (decide (field.length ≤ s.room),
   { room := s.room - field.length, written := s.written ++ field.take s.room })

def putAll (s : Sink β) : List (List β) → Bool × Sink β
  | [] => (true, s)
  | field :: rest =>
    match s.put field with
    | (true, s) => s.putAll rest
    | (false, s) => (false, s)

end Sink

namespace Dump

open MemoryWord

variable {α : Type} {N : Nat}

def rows (N : Nat) (points : UInt16) : UInt16 := min points N.toUInt16

/-- The values of row `i` that `out` selects. -/
def rowValues (out : ScanMask) (traces : Traces α N) (i : UInt16) : List (Phasor α) :=
  out.channels.filterMap fun c => (traces.get c)[i.toNat]?

def rowIndices (N : Nat) (points : UInt16) : List UInt16 :=
  (List.range (rows N points).toNat).map Nat.toUInt16

/-- The fields of one binary row: the frequency, and the two words of every value. -/
def binaryRow [MemoryWord α] (out : ScanMask) (plan : FrequencyPlan) (traces : Traces α N)
    (i : UInt16) : List Wire.Bytes :=
  (if out.has .frequency then [Wire.writeWord (plan.get i)] else [])
    ++ (rowValues out traces i).map fun z =>
      Wire.writeWord (toWord z.re) ++ Wire.writeWord (toWord z.im)

/-- The fields of a binary dump: mask, row count, rows. -/
def binaryFields [MemoryWord α] (out : ScanMask) (plan : FrequencyPlan) (traces : Traces α N)
    (points : UInt16) : List Wire.Bytes :=
  Wire.writeHalfword out.toNat.toUInt16 :: Wire.writeHalfword (rows N points)
    :: (rowIndices N points).flatMap (binaryRow out plan traces)

/-- Writes a binary dump; whether the sink took all of it. -/
def writeBinary [MemoryWord α] (sink : Sink UInt8) (out : ScanMask) (plan : FrequencyPlan)
    (traces : Traces α N) (points : UInt16) : Bool × Sink UInt8 :=
  sink.putAll (binaryFields out plan traces points)

def textNumber (cs : List Char) : List Char := cs ++ [' ']

def textLine (out : ScanMask) (plan : FrequencyPlan) (traces : Traces Float32 N) (i : UInt16) :
    List (List Char) :=
  (if out.has .frequency then [textNumber (Decimal.digits (plan.get i).toNat)] else [])
    ++ ((rowValues out traces i).map fun z =>
      textNumber (Decimal.fixed 6 z.re) ++ textNumber (Decimal.fixed 6 z.im))
    ++ [['\r', '\n']]

/-- The fields of a text dump: one line per row. -/
def textFields (out : ScanMask) (plan : FrequencyPlan) (traces : Traces Float32 N)
    (points : UInt16) : List (List Char) :=
  (rowIndices N points).flatMap (textLine out plan traces)

/-- Writes a text dump; whether the sink took all of it. -/
def writeText (sink : Sink Char) (out : ScanMask) (plan : FrequencyPlan)
    (traces : Traces Float32 N) (points : UInt16) : Bool × Sink Char :=
  sink.putAll (textFields out plan traces points)

end Dump

end NetworkAnalyzer
