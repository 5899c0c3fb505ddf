import Mathlib.Data.List.FinRange
import NetworkAnalyzer.Proofs.Wire.Readers
import NetworkAnalyzer.Readout.Dump

/-!
# Reading a binary dump back

A binary dump carries its own description: the mask says which fields a row has, the row count how
many rows follow. `readStream` knows nothing else. Values come back as words, so that equal means
equal in every bit, whether the word holds a number or not.

A sink fills up somewhere, perhaps inside a field. What it holds is then a beginning of the dump,
and it is as long as the sink. Reading such a beginning fails, because the header promises rows
that are not there; it is never taken for a shorter dump. This is a property of the readers
(`Faithful`): what a reader accepts of a byte string decides how it reads every shorter one.

The number of rows is the point count or the length of the traces, whichever is less. Both are
words of 16 bits, so traces of more than 65535 points are excluded.

* `readStream`, `Contents`: the reader, and what it learns: the mask, and for each row the
  frequency and the words of the channels that the mask selects.
* `readRow_binaryRow`, `readStream_binaryStream`: a row and a dump are read back from their own
  header.
* `putAll_eq`: what fields leave in a sink, wherever it fills up.
* `writeBinary_reads`: a sink that is large enough holds a readable dump, any other one the part
  of it that fits. That part is not taken for a shorter dump.
* `writeBinary_reads_cut_in_row`: a sink that fills up inside a frequency.
-/

namespace NetworkAnalyzer

open Wire MemoryWord

/-! ## A sink of limited room -/

namespace Sink

variable {β : Type}

/-- What fits is written, and the writing succeeds exactly if all of it fits. -/
theorem putAll_eq (fields : List (List β)) (s : Sink β) : s.putAll fields =
    (decide (fields.flatten.length ≤ s.room),
     { room := s.room - fields.flatten.length
       written := s.written ++ fields.flatten.take s.room }) := by
  induction fields generalizing s with
  | nil => simp [putAll]
  | cons field fields ih =>
    rw [List.flatten_cons, List.length_append, List.take_append]
    by_cases hroom : field.length ≤ s.room
    · have hput : s.put field =
          (true, { room := s.room - field.length, written := s.written ++ field }) := by
        rw [put, decide_eq_true hroom, List.take_of_length_le hroom]
      have hrest : fields.flatten.length ≤ s.room - field.length ↔
          field.length + fields.flatten.length ≤ s.room := by omega
      rw [putAll, hput]
      dsimp only
      rw [ih, decide_eq_decide.mpr hrest, Nat.sub_sub, List.append_assoc,
        List.take_of_length_le hroom]
    · have hput : s.put field =
          (false, { room := 0, written := s.written ++ field.take s.room }) := by
        rw [put, decide_eq_false hroom, Nat.sub_eq_zero_of_le (Nat.le_of_not_le hroom)]
      have hfull : s.room - field.length = 0 := by omega
      have hmore : s.room - (field.length + fields.flatten.length) = 0 := by omega
      rw [putAll, hput, decide_eq_false (by omega), hfull, hmore, List.take_zero, List.append_nil]

end Sink

namespace Dump

/-! ## Reading by the header -/

structure Row where
  frequency : Option UInt32
  /-- The words of real and imaginary part, for each channel that is output. -/
  values : List (UInt32 × UInt32)
  deriving DecidableEq, Repr

/-- What a reader learns from a binary dump. -/
structure Contents where
  mask : ScanMask
  rows : List Row
  deriving DecidableEq

def readPair : Reader (UInt32 × UInt32) :=
  chain readWord fun re => chain readWord fun im => give (re, im)

def readFrequency (m : ScanMask) : Reader (Option UInt32) :=
  if m.has .frequency then chain readWord fun f => give (some f) else give none

def readRow (m : ScanMask) : Reader Row :=
  chain (readFrequency m) fun frequency =>
  chain (readTimes readPair m.channels.length) fun values => give { frequency, values }

/-- Reads a whole dump. Its mask decides the layout of the rows. -/
def readStream : Reader Contents :=
  chain readHalfword fun word =>
  let mask : ScanMask := Flags.ofNat word.toNat
  chain readHalfword fun count =>
  chain (readTimes (readRow mask) count.toNat) fun rows => give { mask, rows }

theorem readPair_faithful : Faithful readPair :=
  readWord_faithful.chain fun _ => readWord_faithful.chain fun _ => .give _

theorem readFrequency_faithful (m : ScanMask) : Faithful (readFrequency m) := by
  unfold readFrequency
  split
  · exact readWord_faithful.chain fun _ => .give _
  · exact .give _

theorem readRow_faithful (m : ScanMask) : Faithful (readRow m) :=
  (readFrequency_faithful m).chain fun _ => (readPair_faithful.times _).chain fun _ => .give _

theorem readStream_faithful : Faithful readStream :=
  readHalfword_faithful.chain fun _ => readHalfword_faithful.chain fun _ =>
    ((readRow_faithful _).times _).chain fun _ => .give _

/-! ## What is read back -/

variable {α : Type} [MemoryWord α] {N : Nat} (out : ScanMask) (plan : FrequencyPlan)
  (traces : Traces α N) (points : UInt16)

def binaryStream : Bytes := (binaryFields out plan traces points).flatten

def words (z : Phasor α) : UInt32 × UInt32 := (toWord z.re, toWord z.im)

/-- Row `i` of a dump: what the mask selects of the plan and of the traces. -/
def rowAt (i : Fin N) : Row where
  frequency := if out.has .frequency then some (plan.get i.val.toUInt16) else none
  values := out.channels.map fun c => words ((traces.get c).get i)

def contents : Contents where
  mask := out
  rows := List.ofFn fun i : Fin (min points.toNat N) =>
    rowAt out plan traces (i.castLE (Nat.min_le_right _ _))

theorem toNat_rows (hN : N ≤ 65535) : (rows N points).toNat = min points.toNat N := by
  have hsize : N.toUInt16.toNat = N := UInt16.toNat_ofNat_of_lt' (Nat.lt_succ_of_le hN)
  change (if points ≤ N.toUInt16 then points else N.toUInt16).toNat = _
  split
  · rename_i hle
    rw [UInt16.le_iff_toNat_le, hsize] at hle
    exact (Nat.min_eq_left hle).symm
  · rename_i hlt
    rw [UInt16.le_iff_toNat_le, hsize] at hlt
    rw [hsize, Nat.min_eq_right (Nat.le_of_not_le hlt)]

theorem readPair_words (z : Phasor α) (rest : Bytes) :
    readPair (writeWord (toWord z.re) ++ writeWord (toWord z.im) ++ rest) = .ok (words z, rest) := by
  rw [readPair, List.append_assoc, chain_ok (readWord_writeWord _ _),
    chain_ok (readWord_writeWord _ _)]
  rfl

theorem readFrequency_written (f : UInt32) (rest : Bytes) :
    readFrequency out ((if out.has .frequency then [writeWord f] else []).flatten ++ rest) =
      .ok (if out.has .frequency then some f else none, rest) := by
  unfold readFrequency
  split
  · rw [List.flatten_singleton, chain_ok (readWord_writeWord f rest)]
    rfl
  · rfl

omit [MemoryWord α] in
theorem rowValues_eq (i : Fin N) (hi : i.val < 65536) :
    rowValues out traces i.val.toUInt16 = out.channels.map fun c => (traces.get c).get i := by
  have hindex : i.val.toUInt16.toNat = i := UInt16.toNat_ofNat_of_lt' hi
  have hentry : ∀ c, (traces.get c)[i.val.toUInt16.toNat]? = some ((traces.get c).get i) := by
    intro c
    rw [hindex]
    exact Vector.getElem?_eq_getElem i.isLt
  unfold rowValues
  simp only [hentry]
  exact congrFun (List.filterMap_eq_map ..) _

theorem readRow_binaryRow (i : Fin N) (hi : i.val < 65536) (rest : Bytes) :
    readRow out ((binaryRow out plan traces i.val.toUInt16).flatten ++ rest) =
      .ok (rowAt out plan traces i, rest) := by
  have hpairs := readTimes_flatMap readPair_words
    (out.channels.map fun c => (traces.get c).get i) rest
  rw [List.flatMap_def, List.length_map] at hpairs
  rw [binaryRow, rowValues_eq out traces i hi, List.flatten_append, List.append_assoc, readRow,
    chain_ok (readFrequency_written out _ _), chain_ok hpairs, List.map_map]
  rfl

theorem rowIndices_eq (hN : N ≤ 65535) : rowIndices N points =
    (List.finRange (min points.toNat N)).map fun i => i.val.toUInt16 := by
  rw [rowIndices, toNat_rows points hN, ← List.map_coe_finRange_eq_range, List.map_map]
  rfl

theorem ofNat_mask : Flags.ofNat out.toNat.toUInt16.toNat = out := by
  have hword : out.toNat.toUInt16.toNat = out.toNat := UInt16.toNat_ofNat_of_lt' out.raw.isLt
  rw [hword]
  exact Flags.ext_raw (BitVec.ofNat_toNat ..)

/-- A dump is read back from its own header, whatever follows it. -/
theorem readStream_binaryStream (hN : N ≤ 65535) (rest : Bytes) :
    readStream (binaryStream out plan traces points ++ rest) =
      .ok (contents out plan traces points, rest) := by
  have hrows : readTimes (readRow out) (List.finRange (min points.toNat N)).length
      ((List.finRange (min points.toNat N)).flatMap
        (fun i => (binaryRow out plan traces i.val.toUInt16).flatten) ++ rest) =
      .ok ((List.finRange (min points.toNat N)).map fun i =>
        rowAt out plan traces (i.castLE (Nat.min_le_right _ _)), rest) :=
    readTimes_flatMap (fun i rest => readRow_binaryRow out plan traces
      (i.castLE (Nat.min_le_right _ _)) (Nat.lt_of_lt_of_le i.isLt (by omega)) rest) _ rest
  have hstream : binaryStream out plan traces points =
      writeHalfword out.toNat.toUInt16 ++ (writeHalfword (rows N points) ++
        (List.finRange (min points.toNat N)).flatMap fun i =>
          (binaryRow out plan traces i.val.toUInt16).flatten) := by
    rw [binaryStream, binaryFields, rowIndices_eq points hN, List.flatMap_map, List.flatten_cons,
      List.flatten_cons, List.flatten_eq_flatMap, List.flatMap_assoc]
    simp only [List.flatMap_id]
  have hlength : (rows N points).toNat = (List.finRange (min points.toNat N)).length := by
    rw [toNat_rows points hN, List.length_finRange]
  rw [hstream, readStream, List.append_assoc, chain_ok (readHalfword_writeHalfword _ _)]
  rw [ofNat_mask, List.append_assoc, chain_ok (readHalfword_writeHalfword _ _), hlength,
    chain_ok hrows, ← List.ofFn_eq_map]
  rfl

/-! ## What a sink holds -/

/-- A binary dump is read back from its own header alone: the mask, `min points N` rows, and in
each of them what the mask selects of the frequency and of the measured values, bit for bit and
with nothing left over. A sink holds the part of this dump that fits into it, and writing fails
exactly if that is not all of it. A dump cut short anywhere is not taken for a whole one. -/
theorem writeBinary_reads (hN : N ≤ 65535) :
    Reads readStream (binaryStream out plan traces points) (contents out plan traces points) ∧
    ∀ sink : Sink UInt8,
      let total := (binaryStream out plan traces points).length
      let r := writeBinary sink out plan traces points
      r.2.written = sink.written ++
        (binaryStream out plan traces points).take (min sink.room total) ∧
      (r.1 = false ↔ sink.room < total) := by
  constructor
  · refine readStream_faithful.reads ?_
    simpa using readStream_binaryStream out plan traces points hN []
  · intro sink
    have hput : writeBinary sink out plan traces points = _ := Sink.putAll_eq _ sink
    rw [hput]
    refine ⟨?_, ?_⟩
    · dsimp only
      rw [← List.take_eq_take_min]
      rfl
    · rw [decide_eq_false_iff_not, Nat.not_le]
      rfl

/-- Three points whose words hold no number. -/
def wordTraces : Traces RawSingle 3 :=
  ⟨.replicate 3 ⟨⟨0x7fc00001⟩, ⟨0xffa00000⟩⟩, .replicate 3 ⟨⟨0x7f800001⟩, ⟨0xffffffff⟩⟩⟩

/-- Three rows of frequency and transmission are 40 bytes, and the words of the transmission are
read back. A sink for 29 of them fills up inside the frequency of the last row. -/
theorem writeBinary_reads_cut_in_row :
    let out : ScanMask := Flags.ofNat 0x85
    let plan : FrequencyPlan := ⟨1000, 3000, 3⟩
    let stream := binaryStream out plan wordTraces 3
    let r := writeBinary ⟨29, []⟩ out plan wordTraces 3
    (3 ≤ 65535 ∧ stream.length = 40 ∧ r.1 = false) ∧ r.2.written = stream.take 29 ∧
      ∃ seen, readStream stream = .ok (seen, []) ∧
        seen.rows.map (·.values) = .replicate 3 [(0x7f800001, 0xffffffff)] := by
  obtain ⟨hreads, hsink⟩ :=
    writeBinary_reads (Flags.ofNat 0x85) ⟨1000, 3000, 3⟩ wordTraces 3 (by decide)
  have hwhole := hreads.whole []
  rw [List.append_nil] at hwhole
  exact ⟨⟨by decide, rfl, (hsink ⟨29, []⟩).2.mpr (show 29 < 40 by decide)⟩, (hsink ⟨29, []⟩).1,
    _, hwhole, rfl⟩

end Dump

end NetworkAnalyzer
