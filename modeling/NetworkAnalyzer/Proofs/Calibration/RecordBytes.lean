import NetworkAnalyzer.Calibration.Record
import NetworkAnalyzer.Proofs.SinglePrecision
import NetworkAnalyzer.Proofs.Wire.Readers

/-!
# The bytes of a stored calibration

Readers and writers of a record, part by part: phasors, slots, the whole record.

## The words

A record keeps the words of its values. What comes back is the value of the word, so a value
survives if its word determines it (`LawfulWord`). That is so of `RawSingle`, where the word is
the value: no word is changed by being stored, whatever it holds. It is so of `Float32` as well,
since all words without a number are one value there (`SinglePrecision.ofBits_toBits`).

## Reading

The readers are written with `do` and read here as chains (`readPhasor_eq` to `read_eq`), so that
what a reader accepts is known from what its parts accept.

* `readPhasor_faithful`, `readItems_faithful`, `readSlot_faithful`, `read_faithful`: what is read
  as a record decides how every longer and every shorter byte string is read. Longer ones hand the
  surplus back, shorter ones end too early.
* `readPhasor_writePhasor`, `readItems_writePhasor`, `readSlot_writeSlot`: each part of a record is
  read back, a sequence only if there is room for it.
* `read_toBytes`: a written record of which the slots fit is read back, whatever follows.
* `readSlot_writeSlot_inv`, `read_toBytes_inv`: any written record is read as itself or not at
  all, whether its slots fit or not.

The five slots are written and read in the same order, one after the other (`read_toBytes_slots`).
-/

namespace NetworkAnalyzer

open Wire MemoryWord

/-- A value comes back from its word. -/
class LawfulWord (α : Type) [MemoryWord α] : Prop where
  ofWord_toWord (x : α) : ofWord (toWord x) = x

instance : LawfulWord Float32 := ⟨SinglePrecision.ofBits_toBits⟩

instance : LawfulWord RawSingle := ⟨fun _ => rfl⟩

variable {α : Type} [MemoryWord α] {N : Nat}

namespace CalRecord

/-! ## Reading back -/

theorem readPhasor_eq : readPhasor (α := α) =
    chain readWord fun re => chain readWord fun im => give ⟨ofWord re, ofWord im⟩ := rfl

theorem readItems_zero (room : Nat) : readItems (α := α) room 0 = give [] := by
  cases room <;> rfl

theorem readItems_full (count : Nat) : readItems (α := α) 0 (count + 1) =
    chain (readPhasor (α := α)) fun _ _ => .error .tooManyItems := rfl

theorem readItems_succ (room count : Nat) : readItems (α := α) (room + 1) (count + 1) =
    chain readPhasor fun z => chain (readItems room count) fun zs => give (z :: zs) := rfl

theorem readSlot_eq (capacity : Nat) :
    readSlot (α := α) capacity = chain (readVarint varint64) (readItems capacity) := rfl

theorem read_eq (capacity : Nat) : read (α := α) capacity =
    chain (readVarint varint32) fun magic => chain (readVarint varint16) fun status =>
    chain (readVarint varint32) fun start => chain (readVarint varint32) fun stop =>
    chain (readVarint varint16) fun points => chain (readSlot capacity) fun directivity =>
    chain (readSlot capacity) fun sourceMatch => chain (readSlot capacity) fun reflectionTracking =>
    chain (readSlot capacity) fun transmissionTracking => chain (readSlot capacity) fun isolation =>
    give { magic := magic.toUInt32
           status := status.toUInt16
           start := start.toUInt32
           stop := stop.toUInt32
           points := points.toUInt16
           slots := { directivity, sourceMatch, reflectionTracking, transmissionTracking,
                      isolation } } := rfl

theorem readPhasor_faithful : Faithful (readPhasor (α := α)) := by
  rw [readPhasor_eq]
  exact readWord_faithful.chain fun _ => readWord_faithful.chain fun _ => .give _

theorem readItems_faithful (room count : Nat) : Faithful (readItems (α := α) room count) := by
  induction count generalizing room with
  | zero =>
    rw [readItems_zero]
    exact .give _
  | succ count ih =>
    cases room with
    | zero =>
      rw [readItems_full]
      refine readPhasor_faithful.chain fun _ bytes x rest h => ?_
      cases h
    | succ room =>
      rw [readItems_succ]
      exact readPhasor_faithful.chain fun _ => (ih room).chain fun _ => .give _

theorem readSlot_faithful (capacity : Nat) : Faithful (readSlot (α := α) capacity) := by
  rw [readSlot_eq]
  exact (readVarint_faithful _).chain fun _ => readItems_faithful _ _

theorem read_faithful (capacity : Nat) : Faithful (read (α := α) capacity) := by
  have hslot := readSlot_faithful (α := α) capacity
  rw [read_eq]
  exact (readVarint_faithful _).chain fun _ => (readVarint_faithful _).chain fun _ =>
    (readVarint_faithful _).chain fun _ => (readVarint_faithful _).chain fun _ =>
    (readVarint_faithful _).chain fun _ => hslot.chain fun _ => hslot.chain fun _ =>
    hslot.chain fun _ => hslot.chain fun _ => hslot.chain fun _ => .give _

theorem readVarint_word (w : UInt32) (rest : Bytes) :
    readVarint varint32 (writeVarint w.toNat ++ rest) = .ok (w.toNat, rest) := by
  rw [readVarint_writeVarint (by decide) (by decide), limit_varint32, if_pos w.toNat_lt]

theorem readVarint_halfword (w : UInt16) (rest : Bytes) :
    readVarint varint16 (writeVarint w.toNat ++ rest) = .ok (w.toNat, rest) := by
  rw [readVarint_writeVarint (by decide) (by decide), limit_varint16, if_pos w.toNat_lt]

theorem read_toBytes_slots (r : CalRecord α) (rest : Bytes) : read N (r.toBytes ++ rest) =
    (chain (readSlot (α := α) N) fun directivity => chain (readSlot N) fun sourceMatch =>
      chain (readSlot N) fun reflectionTracking => chain (readSlot N) fun transmissionTracking =>
      chain (readSlot N) fun isolation =>
      give { r with slots := { directivity, sourceMatch, reflectionTracking, transmissionTracking,
                               isolation } })
      (writeSlot (r.slots.get .directivity) ++ (writeSlot (r.slots.get .sourceMatch) ++
        (writeSlot (r.slots.get .reflectionTracking) ++
        (writeSlot (r.slots.get .transmissionTracking) ++
        (writeSlot (r.slots.get .isolation) ++ rest))))) := by
  have hslots : r.slots.toList.flatMap writeSlot = writeSlot (r.slots.get .directivity) ++
      (writeSlot (r.slots.get .sourceMatch) ++ (writeSlot (r.slots.get .reflectionTracking) ++
      (writeSlot (r.slots.get .transmissionTracking) ++ writeSlot (r.slots.get .isolation)))) := by
    simp [Slots.toList, Term.all, Slots.get]
  rw [read_eq, toBytes, hslots]
  simp only [List.append_assoc]
  rw [chain_ok (readVarint_word _ _), chain_ok (readVarint_halfword _ _),
    chain_ok (readVarint_word _ _), chain_ok (readVarint_word _ _),
    chain_ok (readVarint_halfword _ _)]
  simp only [Nat.toUInt32_eq, Nat.toUInt16_eq, UInt32.ofNat_toNat, UInt16.ofNat_toNat]

variable [LawfulWord α]

theorem readPhasor_writePhasor (z : Phasor α) (rest : Bytes) :
    readPhasor (writePhasor z ++ rest) = .ok (z, rest) := by
  rw [readPhasor_eq, writePhasor, List.append_assoc, chain_ok (readWord_writeWord _ _),
    chain_ok (readWord_writeWord _ _), LawfulWord.ofWord_toWord, LawfulWord.ofWord_toWord]
  rfl

theorem readItems_writePhasor (zs : List (Phasor α)) : ∀ (room : Nat) (rest : Bytes),
    readItems room zs.length (zs.flatMap writePhasor ++ rest) =
      if zs.length ≤ room then .ok (zs, rest) else .error .tooManyItems := by
  induction zs with
  | nil =>
    intro room rest
    rw [List.length_nil, readItems_zero, if_pos (Nat.zero_le _)]
    rfl
  | cons z zs ih =>
    intro room rest
    rw [List.flatMap_cons, List.append_assoc, List.length_cons]
    cases room with
    | zero =>
      rw [readItems_full, chain_ok (readPhasor_writePhasor z _), if_neg (by omega)]
    | succ room =>
      rw [readItems_succ, chain_ok (readPhasor_writePhasor z _)]
      by_cases hroom : zs.length ≤ room
      · rw [chain_ok ((ih room rest).trans (if_pos hroom)), if_pos (by omega)]
        rfl
      · rw [chain_error ((ih room rest).trans (if_neg hroom)), if_neg (by omega)]

theorem readSlot_writeSlot {zs : List (Phasor α)} (hroom : zs.length ≤ N)
    (hlen : zs.length < 2 ^ 64) (rest : Bytes) :
    readSlot N (writeSlot zs ++ rest) = .ok (zs, rest) := by
  have hcount := readVarint_writeVarint (t := varint64) (by decide) (by decide) zs.length
    (zs.flatMap writePhasor ++ rest)
  rw [limit_varint64, if_pos hlen] at hcount
  rw [readSlot_eq, writeSlot, List.append_assoc, chain_ok hcount, readItems_writePhasor,
    if_pos hroom]

/-- A written slot is read as itself or not at all. -/
theorem readSlot_writeSlot_inv {zs ws : List (Phasor α)} {rest rest' : Bytes}
    (h : readSlot N (writeSlot zs ++ rest) = .ok (ws, rest')) : ws = zs ∧ rest' = rest := by
  have hcount := readVarint_writeVarint (t := varint64) (by decide) (by decide) zs.length
    (zs.flatMap writePhasor ++ rest)
  rw [readSlot_eq, writeSlot, List.append_assoc] at h
  split at hcount
  · rw [chain_ok hcount, readItems_writePhasor] at h
    split at h
    · cases h
      exact ⟨rfl, rfl⟩
    · cases h
  · rw [chain_error hcount] at h
    cases h

/-- A record of which the slots fit is read back, whatever follows it. -/
theorem read_toBytes {r : CalRecord α}
    (hfit : ∀ s, (r.slots.get s).length ≤ N ∧ (r.slots.get s).length < 2 ^ 64) (rest : Bytes) :
    read N (r.toBytes ++ rest) = .ok (r, rest) := by
  have hread := fun s => readSlot_writeSlot (hfit s).1 (hfit s).2
  rw [read_toBytes_slots, chain_ok (hread .directivity _), chain_ok (hread .sourceMatch _),
    chain_ok (hread .reflectionTracking _), chain_ok (hread .transmissionTracking _),
    chain_ok (hread .isolation _)]
  rfl

theorem read_toBytes_inv {r r' : CalRecord α} {rest rest' : Bytes}
    (h : read N (r.toBytes ++ rest) = .ok (r', rest')) : r' = r := by
  rw [read_toBytes_slots] at h
  obtain ⟨directivity, mid₁, hread₁, h₁⟩ := chain_inv h
  obtain ⟨rfl, rfl⟩ := readSlot_writeSlot_inv hread₁
  obtain ⟨sourceMatch, mid₂, hread₂, h₂⟩ := chain_inv h₁
  obtain ⟨rfl, rfl⟩ := readSlot_writeSlot_inv hread₂
  obtain ⟨reflectionTracking, mid₃, hread₃, h₃⟩ := chain_inv h₂
  obtain ⟨rfl, rfl⟩ := readSlot_writeSlot_inv hread₃
  obtain ⟨transmissionTracking, mid₄, hread₄, h₄⟩ := chain_inv h₃
  obtain ⟨rfl, rfl⟩ := readSlot_writeSlot_inv hread₄
  obtain ⟨isolation, mid₅, hread₅, h₅⟩ := chain_inv h₄
  obtain ⟨rfl, -⟩ := readSlot_writeSlot_inv hread₅
  cases h₅
  rfl

end CalRecord

end NetworkAnalyzer
