import NetworkAnalyzer.Calibration.Solution
import NetworkAnalyzer.Proofs.Calibration.Measuring
import NetworkAnalyzer.Proofs.Calibration.RecordBytes

/-!
# Storing and restoring a calibration

A calibration is stored as a record and read back into any other one. `Valid N r` is what
tables of `N` points ask of a record; a record is adopted if it is valid and refused otherwise.

Validation comes before adoption. A record is first read as a whole, then checked, and only then are
its columns written over the tables. Whatever goes wrong before, plan, tables and slot number are
still those of the running calibration; the status is cleared, so that it corrects nothing any more.

Values are compared as words. A calibration is generic in what it holds, and a record keeps words,
so "bit by bit" is stated for values that their words determine (`LawfulWord`): single-precision
numbers, and `RawSingle`, whose values are the words, those without a number included.

* `restore_cases`: whatever the bytes are, they are rejected, or the record they begin with is
  adopted (`Rejects`, `Adopts`).
* `restore_stored`: a calibration survives being stored, wherever its bytes are restored and
  whatever follows them.
* `restore_stored_wordsThree`: three points of words that hold no number.
* `restore_cut`: missing bytes are always noticed, whatever the record is.
* `restore_invalid`, `CalRecord.not_valid`: a record with another magic word, with slots that do not
  fit its plan, or with more points than the tables have.
* `restore_guards`: all of it. Bytes that are no valid record leave everything but the status as it
  was.
-/

namespace NetworkAnalyzer

open Wire

variable {α : Type} {N : Nat}

namespace CalRecord

/-! ## Validation -/

/-- A record that tables of `N` points adopt. -/
structure Valid (N : Nat) (r : CalRecord α) : Prop where
  magic : r.magic = calibrationMagic
  fits : r.points.toNat ≤ N
  lengths : ∀ s, (r.slots.get s).length = r.points.toNat

theorem Valid.read_toBytes [MemoryWord α] [LawfulWord α] {r : CalRecord α} (hr : r.Valid N)
    (rest : Bytes) : read N (r.toBytes ++ rest) = .ok (r, rest) := by
  refine CalRecord.read_toBytes (fun s => ?_) rest
  have hpoints := r.points.toNat_lt
  have hfits := hr.fits
  rw [hr.lengths s]
  omega

theorem any_slot (slots : Slots (List (Phasor α))) (p : List (Phasor α) → Bool) :
    slots.toList.any p = true ↔ ∃ s, p (slots.get s) = true := by
  unfold Slots.toList
  rw [List.any_map, List.any_eq_true]
  constructor
  · rintro ⟨s, -, hs⟩
    exact ⟨s, hs⟩
  · rintro ⟨s, hs⟩
    exact ⟨s, by cases s <;> decide, hs⟩

theorem validate_valid {r : CalRecord α} (hr : r.Valid N) : r.validate N = .ok () := by
  have hlist : ¬ (r.slots.toList.any (·.length ≠ r.points.toNat) = true) := by
    rw [any_slot]
    rintro ⟨s, hs⟩
    exact absurd (hr.lengths s) (of_decide_eq_true hs)
  unfold validate
  rw [if_neg (not_not.mpr hr.magic), if_neg]
  rw [Bool.or_eq_true]
  rintro (hfit | hlen)
  · exact absurd hr.fits (Nat.not_le.mpr (of_decide_eq_true hfit))
  · exact hlist hlen

theorem valid_of_validate {r : CalRecord α} (h : r.validate N = .ok ()) : r.Valid N := by
  unfold validate at h
  split at h
  · cases h
  · rename_i hmagic
    split at h
    · cases h
    · rename_i hlayout
      rw [Bool.or_eq_true, not_or, any_slot] at hlayout
      refine ⟨not_not.mp hmagic, ?_, fun s => ?_⟩
      · exact Nat.not_lt.mp fun hlt => hlayout.1 (decide_eq_true hlt)
      · by_contra hne
        exact hlayout.2 ⟨s, decide_eq_true hne⟩

end CalRecord

namespace Calibration

/-! ## Adopting -/

/-- A valid record replaces status and plan, and the values at its points. -/
theorem load_valid (d : Calibration α N) {r : CalRecord α} (hr : r.Valid N) (slot : UInt16) :
    d.load r slot = (.ok (), { status := .ofNat r.status.toNat
                               plan := ⟨r.start, r.stop, r.points⟩
                               table := overwrite d.table r.slots
                               saveSlot := slot }) := by
  unfold load
  rw [CalRecord.validate_valid hr]

/-- Any other record resets the calibration and touches nothing else. -/
theorem load_invalid (d : Calibration α N) {r : CalRecord α} (hr : ¬ r.Valid N)
    (slot : UInt16) : ∃ e, d.load r slot = (.error e, d.reset) := by
  unfold load
  cases h : r.validate N with
  | error e => exact ⟨e, rfl⟩
  | ok u => exact absurd (CalRecord.valid_of_validate h) hr

theorem restore_ok [MemoryWord α] (d : Calibration α N) {bytes rest : Bytes} {r : CalRecord α}
    (h : CalRecord.read N bytes = .ok (r, rest)) (slot : UInt16) :
    d.restore bytes slot = d.load r slot := by
  unfold restore CalRecord.decode
  rw [h]

theorem restore_error [MemoryWord α] (d : Calibration α N) {bytes : Bytes} {e : ReadError}
    (h : CalRecord.read (α := α) N bytes = .error e) (slot : UInt16) :
    d.restore bytes slot = (.error (.unreadable e), d.reset) := by
  unfold restore CalRecord.decode
  rw [h]

/-- What a table holds once the columns of a record were written over it. -/
theorem get_overwrite (d : Calibration α N) {r : CalRecord α} (hr : r.Valid N) (s : Term)
    (i : Nat) : (overwrite d.table r.slots)[i]?.map (·.get s) =
      if i < r.points.toNat then (r.slots.get s)[i]? else d.valueAt s i := by
  have hlen := hr.lengths s
  unfold overwrite valueAt
  rw [Vector.getElem?_mapIdx, Option.map_map]
  by_cases hN : i < N
  · rw [Vector.getElem?_eq_getElem hN]
    simp only [Option.map_some, Function.comp_apply, Slots.get_build, Array.getD_eq_getD_getElem?,
      List.getElem?_toArray]
    split
    · rw [List.getElem?_eq_getElem (by omega)]
      rfl
    · rw [List.getElem?_eq_none (by omega)]
      rfl
  · have hfits := hr.fits
    rw [Vector.getElem?_eq_none (by omega), if_neg (by omega)]
    rfl

/-! ## Storing -/

theorem length_slot (c : Calibration α N) (s : Term) : (c.slot s).length = c.points := by
  unfold slot
  rw [List.length_map, List.length_take, Vector.length_toList, Nat.min_eq_left c.points_le]

theorem getElem?_slot (c : Calibration α N) (s : Term) {i : Nat} (hi : i < c.points) :
    (c.slot s)[i]? = c.valueAt s i := by
  unfold slot valueAt
  rw [List.getElem?_map, List.getElem?_take_of_lt hi, Vector.getElem?_toList]

theorem toRecord_points {c : Calibration α N} (h : c.plan.points.toNat ≤ N) :
    c.toRecord.points = c.plan.points := by
  change c.points.toUInt16 = _
  rw [points_eq h, Nat.toUInt16_eq, UInt16.ofNat_toNat]

theorem toRecord_valid {c : Calibration α N} (h : c.plan.points.toNat ≤ N) :
    c.toRecord.Valid N := by
  refine ⟨rfl, by rwa [toRecord_points h], fun s => ?_⟩
  rw [toRecord_points h, ← points_eq h]
  change ((Slots.build c.slot).get s).length = _
  rw [Slots.get_build, length_slot]

theorem status_toRecord (c : Calibration α N) :
    (Flags.ofNat c.toRecord.status.toNat : CalStatus) = c.status := by
  apply Flags.ext_raw
  change BitVec.ofNat 16 (c.status.raw.toNat.toUInt16.toNat) = c.status.raw
  have hsize : c.status.raw.toNat < 2 ^ 16 := c.status.raw.isLt
  rw [Nat.toUInt16_eq, UInt16.toNat_ofNat', Nat.mod_eq_of_lt hsize, BitVec.ofNat_toNat]
  exact BitVec.setWidth_eq _

theorem load_toRecord {c : Calibration α N} (h : c.plan.points.toNat ≤ N)
    (d : Calibration α N) (slot : UInt16) :
    d.load c.toRecord slot =
      (.ok (), { status := c.status
                 plan := c.plan
                 table := overwrite d.table c.toRecord.slots
                 saveSlot := slot }) := by
  rw [load_valid d (toRecord_valid h), status_toRecord, toRecord_points h]
  rfl

/-- The columns of a record are the slots it was made of. -/
theorem get_overwrite_toRecord {c : Calibration α N} (h : c.plan.points.toNat ≤ N)
    (d : Calibration α N) (s : Term) {i : Nat} (hi : i < c.plan.points.toNat) :
    (overwrite d.table c.toRecord.slots)[i]?.map (·.get s) = c.valueAt s i := by
  have hcolumn : c.toRecord.slots.get s = c.slot s := Slots.get_build _ _
  rw [get_overwrite d (toRecord_valid h), toRecord_points h, if_pos hi, hcolumn,
    getElem?_slot c s (by rwa [points_eq h])]

/-- Restoring what was stored, with anything behind it. -/
theorem restore_toBytes [MemoryWord α] [LawfulWord α] {c : Calibration α N}
    (h : c.plan.points.toNat ≤ N) (d : Calibration α N) (slot : UInt16) (tail : Bytes) :
    d.restore (c.toRecord.toBytes ++ tail) slot = d.load c.toRecord slot :=
  restore_ok d ((toRecord_valid h).read_toBytes tail) slot

theorem termsAt_congr {c d : Calibration α N} {i : Nat}
    (h : ∀ s, c.valueAt s i = d.valueAt s i) : c.termsAt i = d.termsAt i := by
  unfold termsAt entryAt
  split
  · rename_i hN
    have hentry : ∀ s, (c.table[i]).get s = (d.table[i]).get s := by
      intro s
      have hs := h s
      unfold valueAt at hs
      rw [Vector.getElem?_eq_getElem hN, Vector.getElem?_eq_getElem hN] at hs
      exact Option.some.inj hs
    exact congrArg _ (Slots.ext_get hentry)
  · rfl

/-- A calibration survives being stored: every buffer that is long enough takes the same bytes,
a shorter one is refused, and whatever calibration the bytes are restored into, from
whichever slot and with anything behind them, then has the status, the plan and the
values at the points of the plan. Values are kept as words: over `RawSingle` every bit of them
comes back, also where they hold no number. -/
theorem restore_stored [MemoryWord α] [LawfulWord α] (c : Calibration α N)
    (h : c.plan.points.toNat ≤ N) :
    ∃ bytes : Bytes,
      (∀ capacity, c.toRecord.encode capacity =
        if bytes.length ≤ capacity then .ok bytes else .error .bufferFull) ∧
      ∀ (d : Calibration α N) (slot : UInt16) (tail : Bytes), ∃ d',
        d.restore (bytes ++ tail) slot = (.ok (), d') ∧
        d'.status.raw = c.status.raw ∧
        d'.plan = c.plan ∧ d'.plan.get = c.plan.get ∧
        d'.saveSlot = slot ∧
        ∀ i < c.plan.points.toNat, ∃ t, c.termsAt i = .ok t ∧ d'.termsAt i = .ok t := by
  refine ⟨c.toRecord.toBytes, fun capacity => rfl, fun d slot tail =>
    ⟨_, (restore_toBytes h d slot tail).trans (load_toRecord h d slot), rfl, rfl, rfl, rfl,
      fun i hi => ?_⟩⟩
  have hterms : c.termsAt i = .ok c.table[i] := dif_pos (Nat.lt_of_lt_of_le hi h)
  exact ⟨_, hterms, hterms ▸ termsAt_congr fun s => get_overwrite_toRecord h d s hi⟩

/-- Three points whose terms hold no number, each in a word of its own. -/
def wordsThree : Calibration RawSingle 3 where
  status := Flags.none.put .apply true
  plan := ⟨1000000, 3000000, 3⟩
  table := .replicate 3 ⟨⟨⟨0x7fc00000⟩, ⟨0x7fc00001⟩⟩, ⟨⟨0x7f800001⟩, ⟨0xff800001⟩⟩,
    ⟨⟨0xffc00000⟩, ⟨0xffffffff⟩⟩, ⟨⟨0x7fffffff⟩, ⟨0xffa00000⟩⟩, ⟨⟨0x7fa00000⟩, ⟨0xff812345⟩⟩⟩
  saveSlot := 2

theorem restore_stored_wordsThree : wordsThree.plan.points.toNat ≤ 3 ∧
    ∃ (bytes : Bytes) (d' : Calibration RawSingle 3),
      wordsThree.toRecord.encode bytes.length = .ok bytes ∧
      empty.restore (bytes ++ [0]) 7 = (.ok (), d') ∧ d'.plan = ⟨1000000, 3000000, 3⟩ ∧
      d'.saveSlot = 7 ∧ d'.status.has .apply = true ∧
      d'.termsAt 2 = .ok ⟨⟨⟨0x7fc00000⟩, ⟨0x7fc00001⟩⟩, ⟨⟨0x7f800001⟩, ⟨0xff800001⟩⟩,
        ⟨⟨0xffc00000⟩, ⟨0xffffffff⟩⟩, ⟨⟨0x7fffffff⟩, ⟨0xffa00000⟩⟩,
        ⟨⟨0x7fa00000⟩, ⟨0xff812345⟩⟩⟩ := by
  refine ⟨by decide, ?_⟩
  obtain ⟨bytes, hencode, hrestore⟩ := restore_stored wordsThree (by decide)
  obtain ⟨d', hok, hstatus, hplan, -, hslot, hterms⟩ := hrestore empty 7 [0]
  obtain ⟨t, ht, ht'⟩ := hterms 2 (by decide)
  have happly : d'.status.has .apply = wordsThree.status.has .apply :=
    congrArg (fun s : CalStatus => s.has .apply) (Flags.ext_raw hstatus)
  exact ⟨bytes, d', (hencode _).trans (if_pos (Nat.le_refl _)), hok, hplan, hslot,
    happly.trans (by decide), ht'.trans (ht.symm.trans rfl)⟩

/-! ## Rejecting -/

/-- A refused record: nothing but the status changes, and that is empty. -/
def Rejects (d : Calibration α N)
    (result : Except RecordError Unit × Calibration α N) (e : RecordError) : Prop :=
  result.1 = .error e ∧ result.2.status.raw = 0 ∧ result.2.plan = d.plan ∧
    result.2.table = d.table ∧ result.2.saveSlot = d.saveSlot

theorem rejects_reset (d : Calibration α N) (e : RecordError) :
    d.Rejects (.error e, d.reset) e := ⟨rfl, rfl, rfl, rfl, rfl⟩

/-- An adopted record: its plan fits, its values stand at the points of that plan, and the
values at all other points are what they were. -/
structure Adopts (d : Calibration α N) (r : CalRecord α) (slot : UInt16)
    (d' : Calibration α N) : Prop where
  valid : r.Valid N
  status : d'.status = .ofNat r.status.toNat
  plan : d'.plan = ⟨r.start, r.stop, r.points⟩
  fits : d'.plan.points.toNat ≤ N
  saveSlot : d'.saveSlot = slot
  inside : ∀ i < d'.plan.points.toNat, ∀ s, d'.valueAt s i = (r.slots.get s)[i]?
  outside : ∀ i, d'.plan.points.toNat ≤ i → ∀ s, d'.valueAt s i = d.valueAt s i

theorem load_adopts (d : Calibration α N) {r : CalRecord α} (hr : r.Valid N) (slot : UInt16) :
    ∃ d', d.load r slot = (.ok (), d') ∧ d.Adopts r slot d' := by
  refine ⟨_, load_valid d hr slot, hr, rfl, rfl, hr.fits, rfl, fun i hi s => ?_, fun i hi s => ?_⟩
  · exact (get_overwrite d hr s i).trans (if_pos hi)
  · exact (get_overwrite d hr s i).trans (if_neg (Nat.not_lt.mpr hi))

theorem restore_cases [MemoryWord α] (d : Calibration α N) (bytes : Bytes) (slot : UInt16) :
    (∃ e, d.Rejects (d.restore bytes slot) e) ∨
      ∃ r rest d', CalRecord.read N bytes = .ok (r, rest) ∧
        d.restore bytes slot = (.ok (), d') ∧ d.Adopts r slot d' := by
  cases hread : CalRecord.read (α := α) N bytes with
  | error e =>
    rw [restore_error d hread]
    exact Or.inl ⟨_, rejects_reset d _⟩
  | ok p =>
    obtain ⟨r, rest⟩ := p
    rw [restore_ok d hread]
    by_cases hr : r.Valid N
    · obtain ⟨d', hload, hadopts⟩ := load_adopts d hr slot
      exact Or.inr ⟨r, rest, d', rfl, hload, hadopts⟩
    · obtain ⟨e, hload⟩ := load_invalid d hr slot
      rw [hload]
      exact Or.inl ⟨e, rejects_reset d e⟩

theorem restore_cut [MemoryWord α] (d : Calibration α N) {whole : Bytes} {r : CalRecord α}
    (h : CalRecord.read N whole = .ok (r, [])) {part : Bytes} (hpart : part <+: whole)
    (hne : part ≠ whole) (slot : UInt16) :
    d.Rejects (d.restore part slot) (.unreadable .unexpectedEnd) := by
  rw [restore_error d (((CalRecord.read_faithful N).reads h).cut part hpart hne)]
  exact rejects_reset d _

theorem restore_invalid [MemoryWord α] (d : Calibration α N) {r : CalRecord α} (hr : ¬ r.Valid N)
    {bytes : Bytes} (h : ∀ r' rest, CalRecord.read N bytes = .ok (r', rest) → r' = r)
    (slot : UInt16) : ∃ e, d.Rejects (d.restore bytes slot) e := by
  rcases restore_cases d bytes slot with hrejects | ⟨r', rest, d', hread, -, hadopts⟩
  · exact hrejects
  · exact absurd (h r' rest hread ▸ hadopts.valid) hr

end Calibration

theorem CalRecord.not_valid {r : CalRecord α} (h : r.magic ≠ calibrationMagic ∨
    N < r.points.toNat ∨ ∃ s, (r.slots.get s).length ≠ r.points.toNat) : ¬ r.Valid N := by
  intro hr
  rcases h with hmagic | hfits | ⟨s, hs⟩
  · exact hmagic hr.magic
  · exact absurd hr.fits (Nat.not_le.mpr hfits)
  · exact hs (hr.lengths s)

namespace Calibration

/-- No bytes damage a calibration.

* Whatever they are, they are rejected, and then the status is empty and plan, values and slot
  are as before; or the record they begin with is adopted.
* Bytes that are one valid record, in particular those of a stored one, are rejected as too short
  whenever some of them are missing at the end.
* A record of another layout, for more points than there are, or with a slot that does not
  match its plan is adopted in no way: not as it stands, not from its own bytes, whatever
  follows them, and not from other bytes that are read as it. -/
theorem restore_guards [MemoryWord α] [LawfulWord α] (d : Calibration α N) (slot : UInt16) :
    (∀ bytes, (∃ e, d.Rejects (d.restore bytes slot) e) ∨
      ∃ r rest d', CalRecord.read N bytes = .ok (r, rest) ∧
        d.restore bytes slot = (.ok (), d') ∧ d.Adopts r slot d') ∧
    (∀ r : CalRecord α, r.Valid N →
      (∀ part, part <+: r.toBytes → part ≠ r.toBytes →
        d.Rejects (d.restore part slot) (.unreadable .unexpectedEnd)) ∧
      ∀ bytes part, CalRecord.read N bytes = .ok (r, []) → part <+: bytes → part ≠ bytes →
        d.Rejects (d.restore part slot) (.unreadable .unexpectedEnd)) ∧
    ∀ r : CalRecord α, (r.magic ≠ calibrationMagic ∨ N < r.points.toNat ∨
        ∃ s, (r.slots.get s).length ≠ r.points.toNat) →
      (∃ e, d.Rejects (d.load r slot) e) ∧
      (∀ tail, ∃ e, d.Rejects (d.restore (r.toBytes ++ tail) slot) e) ∧
      ∀ bytes rest, CalRecord.read N bytes = .ok (r, rest) →
        ∃ e, d.Rejects (d.restore bytes slot) e := by
  refine ⟨fun bytes => restore_cases d bytes slot, fun r hr => ⟨fun part hpart hne => ?_,
    fun bytes part hread hpart hne => restore_cut d hread hpart hne slot⟩,
    fun r hbad => ⟨?_, fun tail => ?_, fun bytes rest hread => ?_⟩⟩
  · have hread := hr.read_toBytes []
    rw [List.append_nil] at hread
    exact restore_cut d hread hpart hne slot
  · obtain ⟨e, hload⟩ := load_invalid d (CalRecord.not_valid hbad) slot
    rw [hload]
    exact ⟨e, rejects_reset d e⟩
  · exact restore_invalid d (CalRecord.not_valid hbad)
      (fun r' rest hread => CalRecord.read_toBytes_inv hread) slot
  · refine restore_invalid d (CalRecord.not_valid hbad) (fun r' rest' hread' => ?_) slot
    rw [hread] at hread'
    cases hread'
    rfl

def neutralThree : Calibration Float32 3 := (empty.onPlan ⟨1000000, 3000000, 3⟩).solve

theorem restore_guards_neutralThree :
    neutralThree.toRecord.Valid 3 ∧
      neutralThree.Rejects (neutralThree.restore neutralThree.toRecord.toBytes.dropLast 7)
        (.unreadable .unexpectedEnd) ∧
      ∃ e, neutralThree.Rejects (neutralThree.restore
        (CalRecord.toBytes { neutralThree.toRecord with magic := 0 }) 7) e := by
  have hvalid : neutralThree.toRecord.Valid 3 := toRecord_valid (by decide)
  have hnonempty : neutralThree.toRecord.toBytes ≠ [] := by
    intro hnil
    have hread := hvalid.read_toBytes []
    rw [hnil] at hread
    cases hread
  obtain ⟨-, hcut, hbad⟩ := restore_guards neutralThree 7
  refine ⟨hvalid, (hcut _ hvalid).1 _ (List.dropLast_prefix _) fun hsame => ?_, ?_⟩
  · have hlen := congrArg List.length hsame
    rw [List.length_dropLast] at hlen
    have := List.length_pos_of_ne_nil hnonempty
    omega
  · obtain ⟨-, hbytes, -⟩ := hbad { neutralThree.toRecord with magic := 0 } (Or.inl (by decide))
    obtain ⟨e, he⟩ := hbytes []
    rw [List.append_nil] at he
    exact ⟨e, he⟩

end Calibration

end NetworkAnalyzer
