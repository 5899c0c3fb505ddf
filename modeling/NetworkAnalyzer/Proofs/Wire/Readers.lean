import Mathlib.Tactic.Ring
import NetworkAnalyzer.Wire.Varint

/-!
# What readers take off the front

A reader that accepts looks at the bytes it takes and at no others. `Reads r front x`
says this of one value: whatever follows `front` is handed back, and every shorter
beginning of `front` ends too early.

**Faithful readers.** The property of one value follows from a property of the reader (`Faithful`):
if it accepts some bytes, then it accepts what it took with anything else behind, and it finds
every shorter beginning of it too short. This is closed under reading one thing after the other and
under repetition, so it is checked for the smallest readers and then holds of records and dumps.

**Varints.** A type limits the number of bytes and the value of the last one. Together these are a
limit of the number: a varint at the limit needs one byte too many or a last byte that is too
large. For the types of 16, 32 and 64 bits it is the first number that the word does not hold.

* `Faithful.reads`: for the readers here, `Reads` follows from one successful reading
  that leaves nothing.
* `Faithful.chain`, `Faithful.times`: reading in sequence, and the same thing several times.
* `readVarint_writeVarint`: the reader returns what was written exactly if it is below
  the limit of the type, and calls the bytes a bad varint otherwise.
* `readWord_writeWord`, `readHalfword_writeHalfword`: a word comes back.
* `readTimes_flatMap`: so does a sequence of values that each come back.
-/

namespace NetworkAnalyzer.Wire

variable {α β : Type}

/-- `r` reads `x` from exactly the bytes `front`. -/
structure Reads (r : Reader α) (front : Bytes) (x : α) : Prop where
  whole : ∀ rest, r (front ++ rest) = .ok (x, rest)
  cut : ∀ part, part <+: front → part ≠ front → r part = .error .unexpectedEnd

/-- Whatever `r` accepts, it has read from the bytes it took. -/
def Faithful (r : Reader α) : Prop :=
  ∀ bytes x rest, r bytes = .ok (x, rest) → ∃ front, bytes = front ++ rest ∧ Reads r front x

/-- One reading that leaves nothing decides every longer and every shorter one. -/
theorem Faithful.reads {r : Reader α} (hr : Faithful r) {front : Bytes} {x : α}
    (h : r front = .ok (x, [])) : Reads r front x := by
  obtain ⟨front', hfront, hreads⟩ := hr _ _ _ h
  rw [List.append_nil] at hfront
  exact hfront ▸ hreads

/-! ## Readers in sequence -/

def give (x : α) : Reader α := fun bytes => .ok (x, bytes)

def chain (r : Reader α) (f : α → Reader β) : Reader β := fun bytes =>
  r bytes >>= fun p => f p.1 p.2

theorem chain_ok {r : Reader α} {f : α → Reader β} {bytes rest : Bytes} {x : α}
    (h : r bytes = .ok (x, rest)) : chain r f bytes = f x rest := by
  unfold chain
  rw [h]
  rfl

theorem chain_error {r : Reader α} {f : α → Reader β} {bytes : Bytes} {e : ReadError}
    (h : r bytes = .error e) : chain r f bytes = .error e := by
  unfold chain
  rw [h]
  rfl

theorem chain_inv {r : Reader α} {f : α → Reader β} {bytes rest : Bytes} {y : β}
    (h : chain r f bytes = .ok (y, rest)) :
    ∃ x mid, r bytes = .ok (x, mid) ∧ f x mid = .ok (y, rest) := by
  cases hx : r bytes with
  | error e =>
    rw [chain_error hx] at h
    cases h
  | ok p => exact ⟨p.1, p.2, rfl, (chain_ok hx).symm.trans h⟩

theorem Reads.chain {r : Reader α} {f : α → Reader β} {front front' : Bytes} {x : α} {y : β}
    (h : Reads r front x) (h' : Reads (f x) front' y) : Reads (chain r f) (front ++ front') y := by
  refine ⟨fun rest => ?_, fun part hpart hne => ?_⟩
  · rw [List.append_assoc, chain_ok (h.whole _), h'.whole]
  · obtain ⟨suffix, hsuffix⟩ := hpart
    -- the cut lies in the first part or in the second; at the seam it counts to the second
    rcases List.append_eq_append_iff.mp hsuffix with ⟨missing, hfront, -⟩ | ⟨part', rfl, hfront'⟩
    · by_cases hseam : part = front
      · have hwhole := h.whole []
        rw [List.append_nil] at hwhole
        rw [hseam, chain_ok hwhole]
        refine h'.cut [] List.nil_prefix fun hnil => hne ?_
        rw [hseam, ← hnil, List.append_nil]
      · exact chain_error (h.cut part ⟨missing, hfront.symm⟩ hseam)
    · rw [chain_ok (h.whole part')]
      exact h'.cut part' ⟨suffix, hfront'.symm⟩ fun heq => hne (by rw [heq])

theorem Faithful.give (x : α) : Faithful (give x) := by
  intro bytes y rest h
  cases h
  refine ⟨[], rfl, fun rest => rfl, fun part hpart hne => ?_⟩
  exact absurd (List.prefix_nil.mp hpart) hne

theorem Faithful.chain {r : Reader α} {f : α → Reader β} (hr : Faithful r)
    (hf : ∀ x, Faithful (f x)) : Faithful (chain r f) := by
  intro bytes y rest h
  obtain ⟨x, mid, hx, hy⟩ := chain_inv h
  obtain ⟨front, rfl, hreads⟩ := hr _ _ _ hx
  obtain ⟨front', rfl, hreads'⟩ := hf x _ _ _ hy
  exact ⟨front ++ front', (List.append_assoc ..).symm, hreads.chain hreads'⟩

def readTimes (r : Reader α) : (count : Nat) → Reader (List α)
  | 0 => give []
  | count + 1 => chain r fun x => chain (readTimes r count) fun xs => give (x :: xs)

theorem Faithful.times {r : Reader α} (hr : Faithful r) : ∀ count, Faithful (readTimes r count)
  | 0 => .give []
  | count + 1 => hr.chain fun _ => (hr.times count).chain fun _ => .give _

/-- Values that each read back are read back in a row. -/
theorem readTimes_flatMap {ι : Type} {r : Reader α} {write : ι → Bytes} {value : ι → α}
    (hr : ∀ i rest, r (write i ++ rest) = .ok (value i, rest)) (is : List ι) (rest : Bytes) :
    readTimes r is.length (is.flatMap write ++ rest) = .ok (is.map value, rest) := by
  induction is with
  | nil => rfl
  | cons i is ih =>
    rw [List.flatMap_cons, List.append_assoc, List.length_cons]
    unfold readTimes
    rw [chain_ok (hr i _), chain_ok ih]
    rfl

/-! ## Varints -/

/-- The first number a type has no varint for. -/
def VarintType.limit (t : VarintType) : Nat := 128 ^ (t.maxBytes - 1) * (t.lastMax + 1)

theorem readVarintBytes_faithful (lastMax left : Nat) :
    Faithful (readVarintBytes lastMax left) := by
  induction left with
  | zero => intro bytes x rest h; cases h
  | succ left ih =>
    intro bytes x rest h
    cases bytes with
    | nil => cases h
    | cons b bytes =>
      unfold readVarintBytes at h
      split at h
      · -- the last byte of a varint: only the empty string is shorter
        rename_i hb
        split at h
        · cases h
        · rename_i hlast
          cases h
          refine ⟨[b], rfl, fun rest => ?_, fun part hpart hne => ?_⟩
          · unfold readVarintBytes
            simp only [List.cons_append, List.nil_append]
            rw [if_pos hb, if_neg hlast]
          · rcases List.prefix_cons_iff.mp hpart with rfl | ⟨part', rfl, hnil⟩
            · rfl
            · exact absurd (by rw [List.prefix_nil.mp hnil]) hne
      · rename_i hb
        split at h
        · rename_i m rest' hm
          cases h
          obtain ⟨front, rfl, hreads⟩ := ih _ _ _ hm
          refine ⟨b :: front, rfl, fun rest => ?_, fun part hpart hne => ?_⟩
          · rw [List.cons_append]
            unfold readVarintBytes
            rw [if_neg hb, hreads.whole]
          · rcases List.prefix_cons_iff.mp hpart with rfl | ⟨part', rfl, hpart'⟩
            · rfl
            · unfold readVarintBytes
              rw [if_neg hb, hreads.cut part' hpart' fun heq => hne (by rw [heq])]
        · cases h

theorem readVarint_faithful (t : VarintType) : Faithful (readVarint t) :=
  readVarintBytes_faithful _ _

theorem toNat_toUInt8 {n : Nat} (h : n < 256) : n.toUInt8.toNat = n :=
  UInt8.toNat_ofNat_of_lt' h

theorem readVarintBytes_writeVarint {lastMax : Nat} (hlast : lastMax < 128) :
    ∀ (left n : Nat) (rest : Bytes), readVarintBytes lastMax (left + 1) (writeVarint n ++ rest) =
      if n < 128 ^ left * (lastMax + 1) then .ok (n, rest) else .error .badVarint := by
  intro left
  induction left with
  | zero =>
    intro n rest
    rw [writeVarint, pow_zero, Nat.one_mul]
    split
    · rename_i hn
      rw [List.singleton_append, readVarintBytes, toNat_toUInt8 (by omega), if_pos hn]
      split <;> split <;> first | rfl | omega
    · rw [List.cons_append, readVarintBytes, toNat_toUInt8 (by omega), if_neg (by omega),
        if_neg (by omega)]
      rfl
  | succ left ih =>
    intro n rest
    have hone : 1 ≤ 128 ^ left * (lastMax + 1) :=
      Nat.mul_pos (Nat.pow_pos (by decide)) (Nat.succ_pos _)
    have hpow : 128 ^ (left + 1) * (lastMax + 1) = 128 * (128 ^ left * (lastMax + 1)) := by ring
    rw [writeVarint, hpow]
    split
    · rename_i hn
      rw [List.singleton_append, readVarintBytes, toNat_toUInt8 (by omega), if_pos hn,
        if_neg (by omega), if_pos (by omega)]
    · rename_i hn
      rw [List.cons_append, readVarintBytes, toNat_toUInt8 (by omega), if_neg (by omega), ih]
      by_cases hlt : n / 128 < 128 ^ left * (lastMax + 1)
      · rw [if_pos hlt, if_pos (by omega)]
        dsimp only
        rw [show n % 128 + 128 - 128 + 128 * (n / 128) = n by omega]
      · rw [if_neg hlt, if_neg (by omega)]

theorem readVarint_writeVarint {t : VarintType} (hlast : t.lastMax < 128) (hbytes : 0 < t.maxBytes)
    (n : Nat) (rest : Bytes) : readVarint t (writeVarint n ++ rest) =
      if n < t.limit then .ok (n, rest) else .error .badVarint := by
  obtain ⟨left, hleft⟩ := Nat.exists_eq_succ_of_ne_zero hbytes.ne'
  unfold readVarint VarintType.limit
  rw [hleft]
  exact readVarintBytes_writeVarint hlast left n rest

theorem limit_varint16 : varint16.limit = 2 ^ 16 := rfl

theorem limit_varint32 : varint32.limit = 2 ^ 32 := rfl

theorem limit_varint64 : varint64.limit = 2 ^ 64 := rfl

/-! ## Fixed words -/

theorem assemble_word (w : BitVec 32) :
    BitVec.setWidth 32 (BitVec.setWidth 8 w) |||
      BitVec.setWidth 32 (BitVec.setWidth 8 (w >>> 8)) <<< 8 |||
      BitVec.setWidth 32 (BitVec.setWidth 8 (w >>> 16)) <<< 16 |||
      BitVec.setWidth 32 (BitVec.setWidth 8 (w >>> 24)) <<< 24 = w := by
  ext i hi
  simp only [BitVec.getElem_or, BitVec.getElem_shiftLeft, BitVec.getElem_setWidth,
    BitVec.getLsbD_setWidth, BitVec.getLsbD_ushiftRight]
  grind

theorem readWord_writeWord (w : UInt32) (rest : Bytes) :
    readWord (writeWord w ++ rest) = .ok (w, rest) := by
  have hword : w.toUInt8.toUInt32 ||| (w >>> 8).toUInt8.toUInt32 <<< 8 |||
      (w >>> 16).toUInt8.toUInt32 <<< 16 ||| (w >>> 24).toUInt8.toUInt32 <<< 24 = w :=
    UInt32.toBitVec_inj.mp (assemble_word w.toBitVec)
  unfold readWord writeWord
  simp only [List.cons_append, List.nil_append]
  rw [hword]

def readHalfword : Reader UInt16
  | a :: b :: rest => .ok (a.toUInt16 ||| b.toUInt16 <<< 8, rest)
  | _ => .error .unexpectedEnd

theorem assemble_halfword (w : BitVec 16) :
    BitVec.setWidth 16 (BitVec.setWidth 8 w) |||
      BitVec.setWidth 16 (BitVec.setWidth 8 (w >>> 8)) <<< 8 = w := by
  ext i hi
  simp only [BitVec.getElem_or, BitVec.getElem_shiftLeft, BitVec.getElem_setWidth,
    BitVec.getLsbD_setWidth, BitVec.getLsbD_ushiftRight]
  grind

theorem readHalfword_writeHalfword (w : UInt16) (rest : Bytes) :
    readHalfword (writeHalfword w ++ rest) = .ok (w, rest) := by
  have hword : w.toUInt8.toUInt16 ||| (w >>> 8).toUInt8.toUInt16 <<< 8 = w :=
    UInt16.toBitVec_inj.mp (assemble_halfword w.toBitVec)
  unfold readHalfword writeHalfword
  simp only [List.cons_append, List.nil_append]
  rw [hword]

theorem readHalfword_faithful : Faithful readHalfword := by
  intro bytes w rest h
  match bytes, h with
  | a :: b :: bytes, h =>
    cases h
    refine ⟨[a, b], rfl, fun rest => rfl, fun part hpart hne => ?_⟩
    match part, hpart, hne with
    | [], _, _ => rfl
    | [_], _, _ => rfl
    | a' :: b' :: part', hpart, hne =>
      exact absurd (hpart.eq_of_length_le (by simp)) hne

theorem readWord_faithful : Faithful readWord := by
  intro bytes w rest h
  match bytes, h with
  | a :: b :: c :: d :: bytes, h =>
    cases h
    refine ⟨[a, b, c, d], rfl, fun rest => rfl, fun part hpart hne => ?_⟩
    match part, hpart, hne with
    | [], _, _ => rfl
    | [_], _, _ => rfl
    | [_, _], _, _ => rfl
    | [_, _, _], _, _ => rfl
    | a' :: b' :: c' :: d' :: part', hpart, hne =>
      exact absurd (hpart.eq_of_length_le (by simp)) hne

end NetworkAnalyzer.Wire
