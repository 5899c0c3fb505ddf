import NetworkAnalyzer.Settings.Leaf

/-!
# The texts of values

What is written for a whole number, a truth value or a variant is read back as that value, and
reading stops where the text ends. A number runs on into digits, so what follows it must not begin
with one (`Ends`). The quotes around a variant and the letters of a truth value end by themselves.

A variant is written as its name, looked up in a table, and read by looking the name up again. It
comes back if the names of the table differ from each other and need no escapes (`Distinct`). This
is checked for each table by evaluation.

* `digitsValue_digits`, `digits_cons`: digits have the value they were made of, and the first is no
  zero unless it is the only one.
* `readNat_writeNat`, `readBool_writeBool`, `readVariant_writeQuoted`: reading after writing.
* `Leaf.read_write`: the same for every leaf that is no decimal.
-/

namespace NetworkAnalyzer

/-! ## Digits -/

namespace Decimal

theorem digitsValue_digits (n : Nat) : digitsValue (digits n) = n := Nat.ofDigitChars_ten_toDigits

theorem isDigit_of_mem_digits {n : Nat} {c : Char} (h : c ∈ digits n) : c.isDigit = true :=
  Nat.isDigit_of_mem_toDigits (by decide) (by decide) h

/-- A number other than zero begins with another digit. -/
theorem digits_cons {n : Nat} (hn : n ≠ 0) : ∃ c cs, digits n = c :: cs ∧ c ≠ '0' := by
  induction n using Nat.strongRecOn with
  | _ n ih =>
    unfold digits
    by_cases hlt : n < 10
    · rw [Nat.toDigits_of_lt_base hlt]
      exact ⟨_, [], rfl, by simpa using hn⟩
    · obtain ⟨c, cs, hcs, hc⟩ := ih (n / 10) (by omega) (by omega)
      rw [Nat.toDigits_of_base_le (by decide) (by omega)]
      unfold digits at hcs
      rw [hcs]
      exact ⟨c, _, rfl, hc⟩

end Decimal

namespace Json

/-! ## Reading after writing -/

/-- A text that does not go on a number. -/
def Ends (rest : List Char) : Prop := ∀ c ∈ rest.head?, c.isDigit = false

theorem ends_nil : Ends [] := by
  intro c h
  cases h

theorem skipBlanks_cons {c : Char} (h : isBlank c = false) (cs : List Char) :
    skipBlanks (c :: cs) = c :: cs := by
  unfold skipBlanks
  rw [List.dropWhile_cons_of_neg (by rw [h]; decide)]

theorem readDigits_stops {max n : Nat} {rest : List Char} (h : Ends rest) :
    readDigits max n rest = .ok (n, rest) := by
  cases rest with
  | nil => rfl
  | cons c cs =>
    unfold readDigits
    rw [h c rfl]
    rfl

theorem le_ofDigitChars (ds : List Char) (n : Nat) : n ≤ Nat.ofDigitChars 10 ds n := by
  induction ds generalizing n with
  | nil => exact Nat.le_refl n
  | cons c ds ih =>
    rw [Nat.ofDigitChars_cons]
    exact Nat.le_trans (by omega) (ih _)

/-- Digits are read to their end, if the number they add up to is allowed. -/
theorem readDigits_append {max : Nat} {ds rest : List Char} (hds : ∀ c ∈ ds, c.isDigit = true)
    (hrest : Ends rest) (n : Nat) (hmax : Nat.ofDigitChars 10 ds n ≤ max) :
    readDigits max n (ds ++ rest) = .ok (Nat.ofDigitChars 10 ds n, rest) := by
  induction ds generalizing n with
  | nil => exact readDigits_stops hrest
  | cons c ds ih =>
    rw [Nat.ofDigitChars_cons] at hmax ⊢
    -- the number only grows, so it is allowed at every digit
    have hle : 10 * n + (c.toNat - 48) ≤ max := Nat.le_trans (le_ofDigitChars ds _) hmax
    rw [List.cons_append]
    unfold readDigits
    rw [hds c (List.mem_cons_self ..), if_pos rfl]
    dsimp only
    rw [if_pos hle]
    exact ih (fun d hd => hds d (List.mem_cons_of_mem _ hd)) _ hmax

theorem not_isBlank_of_isDigit {c : Char} (h : c.isDigit = true) : isBlank c = false := by
  unfold isBlank
  simp only [Bool.or_eq_false_iff, beq_eq_false_iff_ne]
  refine ⟨⟨⟨?_, ?_⟩, ?_⟩, ?_⟩ <;> rintro rfl <;> exact absurd h (by decide)

theorem readNat_writeNat {max n : Nat} (hn : n ≤ max) {rest : List Char} (hrest : Ends rest) :
    readNat max (writeNat n ++ rest) = .ok (n, rest) := by
  by_cases hzero : n = 0
  · subst hzero
    rfl
  · obtain ⟨c, cs, hcs, hc⟩ := Decimal.digits_cons hzero
    have hdigits : ∀ d ∈ c :: cs, d.isDigit = true := fun d hd =>
      Decimal.isDigit_of_mem_digits (hcs ▸ hd)
    have hdigit : c.isDigit = true := hdigits c (List.mem_cons_self ..)
    have hminus : c ≠ '-' := by
      rintro rfl
      exact absurd hdigit (by decide)
    have hvalue : Nat.ofDigitChars 10 (c :: cs) 0 = n := hcs ▸ Nat.ofDigitChars_ten_toDigits
    unfold readNat writeNat
    rw [hcs, List.cons_append, skipBlanks_cons (not_isBlank_of_isDigit hdigit)]
    split
    · rename_i heq
      cases heq
    · rename_i heq
      exact absurd (List.cons.inj heq).1 hminus
    · rename_i heq
      exact absurd (List.cons.inj heq).1 hc
    · rename_i heq
      cases heq
      rw [if_pos hdigit, ← List.cons_append,
        readDigits_append hdigits hrest 0 (hvalue.symm ▸ hn), hvalue]

theorem readBool_writeBool (b : Bool) (rest : List Char) :
    readBool (writeBool b ++ rest) = .ok (b, rest) := by
  cases b with
  | true => simp [readBool, writeBool, skipBlanks_cons, isBlank, readWord, Except.map]
  | false => simp [readBool, writeBool, skipBlanks_cons, isBlank, readWord, Except.map]

/-! ## Variants -/

/-- A text that needs no escapes between quotes. -/
def Plain (cs : List Char) : Prop := ∀ c ∈ cs, c ≠ '"' ∧ c ≠ '\\'

instance (cs : List Char) : Decidable (Plain cs) := List.decidableBAll _ cs

theorem readQuoted_plain {cs : List Char} (h : Plain cs) (rest : List Char) :
    readQuoted false (cs ++ '"' :: rest) = .ok (cs, rest) := by
  induction cs with
  | nil => rfl
  | cons c cs ih =>
    obtain ⟨hquote, hescape⟩ := h c (List.mem_cons_self ..)
    have hplain : (c == '\\' && !false) = false := by simp [hescape]
    rw [List.cons_append]
    unfold readQuoted
    rw [if_neg (fun e => hquote e.1), hplain, ih fun d hd => h d (List.mem_cons_of_mem _ hd)]
    rfl

/-- Every variant has a plain name of its own. -/
def Distinct {α : Type} [DecidableEq α] (variants : NameTable α) : Prop :=
  ∀ v, Plain (variants.nameOf v).toList ∧ variants.ofName? (variants.nameOf v) = some v

theorem readVariant_writeQuoted {α : Type} [DecidableEq α] {variants : NameTable α}
    (h : Distinct variants) (v : α) (rest : List Char) :
    readVariant variants (writeQuoted (variants.nameOf v) ++ rest) = .ok (v, rest) := by
  obtain ⟨hplain, hname⟩ := h v
  have hlookup : lookup variants (variants.nameOf v).toList = .ok v := by
    unfold lookup
    rw [String.ofList_toList, hname]
  unfold readVariant writeQuoted
  rw [List.cons_append, List.cons_append, List.append_assoc, skipBlanks_cons (by decide)]
  change readName variants ((variants.nameOf v).toList ++ '"' :: rest) = _
  unfold readName
  rw [readQuoted_plain hplain]
  change (lookup variants (variants.nameOf v).toList >>= fun v => Except.ok (v, rest)) = _
  rw [hlookup]
  rfl

end Json

/-! ## Leaves -/

theorem Channel.names_distinct : Json.Distinct Channel.names := by
  intro c
  cases c <;> decide

theorem Sampler.names_distinct : Json.Distinct Sampler.names := by
  intro s
  cases s <;> decide

theorem SmoothMode.names_distinct : Json.Distinct SmoothMode.names := by
  intro m
  cases m <;> decide

theorem Domain.names_distinct : Json.Distinct Domain.names := by
  intro d
  cases d <;> decide

theorem ResponseKind.names_distinct : Json.Distinct ResponseKind.names := by
  intro k
  cases k <;> decide

theorem WindowShape.names_distinct : Json.Distinct WindowShape.names := by
  intro w
  cases w <;> decide

namespace Leaf

open Json

/-- The leaf holds a single, and not a whole number, a truth value or a variant. -/
def isSingle : Leaf → Bool
  | .electricalDelay _ | .gainOffset | .portImpedance | .referenceImpedance => true
  | _ => false

theorem readAs_ok {α β : Type} {f : α → β} {r : Reader α} {cs rest : List Char} {a : α}
    (h : r cs = .ok (a, rest)) : readAs f r cs = .ok (f a, rest) := by
  unfold readAs
  rw [h]
  rfl

theorem read_write {l : Leaf} (hl : l.isSingle = false) (v : l.Value) {rest : List Char}
    (hrest : Ends rest) : l.read (l.write v ++ rest) = .ok (v, rest) := by
  cases l with
  | electricalDelay | gainOffset | portImpedance | referenceImpedance => cases hl
  | start | stop =>
    refine (readAs_ok (readNat_writeNat (Nat.le_of_lt_succ v.toNat_lt) hrest)).trans ?_
    rw [Nat.toUInt32, UInt32.ofNat_toNat]
  | points | bandwidth | averaging =>
    refine (readAs_ok (readNat_writeNat (Nat.le_of_lt_succ v.toNat_lt) hrest)).trans ?_
    rw [Nat.toUInt16, UInt16.ofNat_toNat]
  | smoothFactor =>
    refine (readAs_ok (readNat_writeNat (Nat.le_of_lt_succ v.toNat_lt) hrest)).trans ?_
    rw [Nat.toUInt8, UInt8.ofNat_toNat]
  | traceEnabled => exact readBool_writeBool v rest
  | traceChannel => exact readVariant_writeQuoted Channel.names_distinct v rest
  | sampler => exact readVariant_writeQuoted Sampler.names_distinct v rest
  | smoothMode => exact readVariant_writeQuoted SmoothMode.names_distinct v rest
  | domain => exact readVariant_writeQuoted Domain.names_distinct v rest
  | response => exact readVariant_writeQuoted ResponseKind.names_distinct v rest
  | window => exact readVariant_writeQuoted WindowShape.names_distinct v rest

end Leaf

end NetworkAnalyzer
