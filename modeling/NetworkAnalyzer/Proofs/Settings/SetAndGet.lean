import Mathlib.Algebra.Group.Nat.Defs
import NetworkAnalyzer.Proofs.Settings.ValueTexts
import NetworkAnalyzer.Settings.Path

/-!
# Setting and getting leaves by path

A leaf is found under its own path, and under every other spelling of it: an index may carry a plus
sign and leading zeros, and what stands before the first slash is ignored. Setting it there to a
text changes at most this leaf; what `getText` writes for a value sets that value.

**Paths.** A path is split at its slashes and followed through the tree. No name of the tree holds a
slash, and an index is written in decimal, so the path of a leaf splits into its parts and leads
back to it.

**Texts.** Whole numbers, truth values and variants are written in one way and read in several.
Decimals are another matter, since shortest digits would have to be shown to round back; leaves
that hold a single are left out of what is said about values, and kept in what is said about frames
and refusals.

**Lengths.** Getting writes into a buffer, and fails if the text does not fit. No text of a leaf
that is no single is longer than 20 bytes (`textLimit`).

* `ofPath_path`: the path of a leaf leads to the leaf.
* `setText_cases`: everything that setting can do.
* `setText_frame`: whatever the text, no other leaf changes.
* `setText_refused`: a text that is refused changes nothing. One with something behind its value is
  not refused: the leaf is set, and the rest is reported.
* `setText_getText`: a text that was written for a value sets the value and is written again, all
  other leaves stay, and a text that is refused changes nothing.
-/

namespace NetworkAnalyzer

namespace Leaf

/-! ## Paths -/

/-- Parts, each behind a slash. -/
def joined (parts : List (List Char)) : List Char := parts.flatMap ('/' :: ·)

theorem splitSlash_of_notMem {part : List Char} (h : '/' ∉ part) : splitSlash part = [part] := by
  induction part with
  | nil => rfl
  | cons c cs ih =>
    rw [List.mem_cons, not_or] at h
    unfold splitSlash
    rw [if_neg (Ne.symm h.1), ih h.2]

theorem splitSlash_append {part : List Char} (h : '/' ∉ part) (cs : List Char) :
    splitSlash (part ++ '/' :: cs) = part :: splitSlash cs := by
  induction part with
  | nil => rfl
  | cons c part ih =>
    rw [List.mem_cons, not_or] at h
    rw [List.cons_append, splitSlash, if_neg (Ne.symm h.1), ih h.2]

/-- Parts without slashes are what a path splits into. -/
theorem splitSlash_joined {part : List Char} {parts : List (List Char)}
    (h : ∀ p ∈ part :: parts, '/' ∉ p) : splitSlash (part ++ joined parts) = part :: parts := by
  induction parts generalizing part with
  | nil =>
    unfold joined
    rw [List.flatMap_nil, List.append_nil]
    exact splitSlash_of_notMem (h part (List.mem_cons_self ..))
  | cons p parts ih =>
    unfold joined at ih ⊢
    rw [List.flatMap_cons, List.cons_append, splitSlash_append (h part (List.mem_cons_self ..)),
      ih fun q hq => h q (List.mem_cons_of_mem _ hq)]

theorem pathParts_joined {parts : List (List Char)} (h : ∀ p ∈ parts, '/' ∉ p) :
    pathParts (joined parts) = parts := by
  unfold pathParts
  rw [← List.nil_append (joined parts), splitSlash_joined (List.forall_mem_cons.mpr ⟨by simp, h⟩)]
  rfl

theorem toList_index (i : Nat) : (toString i).toList = Decimal.digits i := Nat.toList_repr

theorem readIndex_digits {n : Nat} (i : Fin n) : readIndex n (Decimal.digits i.val) = some i := by
  have hdigits : ∀ c ∈ Decimal.digits i.val, c.isDigit = true :=
    fun c hc => Decimal.isDigit_of_mem_digits hc
  unfold readIndex
  extract_lets ds k
  have hds : ds = Decimal.digits i.val := by
    unfold ds
    split
    · rename_i rest heq
      rw [heq] at hdigits
      exact absurd (hdigits '+' (List.mem_cons_self ..)) (by decide)
    · rfl
  have hk : k = i.val := by
    unfold k
    rw [hds, Decimal.digitsValue_digits]
  rw [if_pos (by rw [hds]; exact ⟨Nat.toDigits_ne_nil, List.all_eq_true.mpr hdigits⟩),
    dif_pos (by rw [hk]; exact i.isLt)]
  exact congrArg some (Fin.ext hk)

theorem toList_path (l : Leaf) : l.path.toList = joined (l.parts.map String.toList) := by
  have hfold : ∀ (parts : List String) (s : String),
      (parts.foldl (fun s part => s ++ "/" ++ part) s).toList =
        s.toList ++ joined (parts.map String.toList) := by
    intro parts
    induction parts with
    | nil => simp [joined]
    | cons p parts ih =>
      intro s
      rw [List.foldl_cons, ih]
      simp [joined]
  exact hfold l.parts ""

theorem slash_notMem_parts (l : Leaf) : ∀ p ∈ l.parts.map String.toList, '/' ∉ p := by
  have hindex : ∀ i : Nat, '/' ∉ (toString i).toList := by
    intro i h
    rw [toList_index] at h
    exact absurd (Decimal.isDigit_of_mem_digits h) (by decide)
  cases l with
  | traceEnabled i | traceChannel i =>
    refine List.forall_mem_cons.mpr ⟨by decide, List.forall_mem_cons.mpr ⟨hindex i, ?_⟩⟩
    decide
  | electricalDelay c => cases c <;> decide
  | _ => decide

theorem inTraces_index (i : Fin Parameters.traceCount) (rest : List (List Char)) :
    inTraces ((toString i.val).toList :: rest) = named (traceNames i) rest := by
  rw [toList_index, inTraces, readIndex_digits]

theorem named_found {leaves : List (String × Leaf)} {name : String} {l : Leaf}
    (h : (leaves.find? fun l => l.1.toList == name.toList) = some (name, l))
    (rest : List (List Char)) : named leaves (name.toList :: rest) = l.ending rest := by
  unfold named
  dsimp only
  rw [h]

theorem ofParts_parts (l : Leaf) : ofParts (l.parts.map String.toList) = .ok l := by
  cases l with
  | traceEnabled i =>
    refine (inTraces_index i ["enabled".toList]).trans (named_found ?_ [])
    exact List.find?_cons_of_pos (beq_self_eq_true _)
  | traceChannel i =>
    refine (inTraces_index i ["channel".toList]).trans (named_found ?_ [])
    have hother : ¬("enabled".toList == "channel".toList) = true := by decide
    refine (List.find?_cons_of_neg ?_).trans (List.find?_cons_of_pos ?_)
    · exact hother
    · exact beq_self_eq_true _
  | electricalDelay c => cases c <;> rfl
  | _ => rfl

theorem ofPath_path (l : Leaf) : ofPath l.path = .ok l := by
  unfold ofPath
  rw [toList_path, pathParts_joined l.slash_notMem_parts, ofParts_parts]

/-! ## Lengths -/

/-- Bytes that are enough for the text of every leaf that is no single. -/
def textLimit : Nat := 20

theorem utf8ByteSize_ofList {cs : List Char} (h : ∀ c ∈ cs, c.utf8Size = 1) :
    (String.ofList cs).utf8ByteSize = cs.length := by
  induction cs with
  | nil => rfl
  | cons c cs ih =>
    rw [String.ofList_cons, String.utf8ByteSize_append, String.utf8ByteSize_singleton,
      h c (List.mem_cons_self ..), ih fun d hd => h d (List.mem_cons_of_mem _ hd),
      List.length_cons, Nat.add_comm]

theorem utf8Size_of_isDigit {c : Char} (h : c.isDigit = true) : c.utf8Size = 1 := by
  rw [Char.utf8Size_eq_one_iff]
  have hnine : c.val ≤ '9'.val := by
    simp only [Char.isDigit, Bool.and_eq_true, decide_eq_true_eq] at h
    exact h.2
  exact UInt32.le_trans hnine (by decide)

theorem utf8ByteSize_writeNat_le {n : Nat} (hn : n < 2 ^ 32) :
    (String.ofList (Json.writeNat n)).utf8ByteSize ≤ textLimit := by
  unfold Json.writeNat
  rw [utf8ByteSize_ofList fun c hc => utf8Size_of_isDigit (Decimal.isDigit_of_mem_digits hc)]
  have hlength : (Decimal.digits n).length ≤ 10 :=
    (Nat.length_toDigits_le_iff (by decide) (by decide)).mpr (Nat.lt_trans hn (by decide))
  exact Nat.le_trans hlength (by decide)

theorem utf8ByteSize_write_le {l : Leaf} (hl : l.isSingle = false) (v : l.Value) :
    (String.ofList (l.write v)).utf8ByteSize ≤ textLimit := by
  cases l with
  | electricalDelay | gainOffset | portImpedance | referenceImpedance => cases hl
  | start | stop => exact utf8ByteSize_writeNat_le v.toNat_lt
  | points | bandwidth | averaging =>
    exact utf8ByteSize_writeNat_le (Nat.lt_trans v.toNat_lt (by decide))
  | smoothFactor => exact utf8ByteSize_writeNat_le (Nat.lt_trans v.toNat_lt (by decide))
  | traceEnabled =>
    change (String.ofList (Json.writeBool v)).utf8ByteSize ≤ textLimit
    cases v <;> decide
  | traceChannel =>
    change (String.ofList (Json.writeQuoted (Channel.names.nameOf v))).utf8ByteSize ≤ textLimit
    cases v <;> decide
  | sampler | smoothMode | domain | response | window => cases v <;> decide

end Leaf

namespace Settings

/-! ## Setting and getting -/

variable {s s' : Settings} {path text : String} {l : Leaf}

/-- Setting is refused, or sets the leaf to the value that the text begins with. -/
theorem setText_cases (s : Settings) (path text : String) :
    (∃ e, e ≠ .trailingCharacters ∧ s.setText path text = (.error e, s)) ∨
      ∃ (l : Leaf) (v : l.Value) (rest : List Char), Leaf.ofPath path = .ok l ∧
        l.read text.toList = .ok (v, rest) ∧
        s.setText path text =
          (if Json.skipBlanks rest = [] then .ok text.utf8ByteSize else .error .trailingCharacters,
            l.set s v) := by
  unfold setText
  cases hpath : Leaf.ofPath path with
  | error e => exact Or.inl ⟨.path e, by simp, rfl⟩
  | ok l =>
    dsimp only
    cases hread : l.read text.toList with
    | error e => exact Or.inl ⟨.value e, by simp, rfl⟩
    | ok r => exact Or.inr ⟨l, r.1, r.2, rfl, hread, rfl⟩

/-- A text that is refused changes nothing; one with something behind its value is not refused. -/
theorem setText_refused {e : SettingsError} (h : s.setText path text = (.error e, s'))
    (he : e ≠ .trailingCharacters) : s' = s := by
  obtain ⟨e', -, heq⟩ | ⟨l, v, rest, -, -, heq⟩ := s.setText_cases path text
  · rw [heq] at h
    exact (congrArg Prod.snd h).symm
  · rw [heq] at h
    split at h
    · cases congrArg Prod.fst h
    · cases congrArg Prod.fst h
      exact absurd rfl he

/-- Whatever the text, no leaf but the one at the path changes. -/
theorem setText_frame (hpath : Leaf.ofPath path = .ok l) {k : Leaf} (hk : k ≠ l) :
    k.get (s.setText path text).2 = k.get s := by
  obtain ⟨e, -, heq⟩ | ⟨l', v, rest, hpath', -, heq⟩ := s.setText_cases path text
  · rw [heq]
  · cases hpath.symm.trans hpath'
    rw [heq]
    exact Leaf.get_set_of_ne s v hk

theorem setText_write (s : Settings) (hpath : Leaf.ofPath path = .ok l) (hl : l.isSingle = false)
    (v : l.Value) :
    s.setText path (String.ofList (l.write v)) =
      (.ok (String.ofList (l.write v)).utf8ByteSize, l.set s v) := by
  have hread : l.read (l.write v) = .ok (v, []) := by
    have h := Leaf.read_write hl v Json.ends_nil
    rwa [List.append_nil] at h
  unfold setText
  rw [hpath]
  dsimp only
  rw [String.toList_ofList, hread]
  rfl

theorem getText_write (hpath : Leaf.ofPath path = .ok l) (hl : l.isSingle = false) {v : l.Value}
    (hv : l.get s = v) {capacity : Nat} (hcapacity : Leaf.textLimit ≤ capacity) :
    s.getText path capacity = .ok (String.ofList (l.write v)) := by
  unfold getText
  rw [hpath]
  dsimp only
  rw [hv, if_pos (Nat.le_trans (Leaf.utf8ByteSize_write_le hl v) hcapacity)]

/-- Every leaf has a path. Under any path of a leaf that is no single, every value has a text:
settings that hold the value show it, and setting any settings to it is accepted, stores the value,
is shown again and leaves the other leaves. A text that is refused changes nothing. -/
theorem setText_getText :
    (∀ l : Leaf, Leaf.ofPath l.path = .ok l) ∧
    (∀ {path : String} {l : Leaf}, Leaf.ofPath path = .ok l → l.isSingle = false →
      ∀ v : l.Value, ∃ text : String,
        (∀ t : Settings, l.get t = v → ∀ capacity, Leaf.textLimit ≤ capacity →
          t.getText path capacity = .ok text) ∧
        ∀ s : Settings, ∃ s' : Settings, s.setText path text = (.ok text.utf8ByteSize, s') ∧
          (∀ capacity, Leaf.textLimit ≤ capacity → s'.getText path capacity = .ok text) ∧
          l.get s' = v ∧ ∀ k : Leaf, k ≠ l → k.get s' = k.get s) ∧
    ∀ {s s' : Settings} {path text : String} {e : SettingsError},
      s.setText path text = (.error e, s') → e ≠ .trailingCharacters →
      ∀ k : Leaf, k.get s' = k.get s := by
  refine ⟨Leaf.ofPath_path, fun {path l} hpath hl v => ?_, fun h he k => ?_⟩
  · refine ⟨String.ofList (l.write v), fun t ht capacity => getText_write hpath hl ht, fun s => ?_⟩
    refine ⟨l.set s v, setText_write s hpath hl v, fun capacity => ?_, Leaf.get_set_same s l v,
      fun k hk => Leaf.get_set_of_ne s v hk⟩
    exact getText_write hpath hl (Leaf.get_set_same s l v)
  · rw [setText_refused h he]

def secondTrace : Fin Parameters.traceCount := ⟨1, by decide⟩

/-- The channel of the second trace, set under another spelling of its path; then a number that is
too large for its leaf. -/
theorem setText_getText_channel :
    ∃ s', (default : Settings).setText "/traces/+1/channel" "\"S11\"" = (.ok 5, s') ∧
      s'.getText "/traces/+1/channel" 64 = .ok "\"S11\"" ∧
      (Leaf.traceChannel secondTrace).get s' = .s11 ∧
      (∀ k : Leaf, k ≠ .traceChannel secondTrace → k.get s' = k.get default) ∧
      ∃ s'', s'.setText "/sweep/points" "65536" = (.error (.value .invalidNumber), s'') ∧
        ∀ k : Leaf, k.get s'' = k.get s' := by
  obtain ⟨-, hvalues, hrefused⟩ := setText_getText
  have hpath : Leaf.ofPath "/traces/+1/channel" = .ok (.traceChannel secondTrace) := by rfl
  obtain ⟨text, hshown, hset⟩ := hvalues hpath rfl .s11
  have htext : text = "\"S11\"" := by
    have h := hshown (Leaf.set default (.traceChannel secondTrace) .s11) rfl 64 (by decide)
    exact (Except.ok.inj h).symm
  subst htext
  obtain ⟨s', haccepted, hagain, hstored, hothers⟩ := hset default
  have hlarge : s'.setText "/sweep/points" "65536" = (.error (.value .invalidNumber), s') := rfl
  exact ⟨s', haccepted, hagain 64 (by decide), hstored, hothers, s', hlarge,
    hrefused hlarge (by decide)⟩

end Settings

end NetworkAnalyzer
