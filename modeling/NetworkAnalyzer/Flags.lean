/-!
# Flag words

Options packed as single bits of a machine word. `BitLayout` says which bit an option is, and that
two options are two bits; `Flags ι` is a word of such options.

A word may hold bits that no option names: they come in with a raw value that was set from outside.
Every operation keeps them, and they count. In particular `isEmpty` asks for the raw value zero,
so a word is not empty that has no option set but a bit without a name, and an empty mask is not
the same as a mask without channels.

Two words are equal if their raw values are (`ext_raw`). That is too much to ask where a word was
built by setting options one after the other in some order; for those there is `ext_has`, which
compares the options. Its hypothesis `Named` says that nothing else is set, and it is kept by
`put` and holds of `none`.

* `has_put_same`, `has_put_of_ne`: `put` sets the option it names and no other.
* `put_eq_self`: setting an option to what it is changes nothing.
* `isEmpty_put`: a word stays empty exactly if nothing is set in it.
* `ext_raw`: a flag word is its raw value.
* `ext_has`: a word in which only options were set is determined by them.
-/

namespace NetworkAnalyzer

/-- Options laid out as bits of a word. -/
class BitLayout (ι : Type) where
  /-- Bits of the word. -/
  width : Nat
  /-- The bit of an option. -/
  bit : ι → Nat
  bit_lt : ∀ o, bit o < width := by intro o; cases o <;> decide
  bit_injective : ∀ o p, bit o = bit p → o = p := by intro o p; cases o <;> cases p <;> decide

/-- A word of options. -/
structure Flags (ι : Type) [BitLayout ι] where
  raw : BitVec (BitLayout.width ι)
  deriving DecidableEq, Repr

namespace Flags

variable {ι : Type} [BitLayout ι]

def none : Flags ι := ⟨0⟩

instance : Inhabited (Flags ι) := ⟨none⟩

def has (f : Flags ι) (o : ι) : Bool := f.raw.getLsbD (BitLayout.bit o)

def put (f : Flags ι) (o : ι) (b : Bool) : Flags ι :=
  let mask := BitVec.twoPow (BitLayout.width ι) (BitLayout.bit o)
  ⟨if b then f.raw ||| mask else f.raw &&& ~~~mask⟩

/-- A word from its unsigned value; higher bits are dropped. -/
def ofNat (n : Nat) : Flags ι := ⟨BitVec.ofNat _ n⟩

def toNat (f : Flags ι) : Nat := f.raw.toNat

/-- Whether the word is zero, unnamed bits included. -/
def isEmpty (f : Flags ι) : Bool := f.raw == 0

theorem ext_raw {f g : Flags ι} (h : f.raw = g.raw) : f = g := by
  cases f; cases g; simp_all

theorem getLsbD_put (f : Flags ι) (o : ι) (b : Bool) (i : Nat) :
    (f.put o b).raw.getLsbD i = if i = BitLayout.bit o then b else f.raw.getLsbD i := by
  have ho := BitLayout.bit_lt o
  by_cases hi : i = BitLayout.bit o
  · subst hi; cases b <;> simp [put, ho]
  · cases b <;> simp [put, hi, BitVec.getLsbD_twoPow, Ne.symm hi]
    intro hlt
    exact BitVec.lt_of_getLsbD hlt

@[simp] theorem has_put_same (f : Flags ι) (o : ι) (b : Bool) : (f.put o b).has o = b := by
  simp [has, getLsbD_put]

theorem has_put_of_ne (f : Flags ι) {o p : ι} (b : Bool) (h : p ≠ o) :
    (f.put o b).has p = f.has p := by
  have hb : BitLayout.bit p ≠ BitLayout.bit o := fun e => h (BitLayout.bit_injective p o e)
  simp [has, getLsbD_put, hb]

@[simp] theorem has_none (o : ι) : (none : Flags ι).has o = false := by
  simp [has, none]

theorem put_has (f : Flags ι) {o : ι} {b : Bool} (h : f.has o = b) : f.put o b = f := by
  refine ext_raw (BitVec.eq_of_getLsbD_eq fun i _ => ?_)
  rw [getLsbD_put]
  split
  · rename_i hi
    rw [hi, ← h]
    rfl
  · rfl

theorem not_isEmpty {f : Flags ι} {o : ι} (h : f.has o = true) : f.isEmpty = false := by
  unfold isEmpty
  rw [beq_eq_false_iff_ne]
  intro hzero
  unfold has at h
  rw [hzero] at h
  simp at h

theorem isEmpty_put {f : Flags ι} {o : ι} (h : f.has o = false) (b : Bool) :
    (f.put o b).isEmpty = (f.isEmpty && !b) := by
  cases b with
  | true => rw [not_isEmpty (has_put_same f o true), Bool.not_true, Bool.and_false]
  | false => rw [put_has f h, Bool.not_false, Bool.and_true]

theorem put_eq_self {f : Flags ι} {o : ι} {b : Bool} : f.put o b = f ↔ f.has o = b :=
  ⟨fun h => h ▸ has_put_same f o b, put_has f⟩

/-! ## Words of options alone -/

/-- Every bit that is set is the bit of an option. -/
def Named (f : Flags ι) : Prop := ∀ i, f.raw.getLsbD i = true → ∃ o : ι, i = BitLayout.bit o

theorem named_none : (none : Flags ι).Named := by
  intro i h
  simp [none] at h

theorem Named.put {f : Flags ι} (h : f.Named) (o : ι) (b : Bool) : (f.put o b).Named := by
  intro i hi
  rw [getLsbD_put] at hi
  split at hi
  · rename_i heq
    exact ⟨o, heq⟩
  · exact h i hi

theorem ext_has {f g : Flags ι} (hf : f.Named) (hg : g.Named) (h : ∀ o, f.has o = g.has o) :
    f = g := by
  refine ext_raw (BitVec.eq_of_getLsbD_eq fun i _ => Bool.eq_iff_iff.mpr ?_)
  refine ⟨fun hi => ?_, fun hi => ?_⟩
  · obtain ⟨o, rfl⟩ := hf i hi
    exact (h o).symm.trans hi
  · obtain ⟨o, rfl⟩ := hg i hi
    exact (h o).trans hi

end Flags

end NetworkAnalyzer
