import NetworkAnalyzer.Proofs.Calibration.Brackets
import NetworkAnalyzer.Proofs.Frequencies.Checked

/-!
# The arithmetic of a lookup

A lookup computes in words of 16, 32 and 64 bits that wrap and cut without notice. `findExactly`
is the same computation with every operation checked: it has an answer only if no difference is
negative, no sum or product overflows, nothing is divided by zero and no narrowing cuts a digit
off. It always has one, the same as the lookup.

The checked operations are those of `Proofs.Frequencies.Checked`. Why each of them succeeds is known
from `Brackets`: the query lies above the first point and below the last one, its bracket starts at
or below it, and there is a point behind the lower one. What a moved bracket subtracts from or adds
to an index is guarded by the two tests at the ends of the table.

* `bracketExactly_eq`: finding the bracket. The product of two words is taken in 64 bits, and the
  quotient fits 16 bits because it is smaller than the number of points.
* `lineExactly_eq`: moving it down, up, or to an end of the table, or keeping it.
* `findExactly_eq`: no operation of a lookup ever leaves the numbers it is meant for.
-/

namespace NetworkAnalyzer

theorem exactly_pred {a : UInt16} (h : 0 < a.toNat) :
    exactly (a - 1) ((a.toNat : Int) - 1) = some (a - 1) := by
  rw [show (a.toNat : Int) - 1 = (a.toNat - 1 : Nat) by omega]
  exact exactly_eq (Lookup.toNat_last h)

/-! ## Lookups -/

namespace Lookup

def bracketExactly (plan : FrequencyPlan) (f : UInt32) : Option UInt16 := do
  let last ← exactly (plan.points - 1) (plan.points.toNat - 1)
  let span ← exactly (plan.stop - plan.start) (plan.stop.toNat - plan.start.toNat)
  let above ← exactly (f - plan.start) (f.toNat - plan.start.toNat)
  let product ← exactly (above.toUInt64 * last.toUInt64) (above.toNat * last.toNat : Nat)
  let proportion ← quotient product span.toUInt64
  exactly proportion.toUInt16 proportion.toNat

/-- The line of a bracket from `f₀` at point `i` to `f₁` at point `next`, moved as `ofBracket` moves
it, with every operation checked. -/
def lineExactly (plan : FrequencyPlan) (band : UInt32 → UInt32) (f f₀ f₁ : UInt32)
    (i next : UInt16) : Option Lookup := do
  let width ← exactly (f₁ - f₀) (f₁.toNat - f₀.toNat)
  let offset ← exactly (f - f₀) (f.toNat - f₀.toNat)
  let last ← exactly (plan.points - 1) (plan.points.toNat - 1)
  if band f₀ = band f₁ then return .line i offset width .none
  else if band f₀ = band f then
    if i = 0 then return .stored 0
    else
      let lower ← exactly (i - 1) (i.toNat - 1)
      return .line lower offset width .down
  else if last ≤ next then return .stored last
  else return .line next offset width .up

def findExactly (plan : FrequencyPlan) (band : UInt32 → UInt32) (f : UInt32) : Option Lookup :=
  if plan.points ≤ 1 || f ≤ plan.start then some (.stored 0)
  else if plan.stop ≤ f then do
    let last ← exactly (plan.points - 1) (plan.points.toNat - 1)
    return .stored last
  else do
    let i ← bracketExactly plan f
    let f₀ ← plan.getExactly i
    let next ← exactly (i + 1) (i.toNat + 1 : Nat)
    let f₁ ← plan.getExactly next
    if f = f₀ then return .stored i else lineExactly plan band f f₀ f₁ i next

section

variable {plan : FrequencyPlan} {f : UInt32}

theorem bracketExactly_eq (h : Inside plan f) : bracketExactly plan f = some (bracket plan f) := by
  have hpoints := plan.points.toNat_lt
  have hle : plan.start ≤ plan.stop := UInt32.le_of_lt (UInt32.lt_trans h.start h.stop)
  have habove := UInt32.toNat_sub_of_le _ _ (UInt32.le_of_lt h.start)
  have hspan := UInt32.toNat_sub_of_le _ _ hle
  have hlast := toNat_last (n := plan.points) (by have := h.many; omega)
  have hpositive : 0 < (plan.stop - plan.start).toUInt64.toNat := by
    rw [UInt32.toNat_toUInt64, hspan]
    have := h.start_lt
    have := h.lt_stop
    omega
  have hproduct : ((f - plan.start).toUInt64 * (plan.points - 1).toUInt64).toNat =
      (f - plan.start).toNat * (plan.points - 1).toNat := by
    rw [toNat_product h.many h.start_lt, habove, hlast]
  have hnarrow : ((f - plan.start).toUInt64 * (plan.points - 1).toUInt64 /
        (plan.stop - plan.start).toUInt64).toUInt16.toNat =
      ((f - plan.start).toUInt64 * (plan.points - 1).toUInt64 /
        (plan.stop - plan.start).toUInt64).toNat := by
    have hlt := proportion_lt h.many h.start_lt h.lt_stop
    rw [UInt64.toNat_toUInt16, UInt64.toNat_div, hproduct, UInt32.toNat_toUInt64, habove, hspan,
      hlast]
    exact Nat.mod_eq_of_lt (by omega)
  unfold bracketExactly
  rw [exactly_pred (by have := h.many; omega), exactly_sub (UInt32.le_of_lt h.start),
    exactly_sub hle]
  simp only [Option.bind_eq_bind, Option.bind_some, exactly_eq (w := UInt64) hproduct,
    quotient_eq hpositive]
  exact exactly_eq (w := UInt16) hnarrow

theorem lineExactly_eq (band : UInt32 → UInt32) {i : UInt16} (h : Between plan f i) :
    lineExactly plan band f (plan.get i) (plan.get (i + 1)) i (i + 1) =
      some (ofBracket plan band f i) := by
  have hlower := UInt32.le_of_lt h.lower
  unfold lineExactly ofBracket
  rw [exactly_sub (UInt32.le_trans hlower h.upper), exactly_sub hlower,
    exactly_pred (by have := h.next; omega)]
  dsimp only [Option.bind_eq_bind, Option.bind_some, Option.pure_def]
  split
  · rfl
  · split
    · split
      · rfl
      · rename_i hi
        rw [exactly_pred (toNat_pos hi)]
        rfl
    · split <;> rfl

/-- Every operation of a lookup has the result it is meant to have. -/
theorem findExactly_eq (plan : FrequencyPlan) (band : UInt32 → UInt32) (f : UInt32) :
    findExactly plan band f = some (find plan band f) := by
  unfold findExactly find
  split
  · rfl
  · rename_i hinside
    obtain ⟨hmany, hstart⟩ := above_start hinside
    split
    · rw [exactly_pred (Nat.lt_trans Nat.one_pos hmany)]
      rfl
    · rename_i hstop
      have h : Inside plan f := ⟨hmany, hstart, UInt32.not_le.mp hstop⟩
      have hlt := h.bracket_lt
      have hnext := toNat_next hlt
      rw [bracketExactly_eq h]
      dsimp only [Option.bind_eq_bind, Option.bind_some, Option.pure_def]
      rw [FrequencyPlan.getExactly_eq (by omega), exactly_eq (w := UInt16) hnext]
      dsimp only [Option.bind_some]
      rw [FrequencyPlan.getExactly_eq (by omega)]
      dsimp only [Option.bind_some]
      split
      · rfl
      · rename_i hne
        exact lineExactly_eq band (h.between hne)

end

end Lookup

end NetworkAnalyzer
