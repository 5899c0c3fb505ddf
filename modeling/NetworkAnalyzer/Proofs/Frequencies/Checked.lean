import NetworkAnalyzer.Proofs.Frequencies

/-!
# Checked frequencies

Words wrap and cut without notice. A checked operation has an answer only if the word it leaves
holds the number that was meant (`exactly`, `quotient`). `FrequencyPlan.getExactly` is the frequency
of a point with every operation checked.

The number that was meant is an integer, so that a difference may be negative and then has no
answer. `exactly` takes the word and that number; a chain of checked operations computes both side
by side and stops at the first that do not agree.

* `exactly_eq`, `exactly_sub`, `quotient_eq`: when a single operation has an answer.
* `getExactly_eq`: on an index of the plan it always has an answer, the frequency itself.
-/

namespace NetworkAnalyzer

class MachineWord (w : Type) where
  toNat : w → Nat

instance : MachineWord UInt16 := ⟨UInt16.toNat⟩
instance : MachineWord UInt32 := ⟨UInt32.toNat⟩
instance : MachineWord UInt64 := ⟨UInt64.toNat⟩

/-- The word that an operation leaves, if it holds the result the operation is meant to have. -/
def exactly {w : Type} [MachineWord w] (x : w) (result : Int) : Option w :=
  if (MachineWord.toNat x : Int) = result then some x else none

theorem exactly_eq {w : Type} [MachineWord w] {x : w} {result : Nat}
    (h : MachineWord.toNat x = result) : exactly x result = some x := if_pos (congrArg _ h)

theorem exactly_sub {a b : UInt32} (h : b ≤ a) :
    exactly (a - b) ((a.toNat : Int) - b.toNat) = some (a - b) := by
  have hle := UInt32.le_iff_toNat_le.mp h
  rw [← Int.ofNat_sub hle]
  exact exactly_eq (UInt32.toNat_sub_of_le _ _ h)

/-- The quotient, if there is one. -/
def quotient (a b : UInt64) : Option UInt64 := if b = 0 then none else some (a / b)

theorem quotient_eq {a b : UInt64} (h : 0 < b.toNat) : quotient a b = some (a / b) :=
  if_neg fun hb => by simp [hb] at h

/-! ## The frequency of a point -/

namespace FrequencyPlan

/-- `get` with every operation checked, on an index of the plan. -/
def getExactly (p : FrequencyPlan) (i : UInt16) : Option UInt32 := do
  guard (i.toNat < max p.points.toNat 1)
  if p.intervals = 0 then
    return p.start
  else
    let n := p.intervals.toUInt64
    let share ← exactly (p.remainder.toUInt64 * i.toUInt64) (p.remainder.toNat * i.toNat : Nat)
    let shares ← exactly (n / 2 + share) (n.toNat / 2 + share.toNat : Nat)
    let carry ← quotient shares n
    let nominal ← exactly (p.step.toUInt64 * i.toUInt64) (p.step.toNat * i.toNat : Nat)
    let sum ← exactly (p.start.toUInt64 + nominal) (p.start.toNat + nominal.toNat : Nat)
    let sum ← exactly (sum + carry) (sum.toNat + carry.toNat : Nat)
    exactly sum.toUInt32 sum.toNat

theorem getExactly_eq {p : FrequencyPlan} {i : UInt16} (hi : i.toNat < max p.points.toNat 1) :
    p.getExactly i = some (p.get i) := by
  unfold getExactly get
  rw [guard, if_pos hi]
  by_cases hone : p.intervals = 0
  · rw [if_pos hone, if_pos hone]
    rfl
  · have hmany : 1 < p.points.toNat := Nat.lt_of_not_le (mt intervals_eq_zero.mpr hone)
    obtain ⟨n, hp⟩ : ∃ n, p.points.toNat = n + 1 := ⟨p.points.toNat - 1, by omega⟩
    have hn : 0 < n := by omega
    have hin : i.toNat ≤ n := by omega
    have hintervals : p.intervals.toUInt64.toNat = n := toNat_intervals_of_succ hp
    have hshare : (p.remainder.toUInt64 * i.toUInt64).toNat = p.remainder.toNat * i.toNat := by
      rw [toNat_share hp hn hin, toNat_remainder hp hn]
    have hshares : (p.intervals.toUInt64 / 2 + p.remainder.toUInt64 * i.toUInt64).toNat =
        p.intervals.toUInt64.toNat / 2 + (p.remainder.toUInt64 * i.toUInt64).toNat := by
      rw [toNat_shares hp hn hin, toNat_share hp hn hin, hintervals]
    have hnominal : (p.step.toUInt64 * i.toUInt64).toNat = p.step.toNat * i.toNat := by
      rw [toNat_nominal hp hn hin, toNat_step hp hn]
    have hstart : (p.start.toUInt64 + p.step.toUInt64 * i.toUInt64).toNat =
        p.start.toNat + (p.step.toUInt64 * i.toUInt64).toNat := by
      rw [toNat_start_add_nominal hp hn hin, toNat_nominal hp hn hin]
    have hsum : (p.start.toUInt64 + p.step.toUInt64 * i.toUInt64 + p.carry i).toNat =
        (p.start.toUInt64 + p.step.toUInt64 * i.toUInt64).toNat + (p.carry i).toNat := by
      rw [toNat_sum hp hn hin, toNat_start_add_nominal hp hn hin, toNat_carry hp hn hin,
        ← rounded_multiple hn, Nat.add_assoc]
    have hnarrow : (p.start.toUInt64 + p.step.toUInt64 * i.toUInt64 + p.carry i).toUInt32.toNat =
        (p.start.toUInt64 + p.step.toUInt64 * i.toUInt64 + p.carry i).toNat := by
      rw [UInt64.toNat_toUInt32, toNat_sum hp hn hin]
      exact Nat.mod_eq_of_lt (sum_lt hn hin p)
    unfold carry at hsum hnarrow
    rw [if_neg hone, if_neg hone]
    simp only [pure_bind, Option.bind_eq_bind, Option.bind_some, exactly_eq (w := UInt64) hshare,
      exactly_eq (w := UInt64) hshares, quotient_eq (hintervals.symm ▸ hn),
      exactly_eq (w := UInt64) hnominal, exactly_eq (w := UInt64) hstart,
      exactly_eq (w := UInt64) hsum, exactly_eq (w := UInt32) hnarrow]
    rfl

end FrequencyPlan

end NetworkAnalyzer
