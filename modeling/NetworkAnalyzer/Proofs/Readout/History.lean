import Mathlib.Algebra.Group.Nat.Defs
import Mathlib.Data.List.Infix
import Mathlib.Logic.Relation
import NetworkAnalyzer.Readout.Buffers

/-!
# Histories of the buffers

The buffers together with the passes published through them. `History.Step` is one access of a
producer or of a reader, in the order in which each of them makes its accesses:

* a producer claims the sweeping role, writes the point count and the traces, and gives the role
  back. A pass may be spread over slices that end without completing it, and such a slice gives
  the buffers back with whatever it wrote.
* A slice that completes its pass gives the role back first and advances the generation second.
  In between the pass is published, but not counted: the buffers are free, a reader may take
  them, and it reads the number of the pass before. Such passes are `pending`.
* A reader claims the copying role and gives it back. What it reads changes nothing.

A step asks only for the role that it needs, so several producers and any number of readers are
covered. `WholeStep` is the producer that a dump would need: there is one of it, which counts its
pass before it begins the next, and every slice completes its pass.

* `reach_counted`, `reach_passes`: passes are only added, and the generation counts the counted
  ones.
* `same_counted`: equal generations mean that no pass was counted in between, as long as the
  generation did not come around. Of the pending passes they say nothing.
* `still_of_copying`: nothing but a count happens while a reader holds the buffers.
* `whole_of_reach`: under `WholeStep` at most one pass is pending, and buffers that nobody sweeps
  show the latest pass.
-/

namespace NetworkAnalyzer

variable {N : Nat}

/-- What a completed pass published. -/
structure Publication (N : Nat) where
  points : UInt16
  traces : Traces Float32 N

/-- The passes published, in both lists the latest first. -/
structure PassLog (N : Nat) where
  /-- Completed, and not yet counted by the generation. -/
  pending : List (Publication N) := []
  counted : List (Publication N) := []

structure History (N : Nat) extends PassLog N where
  buffers : Buffers N

def PassLog.passes (l : PassLog N) : List (Publication N) := l.pending ++ l.counted

/-- Channel `c` of the first `p` points of `t` is what `pass` published. -/
def Publication.ShownBy (pass : Publication N) (p : UInt16) (t : Traces Float32 N)
    (c : Channel) : Prop :=
  p = pass.points ∧ (t.get c).toList.take p.toNat = (pass.traces.get c).toList.take p.toNat

theorem Buffers.begin_ok {b b' : Buffers N} (h : b.begin = .ok b') :
    b.role = .idle ∧ b' = { b with role := .sweeping } := by
  unfold Buffers.begin Buffers.claim at h
  split at h
  · rename_i hclaim
    split at hclaim
    · rename_i hidle
      cases hclaim
      cases h
      exact ⟨hidle, rfl⟩
    · cases hclaim
  · cases h

namespace History

/-- One access of a producer or of a reader. -/
inductive Step : History N → History N → Prop
  | begin {h : History N} {b : Buffers N} : h.buffers.begin = .ok b → Step h { h with buffers := b }
  | setPoints {h : History N} (n : UInt16) : h.buffers.role = .sweeping →
      Step h { h with buffers := h.buffers.setPoints n }
  | write {h : History N} (t : Traces Float32 N) : h.buffers.role = .sweeping →
      Step h { h with buffers.traces := t }
  /-- A slice ends, yielding or aborted. -/
  | interrupt {h : History N} : h.buffers.role = .sweeping →
      Step h { h with buffers := h.buffers.unclaim }
  /-- The slice that completes a pass ends. The pass is not counted yet. -/
  | complete {h : History N} : h.buffers.role = .sweeping →
      Step h { h with
        buffers := h.buffers.unclaim
        pending := ⟨h.buffers.points, h.buffers.traces⟩ :: h.pending }
  /-- The oldest pass that is not counted yet is counted. -/
  | count {h : History N} {later : List (Publication N)} {pass : Publication N} :
      h.pending = later ++ [pass] →
      Step h { h with
        buffers.generation := h.buffers.generation + 1
        pending := later
        counted := pass :: h.counted }
  | claim {h : History N} : h.buffers.role = .idle →
      Step h { h with buffers.role := .copying }
  | release {h : History N} : h.buffers.role = .copying →
      Step h { h with buffers := h.buffers.unclaim }

abbrev Reach : History N → History N → Prop := Relation.ReflTransGen Step

/-! ## Generations -/

variable {h h' : History N}

theorem step_counted (hs : Step h h') :
    ∃ new, h'.counted = new ++ h.counted ∧
      h'.buffers.generation = h.buffers.generation + UInt32.ofNat new.length := by
  cases hs with
  | begin hb =>
    obtain ⟨-, rfl⟩ := Buffers.begin_ok hb
    exact ⟨[], rfl, (UInt32.add_zero _).symm⟩
  | count _ => exact ⟨[_], rfl, rfl⟩
  | setPoints | write | interrupt | complete | claim | release =>
    exact ⟨[], rfl, (UInt32.add_zero _).symm⟩

theorem reach_counted (hr : Reach h h') :
    ∃ new, h'.counted = new ++ h.counted ∧
      h'.buffers.generation = h.buffers.generation + UInt32.ofNat new.length := by
  induction hr with
  | refl => exact ⟨[], rfl, (UInt32.add_zero _).symm⟩
  | tail _ hs ih =>
    obtain ⟨old, hold, hgen⟩ := ih
    obtain ⟨new, hnew, hgen'⟩ := step_counted hs
    refine ⟨new ++ old, ?_, ?_⟩
    · rw [hnew, hold, List.append_assoc]
    · rw [hgen', hgen, List.length_append, UInt32.ofNat_add, UInt32.add_assoc,
        UInt32.add_comm (UInt32.ofNat old.length)]

theorem step_passes (hs : Step h h') : h.passes <:+ h'.passes := by
  cases hs with
  | complete => exact List.suffix_cons _ _
  | @count later pass hlater =>
    have hsame : later ++ pass :: h.counted = h.passes := by
      rw [PassLog.passes, hlater, List.append_assoc, List.singleton_append]
    exact hsame ▸ List.suffix_rfl
  | begin | setPoints | write | interrupt | claim | release => exact List.suffix_rfl

theorem reach_passes (hr : Reach h h') : h.passes <:+ h'.passes := by
  induction hr with
  | refl => exact List.suffix_rfl
  | tail _ hs ih => exact ih.trans (step_passes hs)

/-- Equal generations with less than a full turn in between: no pass was counted. -/
theorem same_counted (hr : Reach h h')
    (hgen : h'.buffers.generation = h.buffers.generation)
    (hturn : h'.counted.length < h.counted.length + 2 ^ 32) : h'.counted = h.counted := by
  obtain ⟨new, hnew, hcount⟩ := reach_counted hr
  have hlen : new.length < UInt32.size := by
    rw [hnew, List.length_append] at hturn
    have : UInt32.size = 2 ^ 32 := rfl
    omega
  have hzero : UInt32.ofNat new.length = 0 := by
    have hcount' : h.buffers.generation + 0 =
        h.buffers.generation + UInt32.ofNat new.length := by
      rw [UInt32.add_zero, ← hcount, hgen]
    exact ((UInt32.add_right_inj _).mp hcount').symm
  have hnone : new.length = 0 := by
    have htoNat := congrArg UInt32.toNat hzero
    rw [UInt32.toNat_ofNat_of_lt' hlen] at htoNat
    exact htoNat
  rw [hnew, List.length_eq_zero_iff.mp hnone, List.nil_append]

theorem counted_length_le (hr : Reach h h') : h.counted.length ≤ h'.counted.length := by
  obtain ⟨new, hnew, -⟩ := reach_counted hr
  rw [hnew, List.length_append]
  exact Nat.le_add_left _ _

/-- Where no pass was counted, those that were completed in between are pending. -/
theorem pending_of_same_counted (hr : Reach h h')
    (hsame : h'.counted = h.counted) : h.pending <:+ h'.pending := by
  obtain ⟨new, hnew⟩ := reach_passes hr
  rw [PassLog.passes, PassLog.passes, hsame, ← List.append_assoc] at hnew
  exact ⟨new, List.append_cancel_right hnew⟩

/-- Nothing was published where no pass was counted and no more are pending. -/
theorem same_passes (hr : Reach h h') (hsame : h'.counted = h.counted)
    (hlen : h'.pending.length = h.pending.length) : h'.passes = h.passes := by
  have hpending := (pending_of_same_counted hr hsame).eq_of_length hlen.symm
  rw [PassLog.passes, PassLog.passes, hpending, hsame]

/-! ## A reader that holds the buffers -/

/-- A step of others: one that holds the buffers for copying is left alone. -/
def Aside (S : History N → History N → Prop) (h h' : History N) : Prop :=
  S h h' ∧ (h.buffers.role = .copying → h'.buffers.role = .copying)

/-- The steps `S` are steps, and a reader may take its own among them. -/
structure Rules (S : History N → History N → Prop) : Prop where
  step {h h' : History N} : S h h' → Step h h'
  claim {h : History N} : h.buffers.role = .idle → S h { h with buffers.role := .copying }
  release {h : History N} : h.buffers.role = .copying →
    S h { h with buffers := h.buffers.unclaim }

theorem step_rules : Rules (N := N) Step := ⟨fun hs => hs, .claim, .release⟩

variable {S : History N → History N → Prop}

theorem Rules.reach (hS : Rules S) (hr : Relation.ReflTransGen S h h') : Reach h h' :=
  Relation.ReflTransGen.mono (fun _ _ hs => hS.step hs) _ _ hr

theorem reach_of_aside (hr : Relation.ReflTransGen (Aside S) h h') :
    Relation.ReflTransGen S h h' :=
  Relation.ReflTransGen.mono (fun _ _ hs => hs.1) _ _ hr

/-- Held for copying, the buffers change in nothing but the generation. -/
theorem still_of_copying (hS : Rules S)
    (hr : Relation.ReflTransGen (Aside S) h h') (hcopy : h.buffers.role = .copying) :
    h'.buffers = { h.buffers with generation := h'.buffers.generation } := by
  induction hr with
  | refl => rfl
  | @tail u v _ hs ih =>
    have hrole : u.buffers.role = .copying := by
      rw [ih]
      exact hcopy
    have hheld : ∀ {r : Role}, u.buffers.role = r → r = .copying := fun hr => hr ▸ hrole
    obtain ⟨hstep, hkeeps⟩ := hs
    cases hS.step hstep with
    | begin hb => cases hheld (Buffers.begin_ok hb).1
    | setPoints _ hr | write _ hr | interrupt hr | complete hr => cases hheld hr
    | claim hr => cases hheld hr
    | release _ => cases hkeeps hrole
    | count _ =>
      exact congrArg (fun b : Buffers N => { b with generation := u.buffers.generation + 1 }) ih

/-! ## What the buffers show -/

def Shows (h : History N) (pass : Publication N) (c : Channel) : Prop :=
  pass.ShownBy h.buffers.points h.buffers.traces c

/-- The buffers show the latest pass on both channels. -/
def Intact (h : History N) : Prop :=
  ∃ pass rest, h.passes = pass :: rest ∧ ∀ c, h.Shows pass c

/-- A step with one producer, which counts a pass before it begins the next one and gives the
sweeping role up only for a completed pass. -/
structure WholeStep (h h' : History N) : Prop where
  step : Step h h'
  alone : h.buffers.role ≠ .sweeping → h'.buffers.role = .sweeping → h.pending = []
  completed : h.buffers.role = .sweeping → h'.buffers.role ≠ .sweeping → h'.passes ≠ h.passes

theorem whole_rules : Rules (N := N) WholeStep where
  step hs := hs.step
  claim hidle := ⟨.claim hidle, fun _ he => (by cases he), fun hr => (by cases hidle.symm.trans hr)⟩
  release hcopy :=
    ⟨.release hcopy, fun _ he => (by cases he), fun hr => (by cases hcopy.symm.trans hr)⟩

/-- What holds between whole passes. -/
structure Whole (h : History N) : Prop where
  pending : h.pending.length ≤ 1
  sweeping : h.buffers.role = .sweeping → h.pending = []
  intact : h.buffers.role ≠ .sweeping → h.Intact

theorem WholeStep.keeps (hs : WholeStep h h') (hw : h.Whole) : h'.Whole := by
  obtain ⟨hstep, halone, hcompleted⟩ := hs
  cases hstep with
  | begin hb =>
    obtain ⟨hidle, rfl⟩ := Buffers.begin_ok hb
    have hnone : h.pending = [] := halone (by rw [hidle]; exact nofun) rfl
    exact ⟨hw.pending, fun _ => hnone, fun hr => absurd rfl hr⟩
  | setPoints n hsweep => exact ⟨hw.pending, hw.sweeping, fun hr => absurd hsweep hr⟩
  | write t hsweep => exact ⟨hw.pending, hw.sweeping, fun hr => absurd hsweep hr⟩
  | interrupt hsweep => exact absurd rfl (hcompleted hsweep nofun)
  | complete hsweep =>
    refine ⟨?_, nofun, fun _ => ⟨_, _, rfl, fun _ => ⟨rfl, rfl⟩⟩⟩
    rw [hw.sweeping hsweep]
    exact le_rfl
  | @count later pass hlater =>
    have hpending := hw.pending
    rw [hlater, List.length_append] at hpending
    refine ⟨Nat.le_of_add_right_le hpending, fun hr => ?_, fun hr => ?_⟩
    · rw [hw.sweeping hr] at hlater
      cases later <;> cases hlater
    · obtain ⟨latest, rest, hpasses, hshows⟩ := hw.intact hr
      refine ⟨latest, rest, ?_, hshows⟩
      rw [← hpasses, PassLog.passes, PassLog.passes, hlater, List.append_assoc]
      rfl
  | claim hidle => exact ⟨hw.pending, nofun, fun _ => hw.intact (by rw [hidle]; exact nofun)⟩
  | release hcopy => exact ⟨hw.pending, nofun, fun _ => hw.intact (by rw [hcopy]; exact nofun)⟩

theorem whole_of_reach (hr : Relation.ReflTransGen WholeStep h h')
    (hw : h.Whole) : h'.Whole := by
  induction hr with
  | refl => exact hw
  | tail _ hs ih => exact hs.keeps ih

end History

end NetworkAnalyzer
