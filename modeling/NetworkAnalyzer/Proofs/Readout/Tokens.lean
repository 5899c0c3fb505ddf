import Mathlib.Data.List.Count
import Mathlib.Logic.Function.Basic
import NetworkAnalyzer.Proofs.Readout.OnePass
import NetworkAnalyzer.Proofs.Schedules

/-!
# Guards and snapshots

Tasks that share the buffers hold tokens: a guard for a measurement, a snapshot for a copy.
A handle is where some task keeps a token, so a task may have any number of them. `step` is
one operation through one handle, `run` any interleaving of operations.

A step needs what its operation needs: beginning and acquiring are made through an empty handle,
writing and finishing through one that holds a guard, reading and releasing through one that holds a
snapshot. An operation without its token does not exist, and is no step. A refused operation does
exist: it is a step that answers `busy`.

Each operation is one step here, also those that touch several words. What happens between the
words is in `Proofs.Readout.Interleaved`.

* `Held`: the role word says which token is alive, and a snapshot carries what the buffers
  say. `held_step` shows that every operation keeps it.
* `step_busy`: a measurement or copy that is refused changes nothing.
* `step_frozen`, `run_frozen`: as long as a snapshot lives, nothing is written.
* `step_generation`, `run_generation`: the generation counts the completed measurements.
* `exclusive`: all of it, for every run from the start.
* `exclusive_twoTasks`: one task measures three times while the other is refused, then copies.
* `Shared.acquire_steps`: a wait for a snapshot is one of these operations, after whatever
  the other tasks did. One that times out did nothing.
-/

namespace NetworkAnalyzer

/-- What a handle holds. -/
inductive Token where
  | guard
  | snapshot (t : Snapshot)
  deriving DecidableEq

/-- The buffers and the tokens that are alive. -/
structure Tenancy (N : Nat) (ι : Type) where
  buffers : Buffers N := {}
  tokens : ι → Option Token := fun _ => none

namespace Tenancy

variable {N : Nat} {ι : Type}

inductive Op (N : Nat) (ι : Type) where
  | begin (i : ι)
  | setPoints (i : ι) (points : UInt16)
  | write (i : ι) (traces : Traces Float32 N)
  | finish (i : ι) (completed : Bool)
  | dropGuard (i : ι)
  | acquire (i : ι) (c : Channel)
  | read (i : ι)
  | release (i : ι)
  | dropSnapshot (i : ι)

inductive Reply where
  | done
  | busy
  | data (points : List (Phasor Float32))
  /-- Whether no measurement completed since the snapshot was taken. -/
  | intact (whole : Bool)
  deriving DecidableEq

/-- An operation for a task without a token; with one it cannot happen. -/
def vacant (s : Tenancy N ι) (i : ι) (out : Reply × Tenancy N ι) : Option (Reply × Tenancy N ι) :=
  if s.tokens i = none then some out else none

/-- An operation of the task that has the measurement guard. -/
def guarded (s : Tenancy N ι) (i : ι) (out : Reply × Tenancy N ι) :
    Option (Reply × Tenancy N ι) :=
  if s.tokens i = some .guard then some out else none

/-- Through a handle that holds a snapshot. -/
def copying (s : Tenancy N ι) (i : ι) (out : Snapshot → Reply × Tenancy N ι) :
    Option (Reply × Tenancy N ι) :=
  match s.tokens i with
  | some (.snapshot t) => some (out t)
  | _ => none

theorem vacant_eq_some {s : Tenancy N ι} {i : ι} {out p : Reply × Tenancy N ι} :
    s.vacant i out = some p ↔ s.tokens i = none ∧ out = p := by
  simp [vacant]

theorem guarded_eq_some {s : Tenancy N ι} {i : ι} {out p : Reply × Tenancy N ι} :
    s.guarded i out = some p ↔ s.tokens i = some .guard ∧ out = p := by
  simp [guarded]

theorem copying_eq_some {s : Tenancy N ι} {i : ι} {out : Snapshot → Reply × Tenancy N ι}
    {p : Reply × Tenancy N ι} :
    s.copying i out = some p ↔ ∃ t, s.tokens i = some (.snapshot t) ∧ out t = p := by
  unfold copying
  split
  · simp_all
  · rename_i hnone
    exact ⟨fun h => (by cases h), fun ⟨t, hi, _⟩ => (hnone t hi).elim⟩

variable [DecidableEq ι]

/-- One operation. `none`: the handle does not hold what the operation needs. -/
def step (s : Tenancy N ι) : Op N ι → Option (Reply × Tenancy N ι)
  | .begin i => s.vacant i <|
    match s.buffers.begin with
    | .ok b => (.done, ⟨b, Function.update s.tokens i (some .guard)⟩)
    | .error _ => (.busy, s)
  | .setPoints i points => s.guarded i (.done, { s with buffers := s.buffers.setPoints points })
  | .write i traces => s.guarded i (.done, { s with buffers.traces := traces })
  | .finish i completed =>
    s.guarded i (.done, ⟨s.buffers.finish completed, Function.update s.tokens i none⟩)
  | .dropGuard i => s.guarded i (.done, ⟨s.buffers.unclaim, Function.update s.tokens i none⟩)
  | .acquire i c => s.vacant i <|
    match s.buffers.claim .copying with
    | (true, b) => (.done, ⟨b, Function.update s.tokens i (some (.snapshot (b.snapshot c)))⟩)
    | (false, _) => (.busy, s)
  | .read i => s.copying i fun t => (.data (s.buffers.view t), s)
  | .release i => s.copying i fun t =>
    (.intact (s.buffers.release t).1,
      ⟨(s.buffers.release t).2, Function.update s.tokens i none⟩)
  | .dropSnapshot i => s.copying i fun _ =>
    (.done, ⟨s.buffers.unclaim, Function.update s.tokens i none⟩)

/-- What an operation leaves. -/
def next (s : Tenancy N ι) (op : Op N ι) : Option (Tenancy N ι) := (s.step op).map (·.2)

theorem next_eq_some {s s' : Tenancy N ι} {op : Op N ι} :
    s.next op = some s' ↔ ∃ r, s.step op = some (r, s') := by
  simp [next]

abbrev run (s : Tenancy N ι) (ops : List (Op N ι)) : Option (Tenancy N ι) :=
  Schedule.run next s ops

/-! ## The role and the tokens -/

/-- The only token alive is `t`, in handle `i`. -/
def only (i : ι) (t : Token) : ι → Option Token := Function.update (fun _ => none) i (some t)

theorem only_eq_some {i j : ι} {t u : Token} : only i t j = some u ↔ j = i ∧ u = t := by
  unfold only
  by_cases hj : j = i
  · subst hj
    simp [eq_comm]
  · simp [hj]

theorem only_eq_none {i j : ι} {t : Token} : only i t j = none ↔ j ≠ i := by
  unfold only
  by_cases hj : j = i <;> simp [hj]

@[simp] theorem update_only (i : ι) (t : Token) :
    Function.update (only i t) i none = fun _ => none := by
  simp [only]

/-- The role word says which token is alive, and a snapshot carries what the buffers say. -/
inductive Held : Tenancy N ι → Prop
  | free {b : Buffers N} (hrole : b.role = .idle) : Held ⟨b, fun _ => none⟩
  | sweeping {b : Buffers N} (i : ι) (hrole : b.role = .sweeping) : Held ⟨b, only i .guard⟩
  | copying {b : Buffers N} (i : ι) (t : Snapshot) (hrole : b.role = .copying)
      (hgeneration : t.generation = b.generation) (hpoints : t.points = b.points) :
      Held ⟨b, only i (.snapshot t)⟩

variable {s s' v : Tenancy N ι} {op : Op N ι} {ops : List (Op N ι)} {r : Reply} {i : ι}
  {t : Snapshot}

theorem held_start : Held ({} : Tenancy N ι) := .free rfl

theorem Held.guard (h : Held s) (hi : s.tokens i = some .guard) :
    s.buffers.role = .sweeping ∧ s.tokens = only i .guard := by
  cases h with
  | free => cases hi
  | sweeping j hrole =>
    obtain ⟨rfl, -⟩ := only_eq_some.mp hi
    exact ⟨hrole, rfl⟩
  | copying j t hrole =>
    obtain ⟨-, he⟩ := only_eq_some.mp hi
    cases he

theorem Held.snapshot (h : Held s) (hi : s.tokens i = some (.snapshot t)) :
    s.buffers.role = .copying ∧ s.tokens = only i (.snapshot t) ∧
      t.generation = s.buffers.generation ∧ t.points = s.buffers.points := by
  cases h with
  | free => cases hi
  | sweeping j hrole =>
    obtain ⟨-, he⟩ := only_eq_some.mp hi
    cases he
  | copying j u hrole hgeneration hpoints =>
    obtain ⟨rfl, he⟩ := only_eq_some.mp hi
    cases he
    exact ⟨hrole, rfl, hgeneration, hpoints⟩

theorem Held.idle (h : Held s) (hrole : s.buffers.role = .idle) : s.tokens = fun _ => none := by
  cases h with
  | free => rfl
  | sweeping _ h => cases hrole.symm.trans h
  | copying _ _ h => cases hrole.symm.trans h

/-! ## One operation -/

/-- What an operation through a handle does to the role, the buffers and the handle. -/
inductive Took (s : Tenancy N ι) : Op N ι → Reply → Tenancy N ι → Prop
  | beginBusy (i : ι) (hrole : s.buffers.role ≠ .idle) : Took s (.begin i) .busy s
  | acquireBusy (i : ι) (c : Channel) (hrole : s.buffers.role ≠ .idle) :
      Took s (.acquire i c) .busy s
  | begin (i : ι) (hrole : s.buffers.role = .idle) :
      Took s (.begin i) .done
        ⟨{ s.buffers with role := .sweeping }, Function.update s.tokens i (some .guard)⟩
  | setPoints {i : ι} (hi : s.tokens i = some .guard) (n : UInt16) :
      Took s (.setPoints i n) .done { s with buffers.points := n }
  | write {i : ι} (hi : s.tokens i = some .guard) (u : Traces Float32 N) :
      Took s (.write i u) .done { s with buffers.traces := u }
  | finish {i : ι} (hi : s.tokens i = some .guard) (completed : Bool) :
      Took s (.finish i completed) .done
        ⟨s.buffers.finish completed, Function.update s.tokens i none⟩
  | dropGuard {i : ι} (hi : s.tokens i = some .guard) :
      Took s (.dropGuard i) .done ⟨s.buffers.unclaim, Function.update s.tokens i none⟩
  | acquire (i : ι) (c : Channel) (hrole : s.buffers.role = .idle) :
      Took s (.acquire i c) .done
        ⟨{ s.buffers with role := .copying },
          Function.update s.tokens i (some (.snapshot (s.buffers.snapshot c)))⟩
  | read {i : ι} {t : Snapshot} (hi : s.tokens i = some (.snapshot t)) :
      Took s (.read i) (.data (s.buffers.view t)) s
  | release {i : ι} {t : Snapshot} (hi : s.tokens i = some (.snapshot t)) :
      Took s (.release i) (.intact (s.buffers.generation == t.generation))
        ⟨s.buffers.unclaim, Function.update s.tokens i none⟩
  | dropSnapshot {i : ι} {t : Snapshot} (hi : s.tokens i = some (.snapshot t)) :
      Took s (.dropSnapshot i) .done ⟨s.buffers.unclaim, Function.update s.tokens i none⟩

theorem step_took (h : s.step op = some (r, s')) : Took s op r s' := by
  cases op with
  | begin i =>
    obtain ⟨-, h⟩ := vacant_eq_some.mp h
    by_cases hrole : s.buffers.role = .idle
    · simp only [Buffers.begin, Buffers.claim, if_pos hrole] at h
      cases h
      exact .begin i hrole
    · simp only [Buffers.begin, Buffers.claim, if_neg hrole] at h
      cases h
      exact .beginBusy i hrole
  | acquire i c =>
    obtain ⟨-, h⟩ := vacant_eq_some.mp h
    by_cases hrole : s.buffers.role = .idle
    · simp only [Buffers.claim, if_pos hrole] at h
      cases h
      exact .acquire i c hrole
    · simp only [Buffers.claim, if_neg hrole] at h
      cases h
      exact .acquireBusy i c hrole
  | setPoints i n =>
    obtain ⟨hi, ⟨⟩⟩ := guarded_eq_some.mp h
    exact .setPoints hi n
  | write i u =>
    obtain ⟨hi, ⟨⟩⟩ := guarded_eq_some.mp h
    exact .write hi u
  | finish i completed =>
    obtain ⟨hi, ⟨⟩⟩ := guarded_eq_some.mp h
    exact .finish hi completed
  | dropGuard i =>
    obtain ⟨hi, ⟨⟩⟩ := guarded_eq_some.mp h
    exact .dropGuard hi
  | read i =>
    obtain ⟨t, hi, ⟨⟩⟩ := copying_eq_some.mp h
    exact .read hi
  | release i =>
    obtain ⟨t, hi, ⟨⟩⟩ := copying_eq_some.mp h
    exact .release hi
  | dropSnapshot i =>
    obtain ⟨t, hi, ⟨⟩⟩ := copying_eq_some.mp h
    exact .dropSnapshot hi

theorem step_refused (hi : s.tokens i = none) (hrole : s.buffers.role ≠ .idle) :
    s.step (.begin i) = some (.busy, s) ∧ ∀ c, s.step (.acquire i c) = some (.busy, s) := by
  refine ⟨vacant_eq_some.mpr ⟨hi, ?_⟩, fun c => vacant_eq_some.mpr ⟨hi, ?_⟩⟩
  · simp only [Buffers.begin, Buffers.claim, if_neg hrole]
  · simp only [Buffers.claim, if_neg hrole]

theorem held_step (hs : Held s) (h : s.step op = some (r, s')) : Held s' := by
  cases step_took h with
  | beginBusy | acquireBusy | read => exact hs
  | begin i hrole =>
    rw [hs.idle hrole]
    exact .sweeping i rfl
  | acquire i c hrole =>
    rw [hs.idle hrole]
    exact .copying i _ rfl rfl rfl
  | setPoints hi n | write hi u =>
    obtain ⟨hrole, htokens⟩ := hs.guard hi
    rw [htokens]
    exact .sweeping _ hrole
  | finish hi completed =>
    rw [(hs.guard hi).2, update_only]
    refine .free ?_
    cases completed <;> rfl
  | dropGuard hi =>
    rw [(hs.guard hi).2, update_only]
    exact .free rfl
  | release hi | dropSnapshot hi =>
    rw [(hs.snapshot hi).2.1, update_only]
    exact .free rfl

/-- While a snapshot lives, other operations leave the buffers and the snapshot as they are. -/
theorem step_frozen (hs : Held s) (hi : s.tokens i = some (.snapshot t))
    (hrelease : op ≠ .release i) (hdrop : op ≠ .dropSnapshot i) (h : s.step op = some (r, s')) :
    s' = s := by
  obtain ⟨hrole, htokens, -⟩ := hs.snapshot hi
  cases step_took h with
  | beginBusy | acquireBusy | read => rfl
  | begin _ hidle | acquire _ _ hidle => cases hrole.symm.trans hidle
  | setPoints hj _ | write hj _ | finish hj _ | dropGuard hj =>
    cases hrole.symm.trans (hs.guard hj).1
  | release hj | dropSnapshot hj =>
    rw [htokens] at hj
    obtain ⟨rfl, -⟩ := only_eq_some.mp hj
    contradiction

/-- Whether an operation completes a measurement. -/
def Op.completes : Op N ι → Bool
  | .finish _ completed => completed
  | _ => false

/-- Completing a measurement counts it, and nothing else changes the count. -/
theorem step_generation (h : s.step op = some (r, s')) :
    s'.buffers.generation = s.buffers.generation + if op.completes then 1 else 0 := by
  cases step_took h with
  | finish hi completed => cases completed <;> simp [Buffers.finish, Buffers.unclaim, Op.completes]
  | _ => simp [Op.completes, Buffers.unclaim]

/-! ## Any interleaving -/

theorem run_held (hs : Held s) (h : s.run ops = some s') : Held s' := by
  refine Schedule.run_keeps (fun op _ s s' hs hnext => ?_) hs h
  obtain ⟨r, hstep⟩ := next_eq_some.mp hnext
  exact held_step hs hstep

/-- As long as a snapshot lives, nothing changes. -/
theorem run_frozen (hs : Held s) (hi : s.tokens i = some (.snapshot t))
    (hlives : ∀ op ∈ ops, op ≠ .release i ∧ op ≠ .dropSnapshot i) (h : s.run ops = some s') :
    s' = s := by
  refine Schedule.run_keeps (P := (· = s)) (fun op hop u u' hu hnext => ?_) rfl h
  obtain ⟨r, hstep⟩ := next_eq_some.mp hnext
  obtain ⟨hrelease, hdrop⟩ := hlives op hop
  rw [hu] at hstep
  exact step_frozen hs hi hrelease hdrop hstep

theorem run_generation (h : s.run ops = some s') :
    s'.buffers.generation = s.buffers.generation + UInt32.ofNat (ops.countP Op.completes) := by
  induction ops generalizing s with
  | nil =>
    cases h
    simp
  | cons op ops ih =>
    obtain ⟨v, hnext, h⟩ := Schedule.run_cons.mp h
    obtain ⟨r, hstep⟩ := next_eq_some.mp hnext
    rw [ih h, step_generation hstep, List.countP_cons, UInt32.add_assoc, Nat.add_comm,
      UInt32.ofNat_add]
    split <;> rfl

theorem Held.alive (hs : Held s) (hi : s.tokens i ≠ none) :
    s.buffers.role ≠ .idle ∧ ∃ t, s.tokens = only i t := by
  cases hs with
  | free => exact absurd rfl hi
  | sweeping j hrole =>
    obtain rfl := Decidable.not_not.mp (mt only_eq_none.mpr hi)
    exact ⟨by rw [hrole]; decide, _, rfl⟩
  | copying j t hrole =>
    obtain rfl := Decidable.not_not.mp (mt only_eq_none.mpr hi)
    exact ⟨by rw [hrole]; decide, _, rfl⟩

theorem Held.role (hs : Held s) :
    (s.buffers.role = .idle ↔ ∀ i, s.tokens i = none) ∧
      (s.buffers.role = .sweeping ↔ ∃ i, s.tokens i = some .guard) ∧
      (s.buffers.role = .copying ↔ ∃ i t, s.tokens i = some (.snapshot t)) := by
  cases hs with
  | free hrole => simp [hrole]
  | sweeping i hrole => simp [hrole, only_eq_some, only_eq_none]
  | copying i t hrole => simp [hrole, only_eq_some, only_eq_none]

theorem step_busy (h : s.step op = some (.busy, s')) : s' = s ∧ s.buffers.role ≠ .idle := by
  cases step_took h with
  | beginBusy _ hrole | acquireBusy _ _ hrole => exact ⟨rfl, hrole⟩

/-- After any interleaving of operations by any number of tasks, at most one token is alive
and the role word says which kind it is. While a snapshot lives, the buffers stay as they are
whatever the other tasks do, so every read gives the same points. A measurement or copy is
refused exactly when a token is alive, and changes nothing then. The generation counts the
completed measurements, and no other operation changes it. -/
theorem exclusive (h : ({} : Tenancy N ι).run ops = some s) :
    (∀ i j, s.tokens i ≠ none → s.tokens j ≠ none → i = j) ∧
    (s.buffers.role = .idle ↔ ∀ i, s.tokens i = none) ∧
    (s.buffers.role = .sweeping ↔ ∃ i, s.tokens i = some .guard) ∧
    (s.buffers.role = .copying ↔ ∃ i t, s.tokens i = some (.snapshot t)) ∧
    (∀ i t, s.tokens i = some (.snapshot t) →
      t.generation = s.buffers.generation ∧ t.points = s.buffers.points ∧
      (∀ j u, s.step (.write j u) = none) ∧
      ∀ more s', s.run more = some s' →
        (∀ op ∈ more, op ≠ .release i ∧ op ≠ .dropSnapshot i) →
        s'.tokens i = some (.snapshot t) ∧ s'.buffers = s.buffers ∧
          s'.step (.read i) = some (.data (s.buffers.view t), s')) ∧
    (∀ op s', s.step op = some (.busy, s') → s' = s) ∧
    (∀ i, s.tokens i = none → (∃ j, s.tokens j ≠ none) →
      s.step (.begin i) = some (.busy, s) ∧ ∀ c, s.step (.acquire i c) = some (.busy, s)) ∧
    s.buffers.generation = UInt32.ofNat (ops.countP Op.completes) ∧
    ∀ op r s', s.step op = some (r, s') → (∀ i, op ≠ .finish i true) →
      s'.buffers.generation = s.buffers.generation := by
  have hs : Held s := run_held held_start h
  obtain ⟨hidle, hsweeping, hcopying⟩ := hs.role
  refine ⟨?_, hidle, hsweeping, hcopying, ?_, fun op s' hbusy => (step_busy hbusy).1, ?_, ?_, ?_⟩
  · intro i j hi hj
    obtain ⟨-, t, htokens⟩ := hs.alive hi
    rw [htokens] at hj
    exact (Decidable.not_not.mp (mt only_eq_none.mpr hj)).symm
  · intro i t hi
    obtain ⟨hrole, -, hgeneration, hpoints⟩ := hs.snapshot hi
    refine ⟨hgeneration, hpoints, ?_, ?_⟩
    · intro j u
      rw [Option.eq_none_iff_forall_ne_some]
      intro p hp
      obtain ⟨hj, -⟩ := guarded_eq_some.mp hp
      cases hrole.symm.trans (hs.guard hj).1
    · intro more s' hmore hlives
      obtain rfl := run_frozen hs hi hlives hmore
      exact ⟨hi, rfl, copying_eq_some.mpr ⟨t, hi, rfl⟩⟩
  · rintro i hi ⟨j, hj⟩
    exact step_refused hi (hs.alive hj).1
  · rw [run_generation h]
    exact UInt32.zero_add _
  · intro op r s' hstep hother
    rw [step_generation hstep]
    have hnot : op.completes = false := by
      cases op with
      | finish i completed =>
        cases completed with
        | true => exact absurd rfl (hother i)
        | false => rfl
      | _ => rfl
    simp [hnot]

/-- Two tasks: one measures three times and completes one pass, the other is refused, then
copies while the first is refused. -/
theorem exclusive_twoTasks :
    ∃ s : Tenancy 2 Bool, ({} : Tenancy 2 Bool).run
        [.begin false, .setPoints false 1, .acquire true .s11, .finish false true, .begin false,
          .finish false false, .begin false, .dropGuard false, .acquire true .s21,
          .begin false] = some s ∧
      s.tokens true = some (.snapshot ⟨.s21, 1, 1⟩) ∧ s.tokens false = none ∧
      s.buffers.generation = 1 ∧ s.step (.begin false) = some (.busy, s) := by
  obtain ⟨s, hrun, htrue, hfalse⟩ : ∃ s : Tenancy 2 Bool, ({} : Tenancy 2 Bool).run
      [.begin false, .setPoints false 1, .acquire true .s11, .finish false true, .begin false,
        .finish false false, .begin false, .dropGuard false, .acquire true .s21,
        .begin false] = some s ∧ s.tokens true = some (.snapshot ⟨.s21, 1, 1⟩) ∧
        s.tokens false = none := ⟨_, rfl, rfl, rfl⟩
  obtain ⟨-, -, -, -, -, -, hrefused, hgeneration, -⟩ := exclusive hrun
  exact ⟨s, hrun, htrue, hfalse, hgeneration,
    (hrefused false hfalse ⟨true, by simp [htrue]⟩).1⟩

end Tenancy

/-! ## Waiting for a snapshot -/

namespace Shared

open Tenancy

variable {N : Nat} {ε ι : Type} [DecidableEq ι] {tokens : ε → ι → Option Token}
  {clock : Timebase (Shared N ε)} {w w' : Shared N ε}

def tenancy (tokens : ε → ι → Option Token) (w : Shared N ε) : Tenancy N ι :=
  ⟨w.buffers, tokens w.environment⟩

/-- The other tasks ran operations, and nothing else happened to the buffers. -/
def Ran (tokens : ε → ι → Option Token) (w w' : Shared N ε) : Prop :=
  ∃ ops, (w.tenancy tokens).run ops = some (w'.tenancy tokens)

instance : IsPreorder (Shared N ε) (Ran tokens) where
  refl _ := ⟨[], rfl⟩
  trans _ _ _ := by
    rintro ⟨ops, h⟩ ⟨more, h'⟩
    exact ⟨ops ++ more, Schedule.run_append_eq_some.mpr ⟨_, h, h'⟩⟩

/-- A wait for a snapshot that times out did nothing. One that succeeds is the operation
`acquire`, after operations of the other tasks. -/
theorem acquire_steps (hnow : Moves (Ran tokens) clock.now)
    (hrelax : Moves (Ran tokens) clock.relax)
    {c : Channel} {timeout : Duration} {r : Except Failure Snapshot}
    (h : acquire clock c timeout w = .ok (r, w')) :
    (r = .error .resourceBusy ∧ Ran tokens w w') ∨
      ∃ t v, r = .ok t ∧ Ran tokens w v ∧ w'.environment = v.environment ∧
        ∀ i, tokens v.environment i = none → (v.tenancy tokens).step (.acquire i c) =
          some (.done, ⟨w'.buffers,
            Function.update (tokens v.environment) i (some (.snapshot t))⟩) := by
  obtain hbusy | ⟨v, rfl, hv, hidle, rfl⟩ := acquire_cases hnow hrelax h
  · exact Or.inl hbusy
  · refine Or.inr ⟨_, v, rfl, hv, rfl, fun i hi => vacant_eq_some.mpr ⟨hi, ?_⟩⟩
    have hidle' : (v.tenancy tokens).buffers.role = .idle := hidle
    simp only [Buffers.claim, if_pos hidle']
    rfl

end Shared

end NetworkAnalyzer
