import Mathlib.Data.Option.Basic

/-!
# Schedules

Tasks and interrupts share words, and between two accesses of one of them any number of accesses
of the others may happen. A system of that kind is given by what one act does to the shared state:
`step s a` is the state after the act `a`, or nothing if the act does not belong where its party
is. A schedule lists acts in the order in which they happen, and `run` makes them. A claim about
every interleaving is then a claim about every schedule that runs.

The systems differ in how fine their acts are:

* `Pausing` and `Draining`: one access to the mode word, the mailbox or the role;
* `Interleaving`: one access to the role, the generation, the point count or an entry;
* `Tenancy`: one operation through a handle, since its results are about whole operations.

What they have in common is here:

* `run_cons`, `run_append`, `run_append_eq_some`: a run falls into the runs of its parts;
* `run_keeps`: what every act of a schedule keeps holds at its end. Acts that cannot happen, for
  instance since some party is not to issue a command, are excluded by what the schedule contains.

Relations between the two ends of a run, such as counts of certain acts, are shown by induction on
the schedule with `run_cons`.
-/

namespace NetworkAnalyzer.Schedule

variable {σ α : Type} {step : σ → α → Option σ} {s s' : σ} {a : α} {acts more : List α}

/-- Makes the acts in order. -/
def run (step : σ → α → Option σ) (s : σ) : List α → Option σ
  | [] => some s
  | a :: acts => (step s a).bind fun v => run step v acts

theorem run_cons :
    run step s (a :: acts) = some s' ↔ ∃ v, step s a = some v ∧ run step v acts = some s' := by
  rw [run, Option.bind_eq_some_iff]

theorem run_append (s : σ) (acts more : List α) :
    run step s (acts ++ more) = (run step s acts).bind fun v => run step v more := by
  induction acts generalizing s with
  | nil => rfl
  | cons a acts ih => simp only [List.cons_append, run, ih, Option.bind_assoc]

theorem run_append_eq_some : run step s (acts ++ more) = some s' ↔
    ∃ v, run step s acts = some v ∧ run step v more = some s' := by
  rw [run_append, Option.bind_eq_some_iff]

theorem run_keeps {P : σ → Prop}
    (hstep : ∀ a ∈ acts, ∀ ⦃s s'⦄, P s → step s a = some s' → P s') (hs : P s)
    (h : run step s acts = some s') : P s' := by
  induction acts generalizing s with
  | nil =>
    cases h
    exact hs
  | cons a acts ih =>
    obtain ⟨v, hv, h⟩ := run_cons.mp h
    exact ih (fun b hb => hstep b (List.mem_cons_of_mem _ hb)) (hstep a List.mem_cons_self hs hv) h

end NetworkAnalyzer.Schedule
