import Mathlib.Logic.Relation
import Mathlib.Order.Defs.Unbundled
import NetworkAnalyzer.Clock

/-!
# Successful runs

A run of a `do` block that ends without a fault is taken apart into the runs of
its steps (`Run.bind_inv` and the lemmas for single steps).

`Moves R m` says that every successful run of `m` goes from a state to an
`R`-related one. For a preorder `R` it is kept by sequencing, by branches and by
bounded waits, so a frame condition is checked once for each operation of a board
and then holds of everything that is built from them. The common relations are

* `Keeps f`: the two states agree on `f`, which is how a frame condition is stated;
* `Relation.ReflTransGen r`: some steps of `r`, which is how "the other tasks did something" is
  stated.

A wait polls a condition between readings of the clock, and what happens while it relaxes is up to
the board. That is why waits are described by `Moves`, and not by what they compute.

* `bind_inv`, `pure_inv`, `optional_inv`: steps of a successful run, and `bind_ok`, `optional_ok`:
  how they are put together again.
* `pollFor_cases`: a wait that found something moved by `R` up to the poll that
  found it; a wait that gave up moved by `R` throughout.
* `pollFor_missed`: a wait that gave up had polled in vain.
* `waitUntil_cases`: the same for a condition that only looks.
-/

namespace NetworkAnalyzer

variable {σ α β γ : Type}

namespace Run

theorem bind_inv {x : Run σ α} {f : α → Run σ β} {s : σ} {r : β × σ}
    (h : (x >>= f) s = .ok r) : ∃ a s₁, x s = .ok (a, s₁) ∧ f a s₁ = .ok r := by
  change Except.bind (x s) (fun p => f p.1 p.2) = .ok r at h
  cases hx : x s with
  | error e => rw [hx] at h; cases h
  | ok p => rw [hx] at h; exact ⟨p.1, p.2, rfl, h⟩

theorem bind_ok {x : Run σ α} {s s₁ : σ} {a : α} (f : α → Run σ β) (hx : x s = .ok (a, s₁)) :
    (x >>= f) s = f a s₁ := by
  change Except.bind (x s) (fun p => f p.1 p.2) = f a s₁
  rw [hx]; rfl

theorem pure_inv {a b : α} {s s' : σ} (h : (pure a : Run σ α) s = .ok (b, s')) :
    b = a ∧ s' = s := by
  cases h; exact ⟨rfl, rfl⟩

theorem get_bind (f : σ → Run σ β) (s : σ) : ((get : Run σ σ) >>= f) s = f s s := rfl

theorem modify_bind (g : σ → σ) (f : Unit → Run σ β) (s : σ) :
    ((modify g : Run σ Unit) >>= f) s = f () (g s) := rfl

theorem lift_inv {e : Except Fault α} {a : α} {s s' : σ}
    (h : (liftM e : Run σ α) s = .ok (a, s')) : e = .ok a ∧ s' = s := by
  cases e with
  | error f => cases h
  | ok b => cases h; exact ⟨rfl, rfl⟩

/-- A step that is made only under a condition, and what follows it. -/
theorem optional_inv {c : Prop} [Decidable c] {x : Run σ Unit} {f : Unit → Run σ α} {s : σ}
    {r : α × σ} (h : (if c then x >>= f else f ()) s = .ok r) :
    ∃ s₁, ((¬c ∧ s₁ = s) ∨ (c ∧ x s = .ok ((), s₁))) ∧ f () s₁ = .ok r := by
  split at h
  · rename_i hc
    obtain ⟨u, s₁, hx, hf⟩ := bind_inv h
    exact ⟨s₁, Or.inr ⟨hc, hx⟩, hf⟩
  · rename_i hc
    exact ⟨s, Or.inl ⟨hc, rfl⟩, h⟩

theorem optional_ok {c : Prop} [Decidable c] {x : Run σ Unit} {s s₁ : σ} (f : Unit → Run σ α)
    (h : (¬c ∧ s₁ = s) ∨ (c ∧ x s = .ok ((), s₁))) :
    (if c then x >>= f else f ()) s = f () s₁ := by
  obtain ⟨hc, rfl⟩ | ⟨hc, hx⟩ := h
  · rw [if_neg hc]
  · rw [if_pos hc, bind_ok f hx]

end Run

/-! ## Frames -/

/-- The two states agree on `f`. -/
def Keeps (f : σ → γ) (s s' : σ) : Prop := f s' = f s

instance keepsPreorder (f : σ → γ) : IsPreorder σ (Keeps f) where
  refl _ := rfl
  trans _ _ _ h₁ h₂ := Eq.trans h₂ h₁

instance reflTransGenPreorder (r : σ → σ → Prop) : IsPreorder σ (Relation.ReflTransGen r) where
  refl _ := .refl
  trans _ _ _ := .trans

/-- Every successful run of `m` ends in a state that `R` relates to the first one. -/
def Moves (R : σ → σ → Prop) (m : Run σ α) : Prop := ∀ ⦃s a s'⦄, m s = .ok (a, s') → R s s'

namespace Moves

variable {R : σ → σ → Prop} [IsPreorder σ R]

theorem pure (a : α) : Moves R (Pure.pure a : Run σ α) := by
  intro s b s' h
  obtain ⟨-, rfl⟩ := Run.pure_inv h
  exact refl_of R s'

theorem get : Moves R (MonadState.get : Run σ σ) := by
  intro s b s' h
  cases h
  exact refl_of R s

theorem lift (e : Except Fault α) : Moves R (liftM e : Run σ α) := by
  intro s b s' h
  obtain ⟨-, rfl⟩ := Run.lift_inv h
  exact refl_of R s'

omit [IsPreorder σ R] in
theorem modify {f : σ → σ} (hf : ∀ s, R s (f s)) : Moves R (modify f : Run σ Unit) := by
  intro s u s' h
  cases h
  exact hf s

theorem bind {x : Run σ α} {f : α → Run σ β} (hx : Moves R x) (hf : ∀ a, Moves R (f a)) :
    Moves R (x >>= f) := by
  intro s b s' h
  obtain ⟨a, s₁, h₁, h₂⟩ := Run.bind_inv h
  exact trans_of R (hx h₁) (hf a h₂)

omit [IsPreorder σ R] in
theorem ite {c : Prop} [Decidable c] {x y : Run σ α} (hx : Moves R x) (hy : Moves R y) :
    Moves R (if c then x else y) := by
  split
  · exact hx
  · exact hy

end Moves

/-! ## Bounded waits -/

section Waits

variable {R : σ → σ → Prop} [IsPreorder σ R] {clock : Timebase σ} {timeout : Duration}

/-- How a wait ends, when the clock and every poll that finds nothing move by `R`. -/
theorem pollFor_cases (hnow : Moves R clock.now) (hrelax : Moves R clock.relax) {start : Instant}
    {poll : Run σ (Option β)} (hmiss : ∀ ⦃s s'⦄, poll s = .ok (none, s') → R s s') :
    ∀ {polls : Nat} {s s' : σ} {r : Option β},
      pollFor clock start timeout poll polls s = .ok (r, s') →
      (r = none ∧ R s s') ∨ ∃ b s₁, r = some b ∧ R s s₁ ∧ poll s₁ = .ok (some b, s') := by
  intro polls
  induction polls with
  | zero => intro s s' r h; cases h
  | succ polls ih =>
    intro s s' r h
    unfold pollFor at h
    obtain ⟨found, s₁, hpoll, h⟩ := Run.bind_inv h
    cases found with
    | some b =>
      obtain ⟨rfl, rfl⟩ := Run.pure_inv h
      exact Or.inr ⟨b, s, rfl, refl_of R s, hpoll⟩
    | none =>
      obtain ⟨now, s₂, hn, h⟩ := Run.bind_inv h
      obtain ⟨spent, s₃, hl, h'⟩ := Run.bind_inv h
      obtain ⟨-, rfl⟩ := Run.lift_inv hl
      have h₂ : R s s₃ := trans_of R (hmiss hpoll) (hnow hn)
      split at h'
      · obtain ⟨rfl, rfl⟩ := Run.pure_inv h'
        exact Or.inl ⟨rfl, h₂⟩
      · obtain ⟨u, s₄, hr, h'⟩ := Run.bind_inv h'
        have h₄ : R s s₄ := trans_of R h₂ (hrelax hr)
        rcases ih h' with ⟨rfl, h₅⟩ | ⟨b, s₅, rfl, h₅, hb⟩
        · exact Or.inl ⟨rfl, trans_of R h₄ h₅⟩
        · exact Or.inr ⟨b, s₅, rfl, trans_of R h₄ h₅, hb⟩

omit [IsPreorder σ R] in
/-- A wait that gave up had polled in vain at its start. -/
theorem pollFor_missed {start : Instant} {poll : Run σ (Option β)} {polls : Nat} {s s' : σ}
    (h : pollFor clock start timeout poll polls s = .ok (none, s')) :
    ∃ s₁, poll s = .ok (none, s₁) := by
  cases polls with
  | zero => cases h
  | succ polls =>
    unfold pollFor at h
    obtain ⟨found, s₁, hpoll, h⟩ := Run.bind_inv h
    cases found with
    | none => exact ⟨s₁, hpoll⟩
    | some b => cases (Run.pure_inv h).1

/-- How a wait for a condition ends: it moved by `R`, up to the poll that saw the condition if
there was one. -/
theorem waitUntil_cases (hnow : Moves R clock.now) (hrelax : Moves R clock.relax)
    {ready : Run σ Bool} (hmiss : ∀ ⦃s s'⦄, ready s = .ok (false, s') → R s s') {s s' : σ}
    {seen : Bool} (h : waitUntil clock timeout ready s = .ok (seen, s')) :
    (seen = false ∧ R s s') ∨ (seen = true ∧ ∃ s₁, R s s₁ ∧ ready s₁ = .ok (true, s')) := by
  unfold waitUntil at h
  obtain ⟨found, s₁, hw, h⟩ := Run.bind_inv h
  obtain ⟨rfl, rfl⟩ := Run.pure_inv h
  unfold waitFor at hw
  obtain ⟨start, s₂, hn, hw⟩ := Run.bind_inv hw
  have hpoll : ∀ ⦃s s'⦄, (do return if ← ready then some () else none : Run σ (Option Unit)) s =
      .ok (none, s') → R s s' := by
    intro s s' h
    obtain ⟨b, s₃, hb, h⟩ := Run.bind_inv h
    obtain ⟨he, rfl⟩ := Run.pure_inv h
    cases b with
    | true => cases he
    | false => exact hmiss hb
  rcases pollFor_cases hnow hrelax hpoll hw with ⟨rfl, h₃⟩ | ⟨u, s₃, rfl, h₃, hb⟩
  · exact Or.inl ⟨rfl, trans_of R (hnow hn) h₃⟩
  · obtain ⟨b, s₄, hb, h⟩ := Run.bind_inv hb
    obtain ⟨he, rfl⟩ := Run.pure_inv h
    cases b with
    | false => cases he
    | true => exact Or.inr ⟨rfl, s₃, trans_of R (hnow hn) h₃, hb⟩

theorem Moves.waitUntil (hnow : Moves R clock.now) (hrelax : Moves R clock.relax)
    {ready : Run σ Bool} (hready : Moves R ready) :
    Moves R (NetworkAnalyzer.waitUntil clock timeout ready) := by
  unfold NetworkAnalyzer.waitUntil waitFor
  refine .bind (.bind hnow fun start => ?_) fun _ => .pure _
  intro s r s' h
  have hpoll : Moves R (do return if ← ready then some () else none : Run σ (Option Unit)) :=
    .bind hready fun _ => .pure _
  rcases pollFor_cases hnow hrelax (fun _ _ h => hpoll h) h with ⟨-, h₁⟩ | ⟨b, s₁, -, h₁, hb⟩
  · exact h₁
  · exact trans_of R h₁ (hpoll hb)

end Waits

end NetworkAnalyzer
