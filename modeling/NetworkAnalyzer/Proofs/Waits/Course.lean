import Mathlib.Algebra.Group.Nat.Defs
import NetworkAnalyzer.Proofs.Runs

/-!
# The course of a bounded wait

A wait polls, reads the clock and gives the core up, round after round. `Wait.Course` says at
which states it does so, in which round. What the wait relies on is `Wait.Steady`: along this
course the clock answers, never goes back, moves on by a tick or more whenever the core is given
up, and stays within `2 ^ 63` ticks of the entry, the range in which a difference of two instants
is a duration. Instants wrap, so the clock may pass `2 ^ 64` meanwhile.

All of this is asked along the course only. A poll may do anything, also to the clock, and another
state of the board need not have a clock at all. The course follows the program: a round ends if
its poll found something or if the clock shows that the timeout has passed, and each round begins
where the one before gave the core up.

The number of rounds is bounded by the ticks of the timeout, not by the program. The definition of
a wait repeats its round as often as it is told; `Wait.ends` shows that this many is always enough.

* `Wait.Course.paced`: in round `n` the clock has moved on by `n` ticks, and `n` is at most the
  timeout in ticks.
* `Wait.ends`: a wait on a steady clock returns. It found something in its last poll, or the
  clock showed that the whole timeout has passed (`Wait.Ended`).
* `Wait.Ended.polls`: it polled at least once, and at most once more than the timeout has ticks.
* `Wait.Ended.of_found`: a poll that finds something is the last one.
* `Wait.Ended.tally`: the rounds of the course are the polls that the program makes.
* `Wait.Steady.of_time`: a clock that shows a time which never goes back, and which moves on
  whenever the core is given up, is steady as long as the wait does not outrun it.
-/

namespace NetworkAnalyzer

variable {σ α β : Type}

/-- A clock within its range tells the time since the entry. -/
theorem elapsed_of_lt {now start : Instant} (h : (now - start).toNat < 2 ^ 63) :
    elapsed now start = .ok (now - start) := by
  unfold elapsed
  rw [if_pos]
  rw [UInt64.le_iff_toNat_le]
  simpa using Nat.le_of_lt_succ h

def observed (ready : Run σ Bool) : Run σ (Option Unit) := do
  return if ← ready then some () else none

theorem observed_of_ready {ready : Run σ Bool} {v v' : σ} {holds : Bool}
    (h : ready v = .ok (holds, v')) :
    observed ready v = .ok (if holds then some () else none, v') := by
  unfold observed
  rw [Run.bind_ok _ h]
  rfl

theorem observed_inv {ready : Run σ Bool} {v v' : σ} {found : Option Unit}
    (h : observed ready v = .ok (found, v')) : ready v = .ok (found.isSome, v') := by
  unfold observed at h
  obtain ⟨holds, v₁, hready, h⟩ := Run.bind_inv h
  obtain ⟨rfl, rfl⟩ := Run.pure_inv h
  rw [hready]
  cases holds <;> rfl

/-- A wait, and the state it is entered at. -/
structure Wait (σ β : Type) where
  clock : Timebase σ
  timeout : Duration
  poll : Run σ (Option β)
  entry : σ

namespace Wait

/-- What a wait does next. -/
inductive Stage where
  | poll
  | read
  | relax
  deriving DecidableEq

/-- The course of a wait that the clock showed `start` to: what it does next, after how many
polls, reads and rests, and at which state. -/
inductive Course (x : Wait σ β) (start : Instant) : Stage → Nat → σ → Prop where
  | entered {v : σ} (hnow : x.clock.now x.entry = .ok (start, v)) : Course x start .poll 0 v
  | missed {n : Nat} {v v' : σ} (h : Course x start .poll n v)
      (hpoll : x.poll v = .ok (none, v')) : Course x start .read n v'
  | early {n : Nat} {v v' : σ} {t : Instant} (h : Course x start .read n v)
      (hnow : x.clock.now v = .ok (t, v')) (ht : t - start < x.timeout) :
      Course x start .relax n v'
  | relaxed {n : Nat} {v v' : σ} (h : Course x start .relax n v)
      (hrelax : x.clock.relax v = .ok ((), v')) : Course x start .poll (n + 1) v'

/-- The clock as the wait meets it; `age` is the time since the entry. A reading shows a time
between the moments at which it is asked for and given. -/
structure Steady (x : Wait σ β) (age : σ → Nat) : Prop where
  enters : ∃ start v, x.clock.now x.entry = .ok (start, v)
  reads : ∀ ⦃start n v⦄, x.Course start .read n v → ∃ t v', x.clock.now v = .ok (t, v') ∧
    age v ≤ (t - start).toNat ∧ (t - start).toNat ≤ age v' ∧ (t - start).toNat < 2 ^ 63
  relaxes : ∀ ⦃start n v⦄, x.Course start .relax n v →
    ∃ v', x.clock.relax v = .ok ((), v') ∧ age v < age v'

/-- Every poll returns, and one in vain takes its time. -/
def Answers (x : Wait σ β) (age : σ → Nat) : Prop :=
  ∀ ⦃start n v⦄, x.Course start .poll n v →
    (∃ v', x.poll v = .ok (none, v') ∧ age v ≤ age v') ∨ ∃ b v', x.poll v = .ok (some b, v')

/-- How a wait ended, with how many polls: in the last one it found something, or all of them
were in vain and the clock then showed that the timeout has passed. -/
inductive Ended (x : Wait σ β) : Nat → Option β → σ → Prop where
  | found {start : Instant} {n : Nat} {v v' : σ} {b : β} (h : x.Course start .poll n v)
      (hpoll : x.poll v = .ok (some b, v')) : Ended x (n + 1) (some b) v'
  | expired {start t : Instant} {n : Nat} {v v' : σ} (h : x.Course start .read n v)
      (hnow : x.clock.now v = .ok (t, v')) (ht : x.timeout ≤ t - start) : Ended x (n + 1) none v'

variable {x : Wait σ β} {age : σ → Nat} {start : Instant} {stage : Stage} {n : Nat} {v v' : σ}

/-! ## The number of polls -/

/-- In round `n` the clock has moved on by `n` ticks, within the timeout. -/
theorem Course.paced (hsteady : x.Steady age) (hanswers : x.Answers age)
    (h : x.Course start stage n v) :
    n ≤ age v ∧ n ≤ x.timeout.toNat ∧ (stage = .relax → n < x.timeout.toNat) := by
  induction h with
  | entered => exact ⟨Nat.zero_le _, Nat.zero_le _, nofun⟩
  | missed h hpoll ih =>
    obtain ⟨v', hanswer, hage⟩ | ⟨b, v', hanswer⟩ := hanswers h
    · rw [hpoll] at hanswer
      cases hanswer
      exact ⟨Nat.le_trans ih.1 hage, ih.2.1, nofun⟩
    · rw [hpoll] at hanswer
      cases hanswer
  | early h hnow ht ih =>
    obtain ⟨t', v', hread, hasked, hgiven, -⟩ := hsteady.reads h
    rw [hnow] at hread
    cases hread
    have hlt := UInt64.lt_iff_toNat_lt.mp ht
    exact ⟨by omega, by omega, fun _ => by omega⟩
  | relaxed h hrelax ih =>
    obtain ⟨v', hrest, hage⟩ := hsteady.relaxes h
    rw [hrelax] at hrest
    cases hrest
    exact ⟨by omega, ih.2.2 rfl, nofun⟩

theorem Ended.polls {polls : Nat} {r : Option β} (hsteady : x.Steady age)
    (hanswers : x.Answers age) (h : x.Ended polls r v) :
    1 ≤ polls ∧ polls ≤ x.timeout.toNat + 1 := by
  cases h with
  | found h | expired h =>
    have := (h.paced hsteady hanswers).2.1
    omega

theorem pollFor_ends (hsteady : x.Steady age) (hanswers : x.Answers age) {patience : Nat} :
    ∀ {n : Nat} {v : σ}, x.Course start .poll n v → x.timeout.toNat < n + patience →
      ∃ polls r w', pollFor x.clock start x.timeout x.poll patience v = .ok (r, w') ∧
        x.Ended polls r w' := by
  induction patience with
  | zero =>
    intro n v h hpatience
    have := (h.paced hsteady hanswers).2.1
    omega
  | succ patience ih =>
    intro n v h hpatience
    unfold pollFor
    obtain ⟨v₁, hpoll, -⟩ | ⟨b, v₁, hpoll⟩ := hanswers h
    · have hread := h.missed hpoll
      obtain ⟨t, v₂, hnow, -, -, hrange⟩ := hsteady.reads hread
      rw [Run.bind_ok _ hpoll]
      dsimp only
      rw [Run.bind_ok _ hnow, elapsed_of_lt hrange]
      change ∃ polls r w', (if x.timeout ≤ t - start then _ else _ : Run σ (Option β)) v₂ = _ ∧ _
      split
      · rename_i ht
        exact ⟨n + 1, none, v₂, rfl, .expired hread hnow ht⟩
      · rename_i ht
        have hrelax := hread.early hnow (UInt64.not_le.mp ht)
        obtain ⟨v₃, hrest, -⟩ := hsteady.relaxes hrelax
        rw [Run.bind_ok _ hrest]
        exact ih (hrelax.relaxed hrest) (by omega)
    · rw [Run.bind_ok _ hpoll]
      exact ⟨n + 1, some b, v₁, rfl, .found h hpoll⟩

theorem ends (hsteady : x.Steady age) (hanswers : x.Answers age) :
    ∃ polls r w', waitFor x.clock x.timeout x.poll x.entry = .ok (r, w') ∧ x.Ended polls r w' := by
  obtain ⟨start, v, hnow⟩ := hsteady.enters
  unfold waitFor
  rw [Run.bind_ok _ hnow]
  refine pollFor_ends hsteady hanswers (.entered hnow) ?_
  have := x.timeout.toNat_lt
  unfold patience
  omega

/-! ## The last poll -/

/-- The course of a wait is one: what it does in a round, it does at one state. -/
theorem Course.unique {u : σ} (hv : x.Course start stage n v) :
    ∀ {start'}, x.Course start' stage n u → start' = start ∧ u = v := by
  induction hv generalizing u with
  | entered hnow =>
    intro start' hu
    cases hu with
    | entered hnow' =>
      rw [hnow] at hnow'
      cases hnow'
      exact ⟨rfl, rfl⟩
  | missed h hpoll ih =>
    intro start' hu
    cases hu with
    | missed h' hpoll' =>
      obtain ⟨rfl, rfl⟩ := ih h'
      rw [hpoll] at hpoll'
      cases hpoll'
      exact ⟨rfl, rfl⟩
  | early h hnow ht ih =>
    intro start' hu
    cases hu with
    | early h' hnow' =>
      obtain ⟨rfl, rfl⟩ := ih h'
      rw [hnow] at hnow'
      cases hnow'
      exact ⟨rfl, rfl⟩
  | relaxed h hrelax ih =>
    intro start' hu
    cases hu with
    | relaxed h' hrelax' =>
      obtain ⟨rfl, rfl⟩ := ih h'
      rw [hrelax] at hrelax'
      cases hrelax'
      exact ⟨rfl, rfl⟩

theorem Course.before (h : x.Course start stage n v) {m : Nat} (hm : m < n) :
    ∃ u, x.Course start .relax m u := by
  induction h with
  | entered => omega
  | missed _ _ ih | early _ _ _ ih => exact ih hm
  | relaxed h _ ih =>
    obtain hm | rfl := Nat.lt_succ_iff_lt_or_eq.mp hm
    · exact ih hm
    · exact ⟨_, h⟩

/-- Before a wait reads the clock it polled in vain. -/
theorem Course.polled (h : x.Course start .read n v) :
    ∃ u, x.Course start .poll n u ∧ x.poll u = .ok (none, v) := by
  cases h with
  | missed h hpoll => exact ⟨_, h, hpoll⟩

/-- A round that was reached had every earlier poll in vain, and the clock within the timeout. -/
theorem Course.vain (h : x.Course start stage n v) {m : Nat} (hm : m < n) :
    ∃ u u' t u'', x.Course start .poll m u ∧ x.poll u = .ok (none, u') ∧
      x.clock.now u' = .ok (t, u'') ∧ t - start < x.timeout := by
  obtain ⟨u, hrelax⟩ := h.before hm
  cases hrelax with
  | early hread hnow ht =>
    obtain ⟨u, hpoll, hmiss⟩ := hread.polled
    exact ⟨u, _, _, _, hpoll, hmiss, hnow, ht⟩

/-- A poll that finds something is the last one, and its answer is the answer of the wait. -/
theorem Ended.of_found {polls : Nat} {r : Option β} {b : β} {w' : σ} (h : x.Ended polls r w')
    (hpoll : x.Course start .poll n v) (hfound : x.poll v = .ok (some b, v')) :
    polls = n + 1 ∧ r = some b ∧ w' = v' := by
  -- A poll in vain in round `n` would be this very poll.
  have hnot : ∀ {start' u u'}, x.Course start' .poll n u → x.poll u ≠ .ok (none, u') := by
    intro start' u u' hu hmiss
    obtain ⟨-, rfl⟩ := hpoll.unique hu
    rw [hfound] at hmiss
    cases hmiss
  cases h with
  | @found start' m u _ _ h hlast =>
    obtain hlt | rfl | hgt := Nat.lt_trichotomy m n
    · obtain ⟨u', u'', -, -, hu, hmiss, -⟩ := hpoll.vain hlt
      obtain ⟨-, rfl⟩ := h.unique hu
      rw [hlast] at hmiss
      cases hmiss
    · obtain ⟨-, rfl⟩ := hpoll.unique h
      rw [hfound] at hlast
      cases hlast
      exact ⟨rfl, rfl, rfl⟩
    · obtain ⟨u', u'', -, -, hu, hmiss, -⟩ := h.vain hgt
      exact absurd hmiss (hnot hu)
  | @expired start' t m u _ h hnow ht =>
    obtain ⟨u₀, hu₀, hmiss₀⟩ := h.polled
    obtain hlt | rfl | hgt := Nat.lt_trichotomy m n
    · obtain ⟨u', u'', t', _, hu, hmiss, hnow', ht'⟩ := hpoll.vain hlt
      obtain ⟨rfl, rfl⟩ := hu₀.unique hu
      rw [hmiss₀] at hmiss
      cases hmiss
      rw [hnow] at hnow'
      cases hnow'
      exact absurd ht' (UInt64.not_lt.mpr ht)
    · exact absurd hmiss₀ (hnot hu₀)
    · obtain ⟨u', u'', -, -, hu, hmiss, -⟩ := h.vain hgt
      exact absurd hmiss (hnot hu)

/-- The polls are those that the program makes: a tally that each of them raises by one, and that
the clock leaves alone, counts them. -/
theorem Ended.tally {tally : σ → Nat} {polls : Nat} {r : Option β} {w' : σ}
    (hpoll : ∀ {v r v'}, x.poll v = .ok (r, v') → tally v' = tally v + 1)
    (hnow : Moves (Keeps tally) x.clock.now) (hrelax : Moves (Keeps tally) x.clock.relax)
    (h : x.Ended polls r w') : tally w' = tally x.entry + polls := by
  have hcourse : ∀ {start stage n v}, x.Course start stage n v →
      tally v = tally x.entry + (if stage = .poll then n else n + 1) := by
    intro start stage n v h
    induction h with
    | entered h => exact hnow h
    | missed _ h ih =>
      rw [hpoll h, ih]
      rfl
    | early _ h _ ih => exact (hnow h).trans ih
    | relaxed _ h ih => exact (hrelax h).trans ih
  cases h with
  | found h hlast =>
    rw [hpoll hlast, hcourse h]
    rfl
  | expired h hlast ht => exact (hnow hlast).trans (hcourse h)

/-! ## Clocks that count -/

/-- The difference of two instants within the range, however often the clock wrapped. -/
theorem toNat_ofNat_sub {a b : Nat} (hle : a ≤ b) (hlt : b < a + 2 ^ 63) :
    (UInt64.ofNat b - UInt64.ofNat a).toNat = b - a := by
  rw [UInt64.toNat_sub, UInt64.toNat_ofNat', UInt64.toNat_ofNat']
  omega

/-- A clock that shows a time which never goes back, and which moves on whenever the core is
given up, is steady for every wait that it does not outrun. -/
theorem Steady.of_time (time : σ → Nat)
    (hnow : ∀ v, ∃ v', x.clock.now v = .ok (UInt64.ofNat (time v), v') ∧ time v ≤ time v')
    (hrelax : ∀ v, ∃ v', x.clock.relax v = .ok ((), v') ∧ time v < time v')
    (hmiss : ∀ {v v'}, x.poll v = .ok (none, v') → time v ≤ time v')
    (hrange : ∀ {start n v}, x.Course start .read n v → time v < time x.entry + 2 ^ 63) :
    x.Steady fun v => time v - time x.entry := by
  have hcourse : ∀ {start stage n v}, x.Course start stage n v →
      start = UInt64.ofNat (time x.entry) ∧ time x.entry ≤ time v := by
    intro start stage n v h
    induction h with
    | entered hstart =>
      obtain ⟨v', hread, hle⟩ := hnow x.entry
      rw [hstart] at hread
      cases hread
      exact ⟨rfl, hle⟩
    | missed _ hpoll ih => exact ⟨ih.1, Nat.le_trans ih.2 (hmiss hpoll)⟩
    | @early _ v _ _ _ hread _ ih =>
      obtain ⟨v', hread', hle⟩ := hnow v
      rw [hread] at hread'
      cases hread'
      exact ⟨ih.1, Nat.le_trans ih.2 hle⟩
    | @relaxed _ v _ _ hrest ih =>
      obtain ⟨v', hrest', hlt⟩ := hrelax v
      rw [hrest] at hrest'
      cases hrest'
      exact ⟨ih.1, Nat.le_trans ih.2 (Nat.le_of_lt hlt)⟩
  refine ⟨?_, ?_, ?_⟩
  · obtain ⟨v, hstart, -⟩ := hnow x.entry
    exact ⟨_, v, hstart⟩
  · intro start n v h
    obtain ⟨rfl, hle⟩ := hcourse h
    obtain ⟨v', hread, hle'⟩ := hnow v
    have hlt := hrange h
    refine ⟨_, v', hread, ?_⟩
    rw [toNat_ofNat_sub hle hlt]
    omega
  · intro start n v h
    obtain ⟨v', hrest, hlt⟩ := hrelax v
    have hle := (hcourse h).2
    exact ⟨v', hrest, by omega⟩

end Wait

end NetworkAnalyzer
