import Mathlib.Logic.Function.Basic
import NetworkAnalyzer.Proofs.Readout.History
import NetworkAnalyzer.Proofs.Schedules

/-!
# Claims and counts, word by word

The role and the generation are two words. The producer gives the role back in one step and
counts its pass in the next; a reader claims the role, loads the generation and the point
count, and compares the generation again before it gives the role back. Here these steps
interleave in any order that keeps each party's own. `passes` and `writer` record, besides
the words themselves, what was published and which pass last wrote an entry.

**Who is inside.** The role word admits one party: the producer while it writes, or one reader from
its claim to its release. It says nothing about the step between giving back and counting, in which
a reader may claim the buffers of a pass that is not counted yet (`Arbitrated`).

**What the count says.** The passes published are those counted and at most one more (`Numbered`).
So a reader that finds the generation unchanged knows how many passes were counted at its claim;
which pass it copied is the latest, counted or not.

**Results.**
* `arbitrated_step`, `numbered_step`: every step keeps both.
* `run_finish`, `run_snapshot`, `run_release`: steps that nobody interrupts are the operations on
  the buffers.
* `Since`: what one moment owes to an earlier one. As long as no further pass gives the
  buffers back, they show the same.
* `tag_exact`: a snapshot whose release finds the generation unchanged carries the number of
  the passes counted by then. That is the number of the pass which wrote an entry exactly when
  that pass is the last one counted.
* `tag_early`: a snapshot taken before the latest pass is counted carries the number of the
  pass before it. One of a channel that the latest pass left alone carries the number of a pass
  that did not write it.
-/

namespace NetworkAnalyzer

/-- How far the pass has come with its protocol. -/
inductive PassPhase where
  | resting
  | writing
  /-- The role is given back, the pass not yet counted. -/
  | counting
  deriving DecidableEq

/-- How far a reader has come with its copy, and what it has in hand. -/
inductive CopyPhase where
  | away
  | claimed (c : Channel)
  | tagged (c : Channel) (generation : UInt32)
  | holding (t : Snapshot)
  | compared (t : Snapshot) (whole : Bool)
  deriving DecidableEq

/-- One producer of complete passes and its readers. -/
structure Interleaving (N : Nat) (ι : Type) where
  buffers : Buffers N := {}
  producer : PassPhase := .resting
  readers : ι → CopyPhase := fun _ => .away
  /-- What the passes published that gave the buffers back, the latest first. -/
  passes : List (Publication N) := []
  /-- The number of the pass that last wrote an entry. -/
  writer : Channel → Nat → Nat := fun _ _ => 0

namespace Interleaving

inductive Produce (N : Nat) where
  | claim
  | setPoints (points : UInt16)
  | write (c : Channel) (k : Nat) (z : Phasor Float32)
  | giveBack
  | count

inductive Copy where
  | claim (c : Channel)
  | loadGeneration
  | loadPoints
  | compare
  | giveBack

variable {N : Nat} {ι : Type} [DecidableEq ι]

/-- A step of the producer, when it is where the step belongs. A claim that fails is repeated. -/
def produce (s : Interleaving N ι) : Produce N → Option (Interleaving N ι)
  | .claim =>
    match s.producer, s.buffers.claim .sweeping with
    | .resting, (true, b) => some { s with buffers := b, producer := .writing }
    | .resting, (false, _) => some s
    | _, _ => none
  | .setPoints points =>
    if s.producer = .writing then some { s with buffers := s.buffers.setPoints points } else none
  | .write c k z =>
    if s.producer = .writing then
      some { s with
        buffers.traces := s.buffers.traces.setPoint c k z
        writer := Function.update s.writer c
          (Function.update (s.writer c) k (s.passes.length + 1)) }
    else none
  | .giveBack =>
    if s.producer = .writing then
      some { s with
        buffers := s.buffers.unclaim
        producer := .counting
        passes := ⟨s.buffers.points, s.buffers.traces⟩ :: s.passes }
    else none
  | .count =>
    if s.producer = .counting then
      some { s with
        buffers.generation := s.buffers.generation + 1
        producer := .resting }
    else none

/-- A step of reader `i`, when it is where the step belongs. A claim that fails is repeated. -/
def copy (s : Interleaving N ι) (i : ι) : Copy → Option (Interleaving N ι)
  | .claim c =>
    match s.readers i, s.buffers.claim .copying with
    | .away, (true, b) =>
      some { s with buffers := b, readers := Function.update s.readers i (.claimed c) }
    | .away, (false, _) => some s
    | _, _ => none
  | .loadGeneration =>
    match s.readers i with
    | .claimed c =>
      some { s with readers := Function.update s.readers i (.tagged c s.buffers.generation) }
    | _ => none
  | .loadPoints =>
    match s.readers i with
    | .tagged c g =>
      some { s with readers := Function.update s.readers i (.holding ⟨c, g, s.buffers.points⟩) }
    | _ => none
  | .compare =>
    match s.readers i with
    | .holding t =>
      some { s with
        readers := Function.update s.readers i (.compared t (s.buffers.release t).1) }
    | _ => none
  | .giveBack =>
    match s.readers i with
    | .holding _ | .compared _ _ =>
      some { s with
        buffers := s.buffers.unclaim
        readers := Function.update s.readers i .away }
    | _ => none

inductive Act (N : Nat) (ι : Type) where
  | produce (a : Produce N)
  | copy (i : ι) (a : Copy)

def step (s : Interleaving N ι) : Act N ι → Option (Interleaving N ι)
  | .produce a => s.produce a
  | .copy i a => s.copy i a

abbrev run (s : Interleaving N ι) (acts : List (Act N ι)) : Option (Interleaving N ι) :=
  Schedule.run step s acts

/-! ## Steps that nobody interrupts -/

/-- Giving back and counting, uninterrupted, is the end of a completed measurement. -/
theorem run_finish {s : Interleaving N ι} (hs : s.producer = .writing) :
    s.run [.produce .giveBack, .produce .count] = some { s with
      buffers := s.buffers.finish true
      producer := .resting
      passes := ⟨s.buffers.points, s.buffers.traces⟩ :: s.passes } := by
  simp [Schedule.run, step, produce, hs, Buffers.finish]

/-- Claiming and loading, uninterrupted, is taking a snapshot. -/
theorem run_snapshot {s : Interleaving N ι} {i : ι} (hi : s.readers i = .away)
    (hidle : s.buffers.role = .idle) (c : Channel) :
    s.run [.copy i (.claim c), .copy i .loadGeneration, .copy i .loadPoints] = some { s with
      buffers.role := .copying
      readers := Function.update s.readers i (.holding (s.buffers.snapshot c)) } := by
  simp [Schedule.run, step, copy, hi, Buffers.claim, hidle, Buffers.snapshot]

/-- Comparing and giving back, uninterrupted, is the release of a snapshot. -/
theorem run_release {s : Interleaving N ι} {i : ι} {t : Snapshot} (hi : s.readers i = .holding t) :
    s.run [.copy i .compare, .copy i .giveBack] = some { s with
      buffers := (s.buffers.release t).2
      readers := Function.update s.readers i .away } := by
  simp [Schedule.run, step, copy, hi, Buffers.release]

/-! ## One step -/

variable {s s' u v : Interleaving N ι} {a : Act N ι} {acts : List (Act N ι)} {i j : ι}
  {t : Snapshot}

/-- What a step does. -/
inductive Took (s : Interleaving N ι) : Act N ι → Interleaving N ι → Prop
  | refused (a : Act N ι) : Took s a s
  | claim (hrest : s.producer = .resting) (hidle : s.buffers.role = .idle) :
      Took s (.produce .claim) { s with buffers.role := .sweeping, producer := .writing }
  | setPoints (hwriting : s.producer = .writing) (n : UInt16) :
      Took s (.produce (.setPoints n)) { s with buffers.points := n }
  | write (hwriting : s.producer = .writing) (c : Channel) (k : Nat) (z : Phasor Float32) :
      Took s (.produce (.write c k z)) { s with
        buffers.traces := s.buffers.traces.setPoint c k z
        writer := Function.update s.writer c
          (Function.update (s.writer c) k (s.passes.length + 1)) }
  | finish (hwriting : s.producer = .writing) :
      Took s (.produce .giveBack) { s with
        buffers.role := .idle
        producer := .counting
        passes := ⟨s.buffers.points, s.buffers.traces⟩ :: s.passes }
  | count (hcounting : s.producer = .counting) :
      Took s (.produce .count) { s with
        buffers.generation := s.buffers.generation + 1
        producer := .resting }
  | acquire (i : ι) (c : Channel) (hidle : s.buffers.role = .idle) :
      Took s (.copy i (.claim c)) { s with
        buffers.role := .copying
        readers := Function.update s.readers i (.claimed c) }
  | loadGeneration {i : ι} {c : Channel} (hi : s.readers i = .claimed c) :
      Took s (.copy i .loadGeneration) { s with
        readers := Function.update s.readers i (.tagged c s.buffers.generation) }
  | loadPoints {i : ι} {c : Channel} {g : UInt32} (hi : s.readers i = .tagged c g) :
      Took s (.copy i .loadPoints) { s with
        readers := Function.update s.readers i (.holding ⟨c, g, s.buffers.points⟩) }
  | compare {i : ι} {t : Snapshot} (hi : s.readers i = .holding t) :
      Took s (.copy i .compare) { s with
        readers := Function.update s.readers i
          (.compared t (s.buffers.generation == t.generation)) }
  | release {i : ι} (hi : s.readers i ≠ .away) :
      Took s (.copy i .giveBack) { s with
        buffers.role := .idle
        readers := Function.update s.readers i .away }

theorem produce_took {p : Produce N} (h : s.produce p = some s') : Took s (.produce p) s' := by
  cases p with
  | claim =>
    unfold produce Buffers.claim at h
    by_cases hidle : s.buffers.role = .idle
    · rw [if_pos hidle] at h
      cases hrest : s.producer <;> simp only [hrest, reduceCtorEq] at h
      cases h
      exact .claim hrest hidle
    · rw [if_neg hidle] at h
      cases hrest : s.producer <;> simp only [hrest, reduceCtorEq] at h
      cases h
      exact .refused _
  | setPoints n =>
    simp only [produce, Option.ite_none_right_eq_some] at h
    obtain ⟨hwriting, ⟨⟩⟩ := h
    exact .setPoints hwriting n
  | write c k z =>
    simp only [produce, Option.ite_none_right_eq_some] at h
    obtain ⟨hwriting, ⟨⟩⟩ := h
    exact .write hwriting c k z
  | giveBack =>
    simp only [produce, Option.ite_none_right_eq_some] at h
    obtain ⟨hwriting, ⟨⟩⟩ := h
    exact .finish hwriting
  | count =>
    simp only [produce, Option.ite_none_right_eq_some] at h
    obtain ⟨hcounting, ⟨⟩⟩ := h
    exact .count hcounting

theorem copy_took {q : Copy} (h : s.copy i q = some s') : Took s (.copy i q) s' := by
  cases q with
  | claim c =>
    unfold copy Buffers.claim at h
    by_cases hidle : s.buffers.role = .idle
    · rw [if_pos hidle] at h
      cases hi : s.readers i <;> simp only [hi, reduceCtorEq] at h
      cases h
      exact .acquire i c hidle
    · rw [if_neg hidle] at h
      cases hi : s.readers i <;> simp only [hi, reduceCtorEq] at h
      cases h
      exact .refused _
  | loadGeneration =>
    cases hi : s.readers i <;> simp only [copy, hi, reduceCtorEq] at h
    cases h
    exact .loadGeneration hi
  | loadPoints =>
    cases hi : s.readers i <;> simp only [copy, hi, reduceCtorEq] at h
    cases h
    exact .loadPoints hi
  | compare =>
    cases hi : s.readers i <;> simp only [copy, hi, reduceCtorEq] at h
    cases h
    exact .compare hi
  | giveBack =>
    cases hi : s.readers i <;> simp only [copy, hi, reduceCtorEq] at h
    · cases h
      exact .release (by simp [hi])
    · cases h
      exact .release (by simp [hi])

theorem step_took (h : s.step a = some s') : Took s a s' := by
  cases a with
  | produce p => exact produce_took h
  | copy i q => exact copy_took h

/-! ## The role -/

/-- Who is inside, by the role word. -/
inductive Arbitrated (s : Interleaving N ι) : Prop
  | free (hrole : s.buffers.role = .idle) (haway : ∀ i, s.readers i = .away)
      (hout : s.producer ≠ .writing)
  | writing (hrole : s.buffers.role = .sweeping) (haway : ∀ i, s.readers i = .away)
      (hin : s.producer = .writing)
  | reading (i : ι) (hrole : s.buffers.role = .copying) (hi : s.readers i ≠ .away)
      (haway : ∀ j, j ≠ i → s.readers j = .away) (hout : s.producer ≠ .writing)
      (hpoints : ∀ t, s.readers i = .holding t → t.points = s.buffers.points)

omit [DecidableEq ι] in
theorem arbitrated_start : Arbitrated ({} : Interleaving N ι) :=
  .free rfl (fun _ => rfl) (by simp)

namespace Arbitrated

omit [DecidableEq ι] in
theorem of_idle (h : Arbitrated s) (hrole : s.buffers.role = .idle) :
    (∀ i, s.readers i = .away) ∧ s.producer ≠ .writing := by
  cases h with
  | free _ haway hout => exact ⟨haway, hout⟩
  | writing h | reading _ h => cases hrole.symm.trans h

omit [DecidableEq ι] in
theorem of_writing (h : Arbitrated s) (hin : s.producer = .writing) :
    s.buffers.role = .sweeping ∧ ∀ i, s.readers i = .away := by
  cases h with
  | writing hrole haway => exact ⟨hrole, haway⟩
  | free _ _ hout | reading _ _ _ _ hout => exact absurd hin hout

theorem of_reading (h : Arbitrated s) (hi : s.readers i ≠ .away) :
    s.buffers.role = .copying ∧ s.producer ≠ .writing ∧ (∀ j, j ≠ i → s.readers j = .away) ∧
      ∀ t, s.readers i = .holding t → t.points = s.buffers.points := by
  cases h with
  | free _ haway | writing _ haway => exact absurd (haway i) hi
  | reading j hrole _ haway hout hpoints =>
    obtain rfl : i = j := by
      by_contra hne
      exact hi (haway i hne)
    exact ⟨hrole, hout, haway, hpoints⟩

theorem advance (h : Arbitrated s) (hi : s.readers i ≠ .away) {r : CopyPhase} (hr : r ≠ .away)
    (hpoints : ∀ t, r = .holding t → t.points = s.buffers.points) :
    Arbitrated { s with readers := Function.update s.readers i r } := by
  obtain ⟨hrole, hout, haway, -⟩ := h.of_reading hi
  refine .reading i hrole ?_ (fun j hj => ?_) hout fun t ht => hpoints t ?_
  · simpa using hr
  · simpa [hj] using haway j hj
  · simpa using ht

end Arbitrated

/-- Every step keeps the role word and the parties together. -/
theorem arbitrated_step (hs : Arbitrated s) (h : s.step a = some s') : Arbitrated s' := by
  cases step_took h with
  | refused => exact hs
  | claim hrest hidle => exact .writing rfl (hs.of_idle hidle).1 rfl
  | setPoints hin n | write hin c k z =>
    obtain ⟨hrole, haway⟩ := hs.of_writing hin
    exact .writing hrole haway hin
  | finish hin => exact .free rfl (hs.of_writing hin).2 (by simp)
  | count hcounting =>
    cases hs with
    | free hrole haway => exact .free hrole haway (by simp)
    | writing _ _ hin => cases hin.symm.trans hcounting
    | reading i hrole hi haway _ hpoints => exact .reading i hrole hi haway (by simp) hpoints
  | acquire i c hidle =>
    obtain ⟨haway, hout⟩ := hs.of_idle hidle
    refine .reading i rfl (by simp) (fun j hj => ?_) hout (by simp)
    simpa [hj] using haway j
  | loadGeneration hi => exact hs.advance (by simp [hi]) (by simp) (by simp)
  | loadPoints hi =>
    refine hs.advance (by simp [hi]) (by simp) fun t ht => ?_
    cases ht
    rfl
  | compare hi => exact hs.advance (by simp [hi]) (by simp) (by simp)
  | @release i hi =>
    obtain ⟨-, hout, haway, -⟩ := hs.of_reading hi
    refine .free rfl (fun j => ?_) hout
    by_cases hj : j = i
    · simp [hj]
    · simpa [hj] using haway j hj

/-! ## The count -/

/-- Passes that gave the buffers back and were counted. -/
def counted (s : Interleaving N ι) : Nat :=
  s.passes.length - if s.producer = .counting then 1 else 0

/-- The generation counts the passes, the buffers show the latest one, and no entry is written
by a pass that is yet to come. -/
structure Numbered (s : Interleaving N ι) : Prop where
  pending : s.producer = .counting → s.passes ≠ []
  generation : s.buffers.generation = UInt32.ofNat s.counted
  shown : s.producer ≠ .writing →
    ∀ p ∈ s.passes.head?, p = ⟨s.buffers.points, s.buffers.traces⟩
  writer : ∀ c k, s.writer c k ≤ s.passes.length + if s.producer = .writing then 1 else 0

omit [DecidableEq ι] in
theorem numbered_start : Numbered ({} : Interleaving N ι) :=
  ⟨by simp, rfl, by simp, by simp⟩

omit [DecidableEq ι] in
/-- The passes are the counted ones and at most one more. -/
theorem Numbered.counted_add (hs : Numbered s) :
    s.counted + (if s.producer = .counting then 1 else 0) = s.passes.length := by
  unfold counted
  split
  · rename_i hcounting
    have := List.length_pos_iff.mpr (hs.pending hcounting)
    omega
  · rfl

theorem numbered_step (hs : Numbered s) (h : s.step a = some s') : Numbered s' := by
  obtain ⟨hpending, hgeneration, hshown, hwriter⟩ := hs
  cases step_took h with
  | refused | acquire | loadGeneration | loadPoints | compare | release =>
    exact ⟨hpending, hgeneration, hshown, hwriter⟩
  | claim hrest hidle =>
    have hcount : s.counted = s.passes.length := by simp [counted, hrest]
    refine ⟨by simp, ?_, by simp, fun c k => ?_⟩
    · rw [hcount] at hgeneration
      simpa [counted] using hgeneration
    · have := hwriter c k
      simp only [hrest, reduceCtorEq, if_false, if_true] at this ⊢
      omega
  | setPoints hin n =>
    exact ⟨by simp [hin], hgeneration, by simp [hin], hwriter⟩
  | write hin c k z =>
    refine ⟨by simp [hin], hgeneration, by simp [hin], fun d l => ?_⟩
    have := hwriter d l
    simp only [hin, if_true] at this ⊢
    by_cases hd : d = c
    · subst hd
      by_cases hl : l = k
      · simp [hl]
      · simpa [hl] using this
    · simpa [hd] using this
  | finish hin =>
    have hcount : s.counted = s.passes.length := by simp [counted, hin]
    refine ⟨by simp, ?_, by simp, fun c k => ?_⟩
    · rw [hcount] at hgeneration
      simpa [counted] using hgeneration
    · have := hwriter c k
      simp only [hin, if_true] at this
      simpa using this
  | count hcounting =>
    have hsome : s.passes.length ≠ 0 := by simpa using hpending hcounting
    refine ⟨by simp, ?_, fun _ => hshown (by simp [hcounting]), fun c k => ?_⟩
    · have hnext : s.passes.length = s.counted + 1 := by
        simp only [counted, hcounting, if_true]
        omega
      change s.buffers.generation + 1 = UInt32.ofNat (s.passes.length - 0)
      rw [hgeneration, Nat.sub_zero, hnext, UInt32.ofNat_add]
      rfl
    · simpa [hcounting] using hwriter c k

/-! ## What one moment owes to another -/

/-- From `s` on, passes are added and counted, and as long as none gave the buffers back,
what they show outside a pass has not changed. -/
structure Since (s u : Interleaving N ι) : Prop where
  passes : ∃ new, u.passes = new ++ s.passes
  counted : s.counted ≤ u.counted
  kept : u.passes = s.passes → u.producer ≠ .writing →
    u.buffers.points = s.buffers.points ∧ u.buffers.traces = s.buffers.traces ∧
      u.writer = s.writer

theorem since_step (hu : Since s u) (h : u.step a = some v) : Since s v := by
  obtain ⟨⟨new, hnew⟩, hcounted, hkept⟩ := hu
  cases step_took h with
  | refused | acquire | loadGeneration | loadPoints | compare | release =>
    exact ⟨⟨new, hnew⟩, hcounted, hkept⟩
  | claim hrest hidle =>
    refine ⟨⟨new, hnew⟩, Nat.le_trans hcounted ?_, fun _ hout => absurd rfl hout⟩
    simp [Interleaving.counted]
  | setPoints hin | write hin => exact ⟨⟨new, hnew⟩, hcounted, fun _ hout => absurd hin hout⟩
  | finish hin =>
    refine ⟨⟨⟨u.buffers.points, u.buffers.traces⟩ :: new, by simp [hnew]⟩,
      Nat.le_trans hcounted ?_, fun he => ?_⟩
    · simp [Interleaving.counted, hin]
    · have hlen := congrArg List.length he
      simp only [hnew, List.length_cons, List.length_append] at hlen
      omega
  | count hcounting =>
    refine ⟨⟨new, hnew⟩, Nat.le_trans hcounted ?_, fun he _ => hkept he (by simp [hcounting])⟩
    simp [Interleaving.counted]

omit [DecidableEq ι] in
/-- Moments with the same count show the same pass, unless the later one shows a pass that gave
the buffers back and is not counted. -/
theorem Since.same_count (h : Since s u) (hs : Numbered s) (hu : Numbered u)
    (hout : u.producer ≠ .writing) (hcount : s.counted = u.counted) :
    (u.passes = s.passes ∧ u.buffers.points = s.buffers.points ∧
        u.buffers.traces = s.buffers.traces ∧ u.writer = s.writer) ∨
      (s.producer ≠ .counting ∧ u.producer = .counting ∧ ∃ p, u.passes = p :: s.passes) := by
  obtain ⟨⟨new, hnew⟩, -, hkept⟩ := h
  have hadd := hs.counted_add
  have hadd' := hu.counted_add
  rw [hnew, List.length_append] at hadd'
  by_cases hlen : new.length = 0
  · obtain rfl := List.length_eq_zero_iff.mp hlen
    exact Or.inl ⟨hnew, hkept hnew hout⟩
  · -- One more pass, and it is the one that is not counted.
    have hone : new.length = 1 ∧ s.producer ≠ .counting ∧ u.producer = .counting := by
      split at hadd <;> split at hadd' <;> simp_all <;> omega
    obtain ⟨p, rfl⟩ := List.length_eq_one_iff.mp hone.1
    exact Or.inr ⟨hone.2.1, hone.2.2, p, hnew⟩

theorem step_inside (hs : Arbitrated s) (hi : s.readers i ≠ .away) (h : s.step a = some s')
    (ha : a ≠ .copy i .giveBack) :
    s'.readers i ≠ .away ∧ s'.buffers.traces = s.buffers.traces := by
  obtain ⟨hrole, hout, haway, -⟩ := hs.of_reading hi
  cases step_took h with
  | refused | count => exact ⟨hi, rfl⟩
  | claim _ hidle | acquire _ _ hidle => cases hrole.symm.trans hidle
  | setPoints hin | write hin | finish hin => exact absurd hin hout
  | @loadGeneration j _ hj | @loadPoints j _ _ hj | @compare j _ hj =>
    refine ⟨?_, rfl⟩
    by_cases he : i = j <;> simp [he, hi]
  | @release j hj =>
    have he : j ≠ i := fun he => ha (by rw [he])
    exact absurd (haway j he) hj

/-! ## Any interleaving -/

theorem run_sound (hs : Arbitrated s ∧ Numbered s) (h : s.run acts = some s') :
    Arbitrated s' ∧ Numbered s' :=
  Schedule.run_keeps (P := fun s => Arbitrated s ∧ Numbered s)
    (fun _ _ _ _ hs hstep => ⟨arbitrated_step hs.1 hstep, numbered_step hs.2 hstep⟩) hs h

theorem run_since (hu : Since s u) (h : u.run acts = some v) : Since s v :=
  Schedule.run_keeps (fun _ _ _ _ => since_step) hu h

theorem run_inside (hs : Arbitrated s) (hi : s.readers i ≠ .away)
    (hinside : .copy i .giveBack ∉ acts) (h : s.run acts = some s') :
    s'.buffers.traces = s.buffers.traces := by
  induction acts generalizing s with
  | nil =>
    cases h
    rfl
  | cons a acts ih =>
    obtain ⟨v, hstep, hrest⟩ := Schedule.run_cons.mp h
    rw [List.mem_cons, not_or] at hinside
    obtain ⟨hi', htraces⟩ := step_inside hs hi hstep (Ne.symm hinside.1)
    rw [ih (arbitrated_step hs hstep) hi' hinside.2 hrest, htraces]

/-! ## Tags -/

/-- Counts less than a turn apart differ as words when they differ. -/
theorem ofNat_inj_near {m n : Nat} (hle : m ≤ n) (hturn : n < m + 2 ^ 32) :
    UInt32.ofNat m = UInt32.ofNat n ↔ m = n := by
  rw [← UInt32.toNat_inj, UInt32.toNat_ofNat', UInt32.toNat_ofNat']
  omega

theorem compare_whole (h : s.step (.copy i .compare) = some s')
    (hwhole : s'.readers i = .compared t true) :
    s.readers i = .holding t ∧ t.generation = s.buffers.generation ∧
      s' = { s with readers := Function.update s.readers i (.compared t true) } := by
  cases step_took h with
  | refused =>
    simp [step, copy, hwhole] at h
  | compare hi =>
    simp only [Function.update_self, CopyPhase.compared.injEq, beq_iff_eq] at hwhole
    obtain ⟨rfl, hgeneration⟩ := hwhole
    exact ⟨hi, hgeneration.symm, by simp [hgeneration]⟩

/-- What a snapshot carries whose release finds the generation unchanged. Its tag is the number
of the passes counted so far; the buffers show the latest pass, and have since the snapshot was
claimed. So the tag is the number of the pass that wrote an entry exactly when that pass is the
last one counted, and two snapshots with equal tags, less than a turn apart, show the same pass
unless the second shows one that gave the buffers back but is not counted yet. -/
theorem tag_exact (hrun : ({} : Interleaving N ι).run acts = some s)
    (hcompare : s.step (.copy i .compare) = some s')
    (hwhole : s'.readers i = .compared t true) :
    t.generation = UInt32.ofNat s.counted ∧
    (∀ p ∈ s.passes.head?, t.points = p.points ∧ s.buffers.traces = p.traces) ∧
    (∀ before v more, ({} : Interleaving N ι).run before = some v → v.run more = some s →
      v.readers i ≠ .away → .copy i .giveBack ∉ more →
      v.buffers.view t = s.buffers.view t) ∧
    (∀ k, s.writer t.channel k ≤ s.passes.length ∧
      (s.counted < s.writer t.channel k + 2 ^ 32 →
        (t.generation = UInt32.ofNat (s.writer t.channel k) ↔
          s.writer t.channel k = s.counted))) ∧
    ∀ more u u' j t', s'.run more = some u → u.step (.copy j .compare) = some u' →
      u'.readers j = .compared t' true → t'.generation = t.generation →
      u.counted < s.counted + 2 ^ 32 →
      (u.passes = s.passes ∧ u.writer = s.writer ∧ t'.points = t.points ∧
          u.buffers.traces = s.buffers.traces) ∨
        (s.producer ≠ .counting ∧ u.producer = .counting ∧ ∃ p, u.passes = p :: s.passes) := by
  obtain ⟨harb, hnum⟩ := run_sound ⟨arbitrated_start, numbered_start⟩ hrun
  obtain ⟨hi, htag, hs'⟩ := compare_whole hcompare hwhole
  obtain ⟨-, hout, -, hpoints⟩ := harb.of_reading (i := i) (by simp [hi])
  have htag' : t.generation = UInt32.ofNat s.counted := htag.trans hnum.generation
  refine ⟨htag', ?_, ?_, ?_, ?_⟩
  · intro p hp
    obtain rfl := hnum.shown hout p hp
    exact ⟨hpoints t hi, rfl⟩
  · intro before v more hbefore hmore hv hinside
    have hv' := run_sound ⟨arbitrated_start, numbered_start⟩ hbefore
    unfold Buffers.view
    rw [run_inside hv'.1 hv hinside hmore]
  · intro k
    have hwriter := hnum.writer t.channel k
    simp only [hout, if_false, Nat.add_zero] at hwriter
    refine ⟨hwriter, fun hturn => ?_⟩
    have hcounted : s.passes.length ≤ s.counted + 1 := by
      have := hnum.counted_add
      split at this <;> omega
    rw [htag']
    rcases Nat.le_total (s.writer t.channel k) s.counted with hle | hle
    · rw [eq_comm, ofNat_inj_near hle hturn]
    · rw [ofNat_inj_near hle (by omega), eq_comm]
  · intro more u u' j t' hmore hcompare' hwhole' hsame hturn
    obtain ⟨harb', hnum'⟩ := run_sound ⟨arbitrated_step harb hcompare,
      numbered_step hnum hcompare⟩ hmore
    obtain ⟨hj, htag'', -⟩ := compare_whole hcompare' hwhole'
    obtain ⟨-, hout', -, hpoints'⟩ := harb'.of_reading (i := j) (by simp [hj])
    have hsince : Since s u := by
      refine run_since ?_ hmore
      rw [hs']
      exact ⟨⟨[], rfl⟩, Nat.le_refl _, fun _ _ => ⟨rfl, rfl, rfl⟩⟩
    have hcount : s.counted = u.counted := by
      rw [← ofNat_inj_near hsince.counted hturn, ← htag', ← hsame, htag'', hnum'.generation]
    refine (hsince.same_count hnum hnum' hout' hcount).imp_left ?_
    rintro ⟨hpasses, hsame', htraces, hwriter⟩
    exact ⟨hpasses, hwriter, by rw [hpoints' t' hj, hsame', hpoints t hi], htraces⟩

/-- A pass that writes one entry of the second channel, up to giving the buffers back. -/
def writeOnce (z : Phasor Float32) : List (Act 1 Bool) :=
  [.produce .claim, .produce (.setPoints 1), .produce (.write .s21 0 z), .produce .giveBack]

/-- Reader `i` takes a snapshot of the second channel. -/
def take (i : Bool) : List (Act 1 Bool) :=
  [.copy i (.claim .s21), .copy i .loadGeneration, .copy i .loadPoints]

/-- Two readers, one after the other, between the first pass and the second. -/
theorem tag_exact_twoReaders :
    ∃ s s' u u' : Interleaving 1 Bool,
      ({} : Interleaving 1 Bool).run (writeOnce 1 ++ [.produce .count] ++ take false) = some s ∧
      s.step (.copy false .compare) = some s' ∧
      s'.readers false = .compared ⟨.s21, 1, 1⟩ true ∧
      s'.run (.copy false .giveBack :: take true) = some u ∧
      u.step (.copy true .compare) = some u' ∧
      u'.readers true = .compared ⟨.s21, 1, 1⟩ true ∧
      s.writer .s21 0 = s.counted ∧ u.passes = s.passes := by
  obtain ⟨s, s', u, u', hrun, hcompare, hwhole, hmore, hcompare', hwhole', hout, hcounted⟩ :
      ∃ s s' u u' : Interleaving 1 Bool,
        ({} : Interleaving 1 Bool).run (writeOnce 1 ++ [.produce .count] ++ take false) = some s ∧
        s.step (.copy false .compare) = some s' ∧
        s'.readers false = .compared ⟨.s21, 1, 1⟩ true ∧
        s'.run (.copy false .giveBack :: take true) = some u ∧
        u.step (.copy true .compare) = some u' ∧
        u'.readers true = .compared ⟨.s21, 1, 1⟩ true ∧ u.producer = .resting ∧
        s.counted = 1 ∧ u.counted = 1 ∧ s.writer .s21 0 = 1 :=
    ⟨_, _, _, _, rfl, rfl, rfl, rfl, rfl, rfl, rfl, rfl, rfl, rfl⟩
  obtain ⟨hs, hu, hwriter⟩ := hcounted
  obtain ⟨-, -, -, htag, hsame⟩ := tag_exact hrun hcompare hwhole
  refine ⟨s, s', u, u', hrun, hcompare, hwhole, hmore, hcompare', hwhole', ?_, ?_⟩
  · exact ((htag 0).2 (by rw [hs]; omega)).mp (by rw [hwriter]; rfl)
  · obtain ⟨hpasses, -⟩ | ⟨-, hcounting, -⟩ :=
      hsame _ _ _ _ _ hmore hcompare' hwhole' rfl (by omega)
    · exact hpasses
    · cases hout.symm.trans hcounting

/-- A second pass, of the first channel only: the second channel still shows what the first pass
wrote, under the tag of the second. -/
example :
    ∃ s s' : Interleaving 1 Bool,
      ({} : Interleaving 1 Bool).run (writeOnce 1 ++ [.produce .count] ++
        [.produce .claim, .produce (.setPoints 1), .produce (.write .s11 0 1),
          .produce .giveBack, .produce .count] ++ take false) = some s ∧
      s.step (.copy false .compare) = some s' ∧
      s'.readers false = .compared ⟨.s21, 2, 1⟩ true ∧ s.writer .s21 0 = 1 :=
  ⟨_, _, rfl, rfl, rfl, rfl⟩

/-- The second reader comes while the second pass has given the buffers back and is not counted:
both snapshots are whole and carry the tag 1, and the second shows what the second pass wrote. -/
theorem tag_early :
    ∃ s s' u u' : Interleaving 1 Bool,
      ({} : Interleaving 1 Bool).run (writeOnce 1 ++ [.produce .count] ++ take false) = some s ∧
      s.step (.copy false .compare) = some s' ∧
      s'.readers false = .compared ⟨.s21, 1, 1⟩ true ∧
      s.writer .s21 0 = 1 ∧ s.buffers.view ⟨.s21, 1, 1⟩ = [1] ∧
      s'.run (.copy false .giveBack :: writeOnce 0 ++ take true) = some u ∧
      u.step (.copy true .compare) = some u' ∧
      u'.readers true = .compared ⟨.s21, 1, 1⟩ true ∧
      u.writer .s21 0 = 2 ∧ u.buffers.view ⟨.s21, 1, 1⟩ = [0] ∧ (0 : Phasor Float32) ≠ 1 :=
  ⟨_, _, _, _, rfl, rfl, rfl, rfl, rfl, rfl, rfl, rfl, rfl, rfl, by decide⟩

end Interleaving

end NetworkAnalyzer
