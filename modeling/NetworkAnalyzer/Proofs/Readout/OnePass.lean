import Mathlib.Data.List.Nodup
import Mathlib.Data.List.Pairwise
import NetworkAnalyzer.Proofs.Readout.History
import NetworkAnalyzer.Proofs.Runs
import NetworkAnalyzer.Readout.Dump

/-!
# Which pass a dump shows

A dump copies each channel under a claim of its own. While it waits for a claim, the clock is read
and the core is given up, and anything may happen to the buffers. Once it holds them, it loads the
generation and the point count, copies, loads the generation again and gives the buffers back, and
producers and other readers may act between any two of these accesses. `dumpAmid` is the dump with
the steps of others in all of these places, and `dumpAmid_pure` says that nothing else was
changed: with no others it is `dump`.

The hypotheses leave the others free to do whatever the buffers admit:

* `Moves (Observed S log) clock.now` and the same of `clock.relax`: while the dump waits, the
  buffers change by steps in `S` only;
* `Moves (Observed (Aside S) log) others`: so they do while it holds the buffers, and nobody else
  gives them back.

A channel is copied from what the buffers held at a *moment* of its own, which is when the
generation was loaded:

* `acquireAmid_ok`: the moment lies within the claim, and up to the end of the claim nothing but
  the generation changes.
* `copyChannelsAmid_inv`, `copyConsistentlyAmid_ok`: the moments of an attempt, in order, all
  with one generation and one point count.
* `dump_exact`: what a successful dump shows of each channel, and when this is one pass. Two
  things stand against it. A slice that did not complete its pass has overwritten points, under
  the old generation (`dump_shows_unfinished`). And a completed pass that is not yet counted has
  the generation of the pass before it, so a dump may find one channel of each.
* `dump_whole`: where one producer completes every slice the first cannot happen, and the second
  mixes two passes at most, the newer directly after the older.
-/

namespace NetworkAnalyzer

/-! ## Copying a channel -/

namespace Traces

variable {α : Type} {N : Nat}

theorem take_setFirst (t : Traces α N) (c : Channel) (v : Vector (Phasor α) N) (n : Nat) :
    ((t.setFirst c (v.toList.take n)).get c).toList.take n = v.toList.take n := by
  unfold setFirst
  rw [get_set_same]
  refine List.ext_getElem? fun i => ?_
  rw [List.getElem?_take, List.getElem?_take]
  split
  · rename_i hi
    rw [Vector.getElem?_toList, Vector.getElem?_toList, Vector.getElem?_mapIdx]
    by_cases hN : i < N
    · rw [Vector.getElem?_eq_getElem hN, Vector.getElem?_eq_getElem hN]
      have hin : i < (v.toList.take n).toArray.size := by
        rw [List.size_toArray, List.length_take, Vector.length_toList]
        exact Nat.lt_min.mpr ⟨hi, hN⟩
      rw [Option.map_some, Array.getD_eq_getD_getElem?, Array.getElem?_eq_getElem hin]
      simp
    · have hout := Nat.le_of_not_lt hN
      rw [Vector.getElem?_eq_none hout, Vector.getElem?_eq_none hout]
      rfl
  · rfl

theorem get_setFirst_of_ne (t : Traces α N) {c d : Channel} (values : List (Phasor α))
    (h : d ≠ c) : (t.setFirst c values).get d = t.get d :=
  get_set_of_ne _ _ h

end Traces

namespace Shared

variable {N : Nat} {ε : Type} {log : ε → PassLog N} {S : History N → History N → Prop}
  {clock : Timebase (Shared N ε)} {others : Run (Shared N ε) Unit} {w w' : Shared N ε}

/-- The history of the buffers, when the environment knows the passes. -/
def history (log : ε → PassLog N) (w : Shared N ε) : History N :=
  ⟨log w.environment, w.buffers⟩

/-- The buffers changed by steps in `S` only. -/
def Observed (S : History N → History N → Prop) (log : ε → PassLog N) (w w' : Shared N ε) : Prop :=
  Relation.ReflTransGen S (w.history log) (w'.history log)

instance : IsPreorder (Shared N ε) (Observed S log) where
  refl _ := .refl
  trans _ _ _ := .trans

/-! ## Claims -/

theorem claimCopy_eq (w : Shared N ε) : claimCopy w = .ok ((w.buffers.claim .copying).1,
    { w with buffers := (w.buffers.claim .copying).2 }) := rfl

theorem claimCopy_inv {taken : Bool} (h : claimCopy w = .ok (taken, w')) :
    (taken = false ∧ w' = w) ∨
      (taken = true ∧ w.buffers.role = .idle ∧ w' = { w with buffers.role := .copying }) := by
  rw [claimCopy_eq] at h
  cases h
  unfold Buffers.claim
  split
  · rename_i hidle
    exact Or.inr ⟨rfl, hidle, rfl⟩
  · exact Or.inl ⟨rfl, rfl⟩

section Waits

variable {R : Shared N ε → Shared N ε → Prop} [IsPreorder (Shared N ε) R]

/-- A wait for the buffers left them to the others up to the moment, if any, at which it found
them free. -/
theorem awaitClaim_cases (hnow : Moves R clock.now) (hrelax : Moves R clock.relax)
    {timeout : Duration} {taken : Bool}
    (h : waitUntil clock timeout claimCopy w = .ok (taken, w')) :
    (taken = false ∧ R w w') ∨ (taken = true ∧ ∃ v, R w v ∧ v.buffers.role = .idle ∧
      w' = { v with buffers.role := .copying }) := by
  have hmiss : ∀ ⦃s s'⦄, claimCopy (N := N) (ε := ε) s = .ok (false, s') → R s s' := by
    intro s s' hmiss
    rcases claimCopy_inv hmiss with ⟨-, rfl⟩ | ⟨he, -⟩
    · exact refl_of R s'
    · cases he
  rcases waitUntil_cases hnow hrelax hmiss h with hlost | ⟨rfl, v, hv, hclaim⟩
  · exact Or.inl hlost
  · rcases claimCopy_inv hclaim with ⟨he, -⟩ | ⟨-, hidle, rfl⟩
    · cases he
    · exact Or.inr ⟨rfl, v, hv, hidle, rfl⟩

/-- A claim that timed out left the buffers to the others. One that succeeded found them free
at some moment. -/
theorem acquire_cases (hnow : Moves R clock.now) (hrelax : Moves R clock.relax) {c : Channel}
    {timeout : Duration} {r : Except Failure Snapshot}
    (h : acquire clock c timeout w = .ok (r, w')) :
    (r = .error .resourceBusy ∧ R w w') ∨
      ∃ v, r = .ok (v.buffers.snapshot c) ∧ R w v ∧ v.buffers.role = .idle ∧
        w' = { v with buffers.role := .copying } := by
  unfold acquire at h
  obtain ⟨taken, w₁, hwait, h₁⟩ := Run.bind_inv h
  rcases awaitClaim_cases hnow hrelax hwait with ⟨rfl, hR⟩ | ⟨rfl, v, hv, hidle, rfl⟩
  · cases h₁
    exact Or.inl ⟨rfl, hR⟩
  · obtain ⟨rfl, rfl⟩ := Run.pure_inv h₁
    exact Or.inr ⟨v, rfl, hv, hidle, rfl⟩

end Waits

/-! ## A dump amid others -/

/-- `acquire`, with the steps of `others` after each access. -/
def acquireAmid (clock : Timebase (Shared N ε)) (others : Run (Shared N ε) Unit) (c : Channel)
    (timeout : Duration) : Run (Shared N ε) (Except Failure Snapshot) := do
  if ← waitUntil clock timeout claimCopy then
    others
    let generation := (← get).buffers.generation
    others
    let points := (← get).buffers.points
    others
    return .ok ⟨c, generation, points⟩
  return .error .resourceBusy

def releaseAmid (others : Run (Shared N ε) Unit) (s : Snapshot) : Run (Shared N ε) Bool := do
  let generation := (← get).buffers.generation
  others
  setBuffers (← get).buffers.unclaim
  return generation == s.generation

/-- `copyChannels`, with the steps of `others` between the accesses of a claim. Between two claims
the clock is read. -/
def copyChannelsAmid (clock : Timebase (Shared N ε)) (others : Run (Shared N ε) Unit) :
    List Channel → (seen : Option Tag) → Traces Float32 N →
      Run (Shared N ε) (CopyAttempt × Traces Float32 N)
  | [], seen, copy => return (.whole seen, copy)
  | c :: rest, seen, copy => do
    match ← acquireAmid clock others c Parameters.snapshotTimeout with
    | .error e => return (.failed e, copy)
    | .ok snapshot =>
      let tag : Tag := (snapshot.generation, snapshot.points)
      let copy := copy.setFirst c ((← get).buffers.view snapshot)
      others
      let unchanged ← releaseAmid others snapshot
      if !unchanged || seen.any (· != tag) then
        return (.torn, copy)
      copyChannelsAmid clock others rest (some tag) copy

def copyConsistentlyAmid (clock : Timebase (Shared N ε)) (others : Run (Shared N ε) Unit)
    (out : ScanMask) : (attempts : Nat) → Traces Float32 N →
      Run (Shared N ε) (Except Failure UInt16 × Traces Float32 N)
  | 0, copy => return (.error .resourceBusy, copy)
  | attempts + 1, copy => do
    let (attempt, copy) ← copyChannelsAmid clock others out.channels none copy
    match attempt with
    | .failed e => return (.error e, copy)
    | .torn => copyConsistentlyAmid clock others out attempts copy
    | .whole (some tag) => return (.ok tag.2, copy)
    | .whole none => return (.ok (← get).buffers.points, copy)

/-- A dump that `others` may interrupt between any two of its accesses. -/
def dumpAmid (clock : Timebase (Shared N ε)) (others : Run (Shared N ε) Unit) (out : ScanMask)
    (copy : Traces Float32 N) : Run (Shared N ε) (Except Failure UInt16 × Traces Float32 N) :=
  copyConsistentlyAmid clock others out Parameters.copyAttempts copy

theorem copyChannelsAmid_pure (clock : Timebase (Shared N ε)) (cs : List Channel)
    (seen : Option Tag) (copy : Traces Float32 N) :
    copyChannelsAmid clock (pure ()) cs seen copy = copyChannels clock cs seen copy := by
  induction cs generalizing seen copy with
  | nil => rfl
  | cons c cs ih =>
    unfold copyChannelsAmid copyChannels
    simp only [ih]
    rfl

theorem copyConsistentlyAmid_pure (clock : Timebase (Shared N ε)) (out : ScanMask)
    (attempts : Nat) (copy : Traces Float32 N) :
    copyConsistentlyAmid clock (pure ()) out attempts copy =
      copyConsistently clock out attempts copy := by
  induction attempts generalizing copy with
  | zero => rfl
  | succ attempts ih =>
    unfold copyConsistentlyAmid copyConsistently
    rw [copyChannelsAmid_pure]
    refine bind_congr fun x => ?_
    obtain ⟨attempt, copy⟩ := x
    cases attempt with
    | whole tag => cases tag <;> rfl
    | torn => exact ih copy
    | failed e => rfl

/-- Without others it is the dump. -/
theorem dumpAmid_pure (clock : Timebase (Shared N ε)) (out : ScanMask)
    (copy : Traces Float32 N) : dumpAmid clock (pure ()) out copy = dump clock out copy :=
  copyConsistentlyAmid_pure clock out _ copy

/-! ## Moments -/

/-- The buffers have been held since the moment `m`. -/
structure Held (S : History N → History N → Prop) (log : ε → PassLog N) (m : History N)
    (w : Shared N ε) : Prop where
  copying : m.buffers.role = .copying
  since : Relation.ReflTransGen (History.Aside S) m (w.history log)

namespace Held

variable {m : History N}

theorem stays (hm : Held S log m w) (hothers : Moves (Observed (History.Aside S) log) others)
    {u : Unit} (h : others w = .ok (u, w')) : Held S log m w' :=
  ⟨hm.copying, hm.since.trans (hothers h)⟩

theorem buffers_eq (hm : Held S log m w) (hS : History.Rules S) :
    w.buffers = { m.buffers with generation := w.buffers.generation } :=
  History.still_of_copying hS hm.since hm.copying

theorem role_eq (hm : Held S log m w) (hS : History.Rules S) : w.buffers.role = .copying := by
  rw [hm.buffers_eq hS]
  exact hm.copying

end Held

/-- A claim that succeeded has a moment: when it loaded the generation. -/
theorem acquireAmid_ok (hS : History.Rules S) (hnow : Moves (Observed S log) clock.now)
    (hrelax : Moves (Observed S log) clock.relax)
    (hothers : Moves (Observed (History.Aside S) log) others) {c : Channel} {timeout : Duration}
    {snapshot : Snapshot} (h : acquireAmid clock others c timeout w = .ok (.ok snapshot, w')) :
    ∃ m, Relation.ReflTransGen S (w.history log) m ∧ Held S log m w' ∧
      snapshot = m.buffers.snapshot c := by
  unfold acquireAmid at h
  obtain ⟨taken, w₁, hwait, h⟩ := Run.bind_inv h
  rcases awaitClaim_cases hnow hrelax hwait with ⟨rfl, -⟩ | ⟨rfl, v, hv, hidle, rfl⟩
  · cases (Run.pure_inv h).1
  · have hclaimed : Relation.ReflTransGen S (w.history log)
        (history log { v with buffers.role := .copying }) := hv.tail (hS.claim hidle)
    obtain ⟨_, w₂, h₂, h⟩ := Run.bind_inv h
    have hloading := Held.stays ⟨rfl, .refl⟩ hothers h₂
    have hmoment : Held S log (w₂.history log) w₂ := ⟨hloading.role_eq hS, .refl⟩
    rw [Run.get_bind] at h
    obtain ⟨_, w₃, h₃, h⟩ := Run.bind_inv h
    have hloaded := hmoment.stays hothers h₃
    rw [Run.get_bind] at h
    obtain ⟨_, w₄, h₄, h⟩ := Run.bind_inv h
    obtain ⟨he, rfl⟩ := Run.pure_inv h
    cases he
    refine ⟨w₂.history log, hclaimed.trans (History.reach_of_aside hloading.since),
      hloaded.stays hothers h₄, ?_⟩
    rw [hloaded.buffers_eq hS]
    rfl

theorem releaseAmid_ok (hS : History.Rules S)
    (hothers : Moves (Observed (History.Aside S) log) others) {m : History N}
    (hm : Held S log m w) {snapshot : Snapshot} {unchanged : Bool}
    (h : releaseAmid others snapshot w = .ok (unchanged, w')) :
    Relation.ReflTransGen S m (w'.history log) := by
  unfold releaseAmid at h
  rw [Run.get_bind] at h
  obtain ⟨_, w₁, h₁, h⟩ := Run.bind_inv h
  have hend := hm.stays hothers h₁
  rw [Run.get_bind] at h
  obtain ⟨_, w₂, h₂, h⟩ := Run.bind_inv h
  cases h₂
  obtain ⟨-, rfl⟩ := Run.pure_inv h
  exact (History.reach_of_aside hend.since).tail (hS.release (hend.role_eq hS))

/-! ## Copying the channels -/

/-- The moments at which the channels `cs` were claimed between `w` and `w'`. -/
structure Claimed (S : History N → History N → Prop) (log : ε → PassLog N)
    (w w' : Shared N ε) (cs : List Channel) (tag : Option Tag)
    (ms : List (Channel × History N)) : Prop where
  channels : ms.map (·.1) = cs
  ordered : ms.Pairwise fun a b => Relation.ReflTransGen S a.2 b.2
  between : ∀ m ∈ ms, Relation.ReflTransGen S (w.history log) m.2 ∧
    Relation.ReflTransGen S m.2 (w'.history log)
  copying : ∀ m ∈ ms, m.2.buffers.role = .copying
  tag : ∀ m ∈ ms, tag = some (m.2.buffers.generation, m.2.buffers.points)

namespace Claimed

variable {cs : List Channel} {tag : Option Tag} {ms : List (Channel × History N)}

theorem nil : Claimed S log w w [] tag [] := ⟨rfl, .nil, nofun, nofun, nofun⟩

theorem cons {c : Channel} {m : History N} {v : Shared N ε}
    (hbefore : Relation.ReflTransGen S (w.history log) m)
    (hafter : Relation.ReflTransGen S m (v.history log)) (hcopying : m.buffers.role = .copying)
    (htag : tag = some (m.buffers.generation, m.buffers.points))
    (h : Claimed S log v w' cs tag ms) (hrest : Observed S log v w') :
    Claimed S log w w' (c :: cs) tag ((c, m) :: ms) where
  channels := by rw [List.map_cons, h.channels]
  ordered := List.pairwise_cons.mpr ⟨fun a ha => hafter.trans (h.between a ha).1, h.ordered⟩
  between := List.forall_mem_cons.mpr ⟨⟨hbefore, hafter.trans hrest⟩,
    fun a ha => ⟨(hbefore.trans hafter).trans (h.between a ha).1, (h.between a ha).2⟩⟩
  copying := List.forall_mem_cons.mpr ⟨hcopying, h.copying⟩
  tag := List.forall_mem_cons.mpr ⟨htag, h.tag⟩

theorem mono {v : Shared N ε} (hv : Observed S log v w) (h : Claimed S log w w' cs tag ms) :
    Claimed S log v w' cs tag ms :=
  { h with between := fun m hm => ⟨hv.trans (h.between m hm).1, (h.between m hm).2⟩ }

end Claimed

/-- The copy with the views of the claimed channels entered. -/
def copied (ms : List (Channel × History N)) (copy : Traces Float32 N) : Traces Float32 N :=
  ms.foldl (fun t m => t.setFirst m.1 (m.2.buffers.view (m.2.buffers.snapshot m.1))) copy

/-- An attempt that did not fail moved as the others did; a whole one copied every channel at
a moment of its own, all under one tag. -/
theorem copyChannelsAmid_inv (hS : History.Rules S) (hnow : Moves (Observed S log) clock.now)
    (hrelax : Moves (Observed S log) clock.relax)
    (hothers : Moves (Observed (History.Aside S) log) others) : ∀ {cs : List Channel}
    {seen : Option Tag} {copy copy' : Traces Float32 N} {attempt : CopyAttempt} {w w' : Shared N ε},
    copyChannelsAmid clock others cs seen copy w = .ok ((attempt, copy'), w') →
    (∃ e, attempt = .failed e) ∨ Observed S log w w' ∧ (attempt = .torn ∨
      ∃ tag ms, attempt = .whole tag ∧ Claimed S log w w' cs tag ms ∧
        (cs = [] → tag = seen) ∧ (∀ t, seen = some t → tag = some t) ∧ copy' = copied ms copy) := by
  intro cs
  induction cs with
  | nil =>
    intro seen copy copy' attempt w w' h
    obtain ⟨he, rfl⟩ := Run.pure_inv h
    cases he
    exact Or.inr ⟨refl_of _ w', Or.inr ⟨seen, [], rfl, .nil, fun _ => rfl, fun _ ht => ht, rfl⟩⟩
  | cons c cs ih =>
    intro seen copy copy' attempt w w' h
    unfold copyChannelsAmid at h
    obtain ⟨claim, w₁, hclaim, h⟩ := Run.bind_inv h
    cases claim with
    | error e =>
      obtain ⟨he, -⟩ := Run.pure_inv h
      cases he
      exact Or.inl ⟨e, rfl⟩
    | ok snapshot =>
      obtain ⟨m, hbefore, hheld, rfl⟩ := acquireAmid_ok hS hnow hrelax hothers hclaim
      dsimp only at h
      rw [Run.get_bind] at h
      obtain ⟨_, w₂, h₂, h⟩ := Run.bind_inv h
      obtain ⟨unchanged, w₃, h₃, h⟩ := Run.bind_inv h
      have hafter := releaseAmid_ok hS hothers (hheld.stays hothers h₂) h₃
      -- the copy was taken after the moment, and the traces were still those of the moment
      have hview : w₁.buffers.view (m.buffers.snapshot c) =
          m.buffers.view (m.buffers.snapshot c) := by
        rw [hheld.buffers_eq hS]
        rfl
      rw [hview] at h
      split at h
      · obtain ⟨he, rfl⟩ := Run.pure_inv h
        cases he
        exact Or.inr ⟨hbefore.trans hafter, Or.inl rfl⟩
      · rename_i hwhole
        rcases ih h with hfailed | ⟨hrest, rfl | ⟨tag, ms, rfl, hms, -, hseen, rfl⟩⟩
        · exact Or.inl hfailed
        · exact Or.inr ⟨(hbefore.trans hafter).trans hrest, Or.inl rfl⟩
        · have htag := hseen _ rfl
          refine Or.inr ⟨(hbefore.trans hafter).trans hrest, Or.inr ⟨tag, (c, m) :: ms, rfl,
            hms.cons hbefore hafter hheld.copying htag hrest, nofun, ?_, rfl⟩⟩
          intro t ht
          rw [ht, Bool.or_eq_true, not_or] at hwhole
          have hsame : t = (m.buffers.generation, m.buffers.points) := by
            simpa [Buffers.snapshot] using hwhole.2
          rw [htag, hsame]
          rfl

theorem get_copied_of_notMem : ∀ {ms : List (Channel × History N)} {copy : Traces Float32 N}
    {c : Channel}, c ∉ ms.map (·.1) → (copied ms copy).get c = copy.get c := by
  intro ms
  induction ms with
  | nil => exact fun _ => rfl
  | cons m ms ih =>
    intro copy c hc
    rw [List.map_cons, List.mem_cons, not_or] at hc
    exact (ih hc.2).trans (Traces.get_setFirst_of_ne _ _ hc.1)

theorem copied_shows : ∀ {ms : List (Channel × History N)} {copy : Traces Float32 N},
    (ms.map (·.1)).Nodup → ∀ m ∈ ms,
      ((copied ms copy).get m.1).toList.take m.2.buffers.points.toNat =
        (m.2.buffers.traces.get m.1).toList.take m.2.buffers.points.toNat := by
  intro ms
  induction ms with
  | nil => exact fun _ m hm => by cases hm
  | cons x ms ih =>
    intro copy hnodup m hm
    rw [List.map_cons, List.nodup_cons] at hnodup
    rcases List.mem_cons.mp hm with rfl | hm
    · have hview : (copied ms (copy.setFirst m.1 (m.2.buffers.view (m.2.buffers.snapshot m.1)))).get
          m.1 = _ := get_copied_of_notMem hnodup.1
      have hstep : (copied (m :: ms) copy).get m.1 = _ := hview
      rw [hstep]
      exact Traces.take_setFirst copy m.1 _ _
    · exact ih hnodup.2 m hm

/-! ## The dump -/

/-- A successful dump: each channel was copied at a moment of its own, all under one
generation and with the point count that is the answer. -/
theorem copyConsistentlyAmid_ok (hS : History.Rules S) (hnow : Moves (Observed S log) clock.now)
    (hrelax : Moves (Observed S log) clock.relax)
    (hothers : Moves (Observed (History.Aside S) log) others) {out : ScanMask} {p : UInt16} :
    ∀ {attempts : Nat} {copy copy' : Traces Float32 N} {w w' : Shared N ε},
      copyConsistentlyAmid clock others out attempts copy w = .ok ((.ok p, copy'), w') →
      ∃ tag ms start, Claimed S log w w' out.channels tag ms ∧ copy' = copied ms start ∧
        ∀ t, tag = some t → p = t.2 := by
  intro attempts
  induction attempts with
  | zero =>
    intro copy copy' w w' h
    cases (Run.pure_inv h).1
  | succ attempts ih =>
    intro copy copy' w w' h
    unfold copyConsistentlyAmid at h
    obtain ⟨⟨attempt, copy₁⟩, w₁, hcopy, h⟩ := Run.bind_inv h
    rcases copyChannelsAmid_inv hS hnow hrelax hothers hcopy with
      ⟨e, rfl⟩ | ⟨hmoved, rfl | ⟨tag, ms, rfl, hms, -, -, rfl⟩⟩
    · cases (Run.pure_inv h).1
    · obtain ⟨tag, ms, start, hms, hrest⟩ := ih h
      exact ⟨tag, ms, start, hms.mono hmoved, hrest⟩
    · cases tag with
      | none =>
        dsimp only at h
        rw [Run.get_bind] at h
        obtain ⟨he, rfl⟩ := Run.pure_inv h
        cases he
        exact ⟨none, ms, copy, hms, rfl, nofun⟩
      | some t =>
        obtain ⟨he, rfl⟩ := Run.pure_inv h
        cases he
        refine ⟨some t, ms, copy, hms, rfl, fun u hu => ?_⟩
        cases hu
        rfl

/-- The answer `p` and the copy are what `pass` published. -/
def IsPass (out : ScanMask) (p : UInt16) (copy : Traces Float32 N) (pass : Publication N) : Prop :=
  ∀ c, out.outputs c → pass.ShownBy p copy c

/-- The copy holds `p` points of each channel as they were at its moment. -/
def Copied (ms : List (Channel × History N)) (p : UInt16) (copy : Traces Float32 N) : Prop :=
  ∀ m ∈ ms, m.2.buffers.points = p ∧
    (copy.get m.1).toList.take p.toNat = (m.2.buffers.traces.get m.1).toList.take p.toNat

theorem mem_channels {out : ScanMask} {c : Channel} : c ∈ out.channels ↔ out.outputs c := by
  unfold ScanMask.channels
  rw [List.mem_filter]
  refine ⟨fun h => h.2, fun h => ⟨?_, h⟩⟩
  cases c <;> decide

/-- What a successful dump shows of each channel, when it was claimed. -/
theorem dumpAmid_claimed (hS : History.Rules S) (hnow : Moves (Observed S log) clock.now)
    (hrelax : Moves (Observed S log) clock.relax)
    (hothers : Moves (Observed (History.Aside S) log) others) {out : ScanMask} {p : UInt16}
    {copy copy' : Traces Float32 N}
    (h : dumpAmid clock others out copy w = .ok ((.ok p, copy'), w')) :
    ∃ tag ms, Claimed S log w w' out.channels tag ms ∧ Copied ms p copy' := by
  obtain ⟨tag, ms, start, hms, rfl, hp⟩ := copyConsistentlyAmid_ok hS hnow hrelax hothers h
  have hnodup : (ms.map (·.1)).Nodup := by
    rw [hms.channels]
    exact List.Nodup.filter _ (by decide)
  refine ⟨tag, ms, hms, fun m hm => ?_⟩
  have hpoints : p = m.2.buffers.points := hp _ (hms.tag m hm)
  rw [hpoints]
  exact ⟨rfl, copied_shows hnodup m hm⟩

section Moments

variable {out : ScanMask} {p : UInt16} {copy : Traces Float32 N} {tag : Option Tag}
  {ms : List (Channel × History N)}

theorem Copied.shownBy_iff (hcopied : Copied ms p copy) {m : Channel × History N} (hm : m ∈ ms)
    (pass : Publication N) : pass.ShownBy p copy m.1 ↔ m.2.Shows pass m.1 := by
  obtain ⟨hpoints, hdata⟩ := hcopied m hm
  unfold History.Shows Publication.ShownBy
  rw [hpoints, hdata]

/-- The dump is a pass exactly if the buffers showed this pass at every claim. -/
theorem isPass_iff (hms : Claimed S log w w' out.channels tag ms) (hcopied : Copied ms p copy)
    (pass : Publication N) : IsPass out p copy pass ↔ ∀ m ∈ ms, m.2.Shows pass m.1 := by
  constructor
  · intro hpass m hm
    refine (hcopied.shownBy_iff hm pass).mp (hpass m.1 ?_)
    rw [← mem_channels, ← hms.channels]
    exact List.mem_map_of_mem hm
  · intro hshows c hc
    rw [← mem_channels, ← hms.channels] at hc
    obtain ⟨m, hm, rfl⟩ := List.mem_map.mp hc
    exact (hcopied.shownBy_iff hm pass).mpr (hshows m hm)

theorem Claimed.same_generation {cs : List Channel} (hms : Claimed S log w w' cs tag ms) :
    ∀ a ∈ ms, ∀ b ∈ ms, a.2.buffers.generation = b.2.buffers.generation := by
  intro a ha b hb
  have htag := (hms.tag a ha).symm.trans (hms.tag b hb)
  rw [Option.some.injEq, Prod.mk.injEq] at htag
  exact htag.1

/-- Within one turn of the generation, equal generations leave no room for a count. -/
theorem Claimed.same_counted {cs : List Channel} (hS : History.Rules S)
    (hms : Claimed S log w w' cs tag ms)
    (hturn : (log w'.environment).counted.length < (log w.environment).counted.length + 2 ^ 32) :
    ∀ a ∈ ms, ∀ b ∈ ms, a.2.counted = b.2.counted := by
  have hordered : ms.Pairwise fun a b => a.2.counted = b.2.counted := by
    refine hms.ordered.imp_of_mem fun {a b} ha hb hab => ?_
    have hstart := History.counted_length_le (hS.reach (hms.between a ha).1)
    have hend := History.counted_length_le (hS.reach (hms.between b hb).2)
    have hlen : b.2.counted.length < a.2.counted.length + 2 ^ 32 :=
      (hend.trans_lt hturn).trans_le (Nat.add_le_add_right hstart _)
    exact (History.same_counted (hS.reach hab) (hms.same_generation b hb a ha) hlen).symm
  have hsymm : Std.Symm fun a b : Channel × History N => a.2.counted = b.2.counted :=
    ⟨fun _ _ he => he.symm⟩
  exact fun a ha b hb => hordered.forall_of_forall (fun _ _ => by rfl) ha hb

/-- Intact buffers with equally many passes pending all show one and the same pass. -/
theorem isPass_of_intact (hS : History.Rules S) (hms : Claimed S log w w' out.channels tag ms)
    (hcopied : Copied ms p copy)
    (hturn : (log w'.environment).counted.length < (log w.environment).counted.length + 2 ^ 32)
    (hne : out.channels ≠ []) (hintact : ∀ m ∈ ms, m.2.Intact)
    (hpending : ∀ a ∈ ms, ∀ b ∈ ms, a.2.pending.length = b.2.pending.length) :
    ∃ pass ∈ (log w'.environment).passes, IsPass out p copy pass := by
  cases ms with
  | nil => exact absurd hms.channels.symm hne
  | cons first ms =>
    obtain ⟨pass, rest, hpasses, hshows⟩ := hintact first List.mem_cons_self
    have hlatest := History.reach_passes (hS.reach (hms.between first List.mem_cons_self).2)
    refine ⟨pass, hlatest.mem ?_, (isPass_iff hms hcopied pass).mpr fun m hm => ?_⟩
    · rw [hpasses]
      exact List.mem_cons_self
    · rcases List.mem_cons.mp hm with rfl | hlater
      · exact hshows m.1
      · have hsame : m.2.passes = first.2.passes :=
          History.same_passes (hS.reach ((List.pairwise_cons.mp hms.ordered).1 m hlater))
            (hms.same_counted hS hturn m hm first List.mem_cons_self)
            (hpending m hm first List.mem_cons_self)
        obtain ⟨pass', rest', hpasses', hshows'⟩ := hintact m hm
        rw [hsame, hpasses] at hpasses'
        cases hpasses'
        exact hshows' m.1

/-- Where moments differ in what is pending, and at most one pass is, S11 is of the latest counted
pass and S21 of the pending one. -/
theorem mixed_of_pending (hS : History.Rules S) (hms : Claimed S log w w' out.channels tag ms)
    (hcopied : Copied ms p copy)
    (hturn : (log w'.environment).counted.length < (log w.environment).counted.length + 2 ^ 32)
    (hintact : ∀ m ∈ ms, m.2.Intact) (hone : ∀ m ∈ ms, m.2.pending.length ≤ 1)
    (hdiffer : ¬∀ a ∈ ms, ∀ b ∈ ms, a.2.pending.length = b.2.pending.length) :
    ∃ m older newer rest, History.Reach (w.history log) m ∧ History.Reach m (w'.history log) ∧
      m.pending = [newer] ∧ m.counted = older :: rest ∧
      older.ShownBy p copy .s11 ∧ newer.ShownBy p copy .s21 := by
  have hsub : (ms.map (·.1)).Sublist Channel.all := by
    rw [hms.channels]
    exact List.filter_sublist
  have hcounted := hms.same_counted hS hturn
  obtain _ | ⟨⟨c, a⟩, _ | ⟨⟨d, b⟩, _ | ⟨e, ms⟩⟩⟩ := ms
  · exact absurd (by simp) hdiffer
  · exact absurd (by simp) hdiffer
  · have hboth : [c, d] = [.s11, .s21] := hsub.eq_of_length rfl
    obtain ⟨rfl, rfl⟩ : c = .s11 ∧ d = .s21 := by simpa using hboth
    simp only [List.forall_mem_cons, List.not_mem_nil, false_imp_iff, implies_true, and_true]
      at hintact hone hcounted
    have hab : History.Reach a b :=
      hS.reach ((List.pairwise_cons.mp hms.ordered).1 _ List.mem_cons_self)
    have hlen : a.pending.length ≤ b.pending.length :=
      (History.pending_of_same_counted hab hcounted.2).length_le
    have hne : a.pending.length ≠ b.pending.length := fun he => hdiffer (by simp [he])
    obtain ⟨newer, hnewer⟩ : ∃ newer, b.pending = [newer] := List.length_eq_one_iff.mp (by omega)
    have hnone : a.pending = [] := List.length_eq_zero_iff.mp (by omega)
    obtain ⟨⟨older, rest, holder, hshows⟩, ⟨latest, rest', hlatest, hshows'⟩⟩ := hintact
    rw [PassLog.passes, hnone, List.nil_append] at holder
    rw [PassLog.passes, hnewer, List.singleton_append] at hlatest
    cases hlatest
    have hb : (Channel.s21, b) ∈ [(Channel.s11, a), (Channel.s21, b)] := by simp
    refine ⟨b, older, newer, rest, hS.reach (hms.between _ hb).1, hS.reach (hms.between _ hb).2,
      hnewer, hcounted.2.trans holder, ?_, ?_⟩
    · exact (hcopied.shownBy_iff List.mem_cons_self older).mpr (hshows .s11)
    · exact (hcopied.shownBy_iff hb newer).mpr (hshows' .s21)
  · exact absurd hsub.length_le (by simp [Channel.all])

end Moments

/-- What a successful dump shows, whatever producers and other readers do between its accesses.
Each selected channel is what the buffers held at some moment, all moments under one generation
and one point count, which is the answer. So the dump is the data of a pass exactly if the buffers
showed this pass at these moments. They do unless a slice of an unfinished pass has written to
them, or more completed passes were waiting to be counted at one moment than at another. -/
theorem dump_exact (hnow : Moves (Observed History.Step log) clock.now)
    (hrelax : Moves (Observed History.Step log) clock.relax)
    (hothers : Moves (Observed (History.Aside History.Step) log) others) {out : ScanMask}
    {p : UInt16} {copy copy' : Traces Float32 N}
    (h : dumpAmid clock others out copy w = .ok ((.ok p, copy'), w')) :
    ∃ ms : List (Channel × History N), ms.map (·.1) = out.channels ∧
      (ms.Pairwise fun a b => History.Reach a.2 b.2) ∧
      (∀ m ∈ ms, History.Reach (w.history log) m.2 ∧ History.Reach m.2 (w'.history log) ∧
        m.2.buffers.role = .copying ∧ m.2.buffers.points = p ∧
        (copy'.get m.1).toList.take p.toNat =
          (m.2.buffers.traces.get m.1).toList.take p.toNat) ∧
      (∀ a ∈ ms, ∀ b ∈ ms, a.2.buffers.generation = b.2.buffers.generation) ∧
      (∀ pass, IsPass out p copy' pass ↔ ∀ m ∈ ms, m.2.Shows pass m.1) ∧
      ((log w'.environment).counted.length < (log w.environment).counted.length + 2 ^ 32 →
        (∀ a ∈ ms, ∀ b ∈ ms, a.2.counted = b.2.counted) ∧
        (out.channels ≠ [] → (∀ m ∈ ms, m.2.Intact) →
          (∀ a ∈ ms, ∀ b ∈ ms, a.2.pending.length = b.2.pending.length) →
          ∃ pass ∈ (log w'.environment).passes, IsPass out p copy' pass)) := by
  have hS : History.Rules (N := N) History.Step := History.step_rules
  obtain ⟨tag, ms, hms, hcopied⟩ := dumpAmid_claimed hS hnow hrelax hothers h
  refine ⟨ms, hms.channels, hms.ordered, fun m hm => ?_, hms.same_generation,
    isPass_iff hms hcopied, fun hturn => ⟨hms.same_counted hS hturn,
      isPass_of_intact hS hms hcopied hturn⟩⟩
  exact ⟨(hms.between m hm).1, (hms.between m hm).2, hms.copying m hm, (hcopied m hm).1,
    (hcopied m hm).2⟩

/-- Where one producer counts each pass before it begins the next and every slice completes its
pass, a successful dump shows one pass, or S11 of one pass and S21 of the next, which was not
counted yet when it was copied. -/
theorem dump_whole (hnow : Moves (Observed History.WholeStep log) clock.now)
    (hrelax : Moves (Observed History.WholeStep log) clock.relax)
    (hothers : Moves (Observed (History.Aside History.WholeStep) log) others)
    (hstart : (w.history log).Whole) {out : ScanMask} (hne : out.channels ≠ []) {p : UInt16}
    {copy copy' : Traces Float32 N}
    (h : dumpAmid clock others out copy w = .ok ((.ok p, copy'), w'))
    (hturn : (log w'.environment).counted.length < (log w.environment).counted.length + 2 ^ 32) :
    (∃ pass ∈ (log w'.environment).passes, IsPass out p copy' pass) ∨
      ∃ m older newer rest, History.Reach (w.history log) m ∧ History.Reach m (w'.history log) ∧
        m.pending = [newer] ∧ m.counted = older :: rest ∧
        older.ShownBy p copy' .s11 ∧ newer.ShownBy p copy' .s21 := by
  have hS : History.Rules (N := N) History.WholeStep := History.whole_rules
  obtain ⟨tag, ms, hms, hcopied⟩ := dumpAmid_claimed hS hnow hrelax hothers h
  have hwhole : ∀ m ∈ ms, m.2.Whole := fun m hm =>
    History.whole_of_reach (hms.between m hm).1 hstart
  have hintact : ∀ m ∈ ms, m.2.Intact := fun m hm =>
    (hwhole m hm).intact (by rw [hms.copying m hm]; exact nofun)
  by_cases hpending : ∀ a ∈ ms, ∀ b ∈ ms, a.2.pending.length = b.2.pending.length
  · exact Or.inl (isPass_of_intact hS hms hcopied hturn hne hintact hpending)
  · exact Or.inr (mixed_of_pending hS hms hcopied hturn hintact (fun m hm => (hwhole m hm).pending)
      hpending)

/-! ## A pass that is not counted yet -/

def bothChannels : ScanMask := (Flags.none.put .dataS11 true).put .dataS21 true

/-- Passes of one point with one value. -/
def flatPass (z : Phasor Float32) : Publication 1 := ⟨1, ⟨#v[z], #v[z]⟩⟩

/-- A clock under which a producer makes a pass as soon as it has been read a second time, and is
interrupted before it counts the pass. -/
def stallingClock (z : Phasor Float32) : Timebase (Shared 1 (PassLog 1 × Bool)) where
  now := do
    modify fun w => if w.environment.2 = true ∧ w.buffers.role = .idle then { w with
        buffers := { w.buffers with role := .idle, points := 1, traces := (flatPass z).traces }
        environment.1.pending := flatPass z :: w.environment.1.pending }
      else { w with environment.2 := true }
    return 0
  relax := pure ()

def firstPass (z : Phasor Float32) : Shared 1 (PassLog 1 × Bool) where
  buffers := { generation := 1, points := 1, traces := (flatPass z).traces }
  environment := ({ counted := [flatPass z] }, false)

/-- The producer moves by its own steps, and still the dump answers with S11 of the first pass and
S21 of the second. -/
example (y z : Phasor Float32) :
    Moves (Observed History.Step Prod.fst) (stallingClock z).now ∧
      ∃ copy' w', dump (stallingClock z) bothChannels .zero (firstPass y) =
          .ok ((.ok 1, copy'), w') ∧
        copy'.s11 = #v[y] ∧ copy'.s21 = #v[z] := by
  refine ⟨.bind (.modify fun w => ?_) fun _ => .pure 0, _, _, rfl, rfl, rfl⟩
  split
  · rename_i hidle
    have hbegin : w.buffers.begin = .ok { w.buffers with role := .sweeping } := by
      rw [Buffers.begin, Buffers.claim, if_pos hidle.2]
    exact .head (.begin hbegin) (.head (.setPoints 1 rfl)
      (.head (.write (flatPass z).traces rfl) (.single (.complete rfl))))
  · exact .refl

/-! ## A slice that yields -/

/-- Ends the slice in flight without completing its pass. -/
def yieldSlice : Run (Shared N (PassLog N)) Unit :=
  modify fun w =>
    if w.buffers.role = .sweeping then { w with buffers := w.buffers.unclaim } else w

/-- A clock whose interrupt is that. -/
def yieldingClock : Timebase (Shared N (PassLog N)) where
  now := pure 0
  relax := yieldSlice

theorem yieldingClock_now : Moves (Observed (N := N) History.Step id) yieldingClock.now :=
  .pure _

theorem yieldSlice_moves :
    Moves (Observed (N := N) (History.Aside History.Step) id) yieldSlice := by
  refine .modify fun w => ?_
  split
  · rename_i hsweep
    exact .single ⟨.interrupt hsweep, fun hr => by cases hsweep.symm.trans hr⟩
  · exact refl_of _ w

theorem yieldingClock_relax : Moves (Observed (N := N) History.Step id) yieldingClock.relax :=
  fun _ _ _ h => History.reach_of_aside (yieldSlice_moves h)

/-- A pass of one point is complete, and the first slice of a pass of two points is in flight. -/
def secondPass : Shared 4 (PassLog 4) where
  buffers := { role := .sweeping, generation := 1, points := 2 }
  environment := { counted := [⟨1, .zero⟩] }

theorem secondPass_reached : History.Reach ⟨{}, {}⟩ (secondPass.history id) := by
  have hfirst : History.Reach (N := 4) ⟨{}, {}⟩
      ⟨{ counted := [⟨1, .zero⟩] }, { generation := 1, points := 1 }⟩ :=
    .head (.begin rfl) (.head (.setPoints 1 rfl) (.head (.complete rfl)
      (.single (.count (List.nil_append _).symm))))
  exact hfirst.trans (.head (.begin rfl) (.single (.setPoints 2 rfl)))

/-- The slice yields during the dump, which then answers with the points of the unfinished
pass: no completed pass has two points. -/
theorem dump_shows_unfinished : History.Reach ⟨{}, {}⟩ (secondPass.history id) ∧
    ∃ copy' w', dump yieldingClock bothChannels .zero secondPass = .ok ((.ok 2, copy'), w') ∧
      ∀ pass ∈ w'.environment.passes, ¬IsPass bothChannels 2 copy' pass := by
  have hdump : ∃ copy', dump yieldingClock bothChannels .zero secondPass =
      .ok ((.ok 2, copy'), { secondPass with buffers := secondPass.buffers.unclaim }) :=
    ⟨_, rfl⟩
  obtain ⟨copy', hdump⟩ := hdump
  refine ⟨secondPass_reached, copy', _, hdump, fun pass hpass hshown => ?_⟩
  have honly : pass = ⟨1, .zero⟩ := List.mem_singleton.mp hpass
  have hpoints := (hshown .s11 (by decide)).1
  rw [honly] at hpoints
  exact absurd hpoints (by decide)

/-- The two moments of that dump. -/
theorem dump_exact_unfinished : ∃ copy' w', ∃ ms : List (Channel × History 4),
    dumpAmid yieldingClock yieldSlice bothChannels .zero secondPass = .ok ((.ok 2, copy'), w') ∧
    ms.map (·.1) = [.s11, .s21] ∧
    (∀ m ∈ ms, m.2.buffers.role = .copying ∧ m.2.buffers.points = 2) ∧
    ∀ pass, IsPass bothChannels 2 copy' pass ↔ ∀ m ∈ ms, m.2.Shows pass m.1 := by
  have hdump : ∃ copy' w', dumpAmid yieldingClock yieldSlice bothChannels .zero secondPass =
      .ok ((.ok 2, copy'), w') := ⟨_, _, rfl⟩
  obtain ⟨copy', w', hdump⟩ := hdump
  obtain ⟨ms, hchannels, -, hms, -, hpass, -⟩ :=
    dump_exact yieldingClock_now yieldingClock_relax yieldSlice_moves hdump
  exact ⟨copy', w', ms, hdump, hchannels,
    fun m hm => ⟨(hms m hm).2.2.1, (hms m hm).2.2.2.1⟩, hpass⟩

end Shared

end NetworkAnalyzer
