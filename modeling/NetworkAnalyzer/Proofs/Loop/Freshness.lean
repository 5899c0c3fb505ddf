import NetworkAnalyzer.Proofs.Loop.Calls
import NetworkAnalyzer.Proofs.Sweep.Slices

/-!
# What a completed pass publishes

A pass may be spread over the calls of several ticks, and the host may serve the
instrument between them: the mask is decided anew for every call, and settings that leave
the plan alone do not restart the pass. `passOf` are the calls of the pass in progress,
and `Joined` says that each of them goes on where the one before ended, on the traces it
left. `Standing` is what holds between any two ticks.

Calls are listed with the latest first. The calls of a pass are those back to the last one that
began at point 0, whether it was announced or not, and a call that made no progress is one of them.
Between two calls there is an `Interlude`: the head stands where it stood and the traces are the
same, or the next call starts over. Either way the calls of the pass remain joined.

Each point was measured by exactly one of them, with the mask of that call. So a channel that some
call did not select is left over at the points of that call, from whatever was there before the
pass.

* `Joined.covered`, `Joined.unique`: every point was measured by one call, and by no other.
* `Joined.contents`: a point holds what its call took on the channels the call selected,
  and what the traces held when the pass was started on the others.
* `Ticks.standing`: the invariant of every run of ticks.
* `completed_contents`: what a completed pass publishes. It is all measured by this pass
  exactly if each of its calls that measured a point selected every channel of the last one.
* `widened_unmeasured`: a channel enabled in the middle of a pass is published with points
  that no call of the pass measured. The host that does so enables every trace once a pass has
  yielded.
-/

namespace NetworkAnalyzer

variable {N : Nat} {ε : Type} {board : Board (Shared N ε)} {host : Host N ε}

/-- The calls of the pass that the latest call belongs to, the latest first: back to the one
that started at point 0. -/
def passOf : List (Call N ε) → List (Call N ε)
  | [] => []
  | k :: calls => if k.first = 0 then [k] else k :: passOf calls

/-- Calls, the latest first, each of which goes on where the one before ended. -/
inductive Joined (board : Board (Shared N ε)) : List (Call N ε) → Prop
  | opening {k : Call N ε} : k.Advanced board → k.first = 0 → Joined board [k]
  | next {k m : Call N ε} {pass : List (Call N ε)} : k.Advanced board → k.first = m.last →
      k.start.buffers.traces = m.traces → k.instrument.head.plan = m.instrument.head.plan →
      Joined board (m :: pass) → Joined board (k :: m :: pass)

theorem passOf_pair {k m : Call N ε} {calls : List (Call N ε)} (hk : k.first ≠ 0)
    (hm : m.first = 0) : passOf (k :: m :: calls) = [k, m] := by
  unfold passOf passOf
  rw [if_neg hk, if_pos hm]

namespace Joined

variable {k m m' o : Call N ε} {pass : List (Call N ε)} {c : Channel} {i : Nat}

theorem advanced (h : Joined board pass) (hm : m ∈ pass) : m.Advanced board := by
  induction h with
  | opening hk =>
    rw [List.mem_singleton.mp hm]
    exact hk
  | next hk _ _ _ _ ih =>
    rcases List.mem_cons.mp hm with rfl | hm
    · exact hk
    · exact ih hm

theorem plan (h : Joined board (k :: pass)) (hm : m ∈ k :: pass) :
    m.instrument.head.plan = k.instrument.head.plan := by
  induction pass generalizing k with
  | nil => rw [List.mem_singleton.mp hm]
  | cons n pass ih =>
    cases h with
    | next _ _ _ hplan hrest =>
      rcases List.mem_cons.mp hm with rfl | hm
      · rfl
      · exact (ih hrest hm).trans hplan.symm

theorem opens (h : Joined board (k :: pass)) :
    ∃ o, (k :: pass).getLast? = some o ∧ o.first = 0 := by
  induction pass generalizing k with
  | nil =>
    cases h with
    | opening _ hfirst => exact ⟨k, rfl, hfirst⟩
  | cons n pass ih =>
    cases h with
    | next _ _ _ _ hrest =>
      rw [List.getLast?_cons_cons]
      exact ih hrest

theorem last_le (h : Joined board (k :: pass)) (hm : m ∈ k :: pass) : m.last ≤ k.last := by
  induction pass generalizing k with
  | nil => exact Nat.le_of_eq (congrArg Call.last (List.mem_singleton.mp hm))
  | cons n pass ih =>
    cases h with
    | next hk hfirst _ _ hrest =>
      rcases List.mem_cons.mp hm with rfl | hm
      · exact Nat.le_refl _
      · have hn := ih hrest hm
        have hle : k.first ≤ k.last := Pass.Stretch.le hk
        omega

/-- Every point before the end of the latest call was measured by some call. -/
theorem covered (h : Joined board (k :: pass)) (hi : i < k.last) :
    ∃ m ∈ k :: pass, m.first ≤ i ∧ i < m.last := by
  induction pass generalizing k with
  | nil =>
    cases h with
    | opening _ hfirst => exact ⟨k, List.mem_cons_self, hfirst ▸ Nat.zero_le i, hi⟩
  | cons n pass ih =>
    cases h with
    | next _ hfirst _ _ hrest =>
      by_cases hlate : k.first ≤ i
      · exact ⟨k, List.mem_cons_self, hlate, hi⟩
      · obtain ⟨m, hm, hcovers⟩ := ih hrest (by omega)
        exact ⟨m, List.mem_cons_of_mem _ hm, hcovers⟩

theorem unique (h : Joined board pass) (hm : m ∈ pass) (hm' : m' ∈ pass)
    (hi : m.first ≤ i ∧ i < m.last) (hi' : m'.first ≤ i ∧ i < m'.last) : m = m' := by
  induction h with
  | opening => rw [List.mem_singleton.mp hm, List.mem_singleton.mp hm']
  | next _ hfirst _ _ hrest ih =>
    rcases List.mem_cons.mp hm with rfl | hm₁
    · rcases List.mem_cons.mp hm' with rfl | hm₁'
      · rfl
      · have hle := hrest.last_le hm₁'
        omega
    · rcases List.mem_cons.mp hm' with rfl | hm₁'
      · have hle := hrest.last_le hm₁
        omega
      · exact ih hm₁ hm₁'

theorem kept (h : Joined board (k :: pass)) (hm : m ∈ k :: pass)
    (hi : m.first ≤ i ∧ i < m.last) : k.traces.entry c i = m.traces.entry c i := by
  induction pass generalizing k with
  | nil => rw [List.mem_singleton.mp hm]
  | cons n pass ih =>
    cases h with
    | next hk hfirst htraces _ hrest =>
      rcases List.mem_cons.mp hm with rfl | hm
      · rfl
      · have hle := hrest.last_le hm
        rw [hk.frame c i fun hin => by omega, htraces]
        exact ih hrest hm

/-- Entries that no call selected are those the pass was started on. -/
theorem leftover (h : Joined board (k :: pass)) (ho : (k :: pass).getLast? = some o)
    (hout : ∀ m ∈ k :: pass, ¬(m.mask.measures c ∧ m.first ≤ i ∧ i < m.last)) :
    k.traces.entry c i = o.start.buffers.traces.entry c i := by
  induction pass generalizing k with
  | nil =>
    cases h with
    | opening hk =>
      cases ho
      exact hk.frame c i (hout k List.mem_cons_self)
  | cons n pass ih =>
    cases h with
    | next hk _ htraces _ hrest =>
      rw [hk.frame c i (hout k List.mem_cons_self), htraces]
      rw [List.getLast?_cons_cons] at ho
      exact ih hrest ho fun m hm => hout m (List.mem_cons_of_mem _ hm)

/-- A point holds what its call took on the channels the call selected, and what the traces
held when the pass was started on the others. -/
theorem contents (h : Joined board (k :: pass)) (ho : (k :: pass).getLast? = some o)
    (hi : i < k.last) : ∃ m ∈ k :: pass, m.first ≤ i ∧ i < m.last ∧ ∀ c,
      (m.mask.measures c → m.Took board c i (k.traces.entry c i)) ∧
      (¬m.mask.measures c → k.traces.entry c i = o.start.buffers.traces.entry c i) := by
  obtain ⟨m, hm, hcovers⟩ := h.covered hi
  refine ⟨m, hm, hcovers.1, hcovers.2, fun c => ⟨fun hc => ?_, fun hc => ?_⟩⟩
  · rw [h.kept hm hcovers]
    exact (h.advanced hm).took hc hcovers.1 hcovers.2
  · refine h.leftover ho fun m' hm' hin => hc ?_
    rw [h.unique hm hm' hcovers hin.2]
    exact hin.1

/-- The points are all measured by the pass exactly if each call selected every channel. -/
theorem fresh_iff (h : Joined board (k :: pass)) (mask : SweepMask) :
    (∀ i < k.last, ∀ c, mask.measures c →
        ∃ m ∈ k :: pass, m.Took board c i (k.traces.entry c i)) ↔
      ∀ m ∈ k :: pass, m.first < m.last → ∀ c, mask.measures c → m.mask.measures c := by
  constructor
  · intro hfresh m hm hlt c hc
    obtain ⟨m', hm', hfirst, hlast, htook, -⟩ :=
      hfresh m.first (Nat.lt_of_lt_of_le hlt (h.last_le hm)) c hc
    rw [h.unique hm hm' ⟨Nat.le_refl _, hlt⟩ ⟨hfirst, hlast⟩]
    exact htook
  · intro hall i hi c hc
    obtain ⟨m, hm, hfirst, hlast⟩ := h.covered hi
    have hselected := hall m hm (Nat.lt_of_le_of_lt hfirst hlast) c hc
    refine ⟨m, hm, ?_⟩
    rw [h.kept hm ⟨hfirst, hlast⟩]
    exact (h.advanced hm).took hselected hfirst hlast

end Joined

/-! ## Between two ticks -/

/-- The next call starts over, or it goes on where the joined calls of a pass ended. -/
def Standing (board : Board (Shared N ε)) (calls : List (Call N ε)) (h : SweepHead)
    (w : Shared N ε) : Prop :=
  h.startPoint N true = 0 ∨ ∃ k pass, passOf calls = k :: pass ∧ Joined board (k :: pass) ∧
    k.last = h.startPoint N true ∧ k.traces = w.buffers.traces ∧ k.instrument.head.plan = h.plan

theorem Standing.interlude {calls : List (Call N ε)} {h h' : SweepHead} {w w' : Shared N ε}
    (hs : Standing board calls h w) (hbetween : Interlude (h, w) (h', w')) :
    Standing board calls h' w' := by
  rcases hbetween with hover | ⟨hstate, hplan, htraces⟩
  · exact Or.inl hover
  · have hstart := SweepHead.startPoint_congr (N := N) hstate hplan true
    rcases hs with hover | ⟨k, pass, hpass, hjoined, hlast, hleft, hsame⟩
    · exact Or.inl (hstart.trans hover)
    · exact Or.inr ⟨k, pass, hpass, hjoined, hlast.trans hstart.symm, hleft.trans htraces.symm,
        hsame.trans hplan.symm⟩

/-- A call that advanced joins the calls of its pass. -/
theorem Standing.joined {calls : List (Call N ε)} {k : Call N ε} {w : Shared N ε}
    (hs : Standing board calls k.instrument.head w)
    (hstart : k.start.buffers.traces = w.buffers.traces) (hk : k.Advanced board) :
    ∃ pass, passOf (k :: calls) = k :: pass ∧ Joined board (k :: pass) := by
  by_cases hfirst : k.first = 0
  · refine ⟨[], ?_, .opening hk hfirst⟩
    unfold passOf
    rw [if_pos hfirst]
  · -- only a breakable call goes on with a pass
    have hresumed : k.first = k.instrument.head.startPoint N true := by
      unfold Call.first at hfirst ⊢
      cases hb : k.breakable with
      | true => rfl
      | false =>
        rw [hb] at hfirst
        exact absurd (SweepHead.startPoint_unbreakable _) hfirst
    rcases hs with hover | ⟨m, pass, hpass, hjoined, hlast, hleft, hplan⟩
    · exact absurd (hresumed.trans hover) hfirst
    · refine ⟨m :: pass, ?_, .next hk (hresumed.trans hlast.symm) (hstart.trans hleft.symm)
        hplan.symm hjoined⟩
      unfold passOf
      rw [if_neg hfirst, hpass]

namespace MeasurementLoop

variable {l l' l₀ : MeasurementLoop N} {w w' w₀ v : Shared N ε} {calls : List (Call N ε)}
  {r : Option SweepResult}

theorem tick_standing (hsole : SoleWriter board host)
    (hs : Standing board calls l.instrument.head w) {called : Option (Call N ε)}
    (hcalling : l.calling board host w = .ok (called, v))
    (h : l.tick board host w = .ok ((r, l'), w')) :
    Standing board (called.toList ++ calls) l'.instrument.head w' := by
  obtain ⟨i, w₁, called', v', hservice, hcalling', hmade⟩ := tick_made hsole h
  cases hcalling.symm.trans hcalling'
  have hserved := hs.interlude (hsole.interlude hservice)
  cases called with
  | none =>
    obtain ⟨hinstrument, hshown, -⟩ := hmade
    rw [hinstrument]
    exact hserved.interlude (Or.inr ⟨rfl, rfl, congrArg Prod.fst hshown⟩)
  | some k =>
    obtain ⟨-, -, hmade⟩ := hmade
    have hinstrument : k.instrument = i := hmade.instrument
    subst hinstrument
    have hhead : l'.instrument.head = k.head := by rw [hmade.left]
    rw [hhead]
    -- a failed and a completed pass are over, a yield is joined to the calls before it
    obtain ⟨-, hplan, ⟨e, -, hstate⟩ | ⟨all, houtcome, hadvanced, hall, hyielded⟩⟩ := hmade.ran.inv
    · refine Or.inl (SweepHead.startPoint_of_not_stepping (fun j => ?_) true)
      rw [hstate]
      exact fun hj => by cases hj
    · cases all with
      | true =>
        refine Or.inl (SweepHead.startPoint_of_not_stepping (fun j => ?_) true)
        rw [(hall rfl).2]
        exact fun hj => by cases hj
      | false =>
        obtain ⟨pass, hpass, hjoined⟩ :=
          hserved.joined (congrArg Prod.fst hmade.start) hadvanced
        refine Or.inr ⟨k, pass, hpass, hjoined, (hyielded rfl).symm, ?_, hplan.symm⟩
        have hshown := hmade.shown
        unfold shownAfter at hshown
        rw [houtcome] at hshown
        exact (congrArg Prod.fst hshown).symm

theorem Ticks.standing (hsole : SoleWriter board host)
    (hstart : ∀ k, l₀.instrument.head.state ≠ .stepping k)
    (hrun : Ticks board host l₀ w₀ calls l w) :
    Standing board calls l.instrument.head w := by
  induction hrun with
  | start => exact Or.inl (SweepHead.startPoint_of_not_stepping hstart true)
  | tick _ hcalling h ih => exact tick_standing hsole ih hcalling h

/-- What a completed pass publishes, whatever the host did between its calls. Each point
holds what the call that measured it took on the channels this call selected; the channels it
did not select still hold there what they held when the pass was started. The generation
advances, and the traces are processed as they are. So all of it is measured by this pass
exactly if every call of the pass that measured a point selected the channels of the last. -/
theorem completed_contents (hsole : SoleWriter board host)
    (hstart : ∀ k, l₀.instrument.head.state ≠ .stepping k) (hrun : Ticks board host l₀ w₀ calls l w)
    {mask : SweepMask} (h : l.tick board host w = .ok ((some ⟨mask, true⟩, l'), w')) :
    ∃ k pass o v, l.calling board host w = .ok (some k, v) ∧ k.mask = mask ∧
      k.last = (k.instrument.head.points N).toNat ∧
      passOf (k :: calls) = k :: pass ∧ (k :: pass).getLast? = some o ∧ o.first = 0 ∧
      (∀ m ∈ k :: pass, m.instrument.head.plan = k.instrument.head.plan) ∧
      w'.buffers.generation = k.start.buffers.generation + 1 ∧
      w'.buffers.traces = (k.instrument.settings.processing.apply l.timeDomain k.traces
        (k.instrument.head.points N) mask).2 ∧
      (∀ i < k.last, ∃ m ∈ k :: pass, m.first ≤ i ∧ i < m.last ∧ ∀ c,
        (m.mask.measures c → m.Took board c i (k.traces.entry c i)) ∧
        (¬m.mask.measures c → k.traces.entry c i = o.start.buffers.traces.entry c i)) ∧
      ((∀ i < k.last, ∀ c, mask.measures c →
          ∃ m ∈ k :: pass, m.Took board c i (k.traces.entry c i)) ↔
        ∀ m ∈ k :: pass, m.first < m.last → ∀ c, mask.measures c → m.mask.measures c) := by
  obtain ⟨i, w₁, called, v, hservice, hcalling, hmade⟩ := tick_made hsole h
  have hserved := (hrun.standing hsole hstart).interlude (hsole.interlude hservice)
  cases called with
  | none => exact absurd rfl (hmade.2.2 mask)
  | some k =>
    obtain ⟨-, ⟨all, hr, hall⟩, hmade⟩ := hmade
    rw [Option.some.injEq, SweepResult.mk.injEq] at hr
    obtain ⟨rfl, rfl⟩ := hr
    have houtcome := hall.mp rfl
    have hinstrument : k.instrument = i := hmade.instrument
    subst hinstrument
    obtain ⟨-, hplan, ⟨e, he, -⟩ | ⟨all, he, hadvanced, hcompleted, -⟩⟩ := hmade.ran.inv
    · cases houtcome.symm.trans he
    · cases houtcome.symm.trans he
      obtain ⟨pass, hpass, hjoined⟩ := hserved.joined (congrArg Prod.fst hmade.start) hadvanced
      obtain ⟨o, ho, hopening⟩ := hjoined.opens
      have hshown := hmade.shown
      unfold shownAfter at hshown
      rw [houtcome, show k.head.points N = k.instrument.head.points N from
        SweepHead.points_congr hplan] at hshown
      exact ⟨k, pass, o, v, hcalling, rfl, (hcompleted rfl).1, hpass, ho, hopening,
        fun m hm => hjoined.plan hm, congrArg Prod.snd hshown, congrArg Prod.fst hshown,
        fun i hi => hjoined.contents ho hi, hjoined.fresh_iff k.mask⟩

end MeasurementLoop

/-! ## A channel enabled midway -/

theorem MeasurementLoop.tick_eq (board : Board (Shared N ε)) {host : Host N ε}
    {l : MeasurementLoop N} {w w₁ w₂ : Shared N ε} {i : Instrument N} {breakable : Bool}
    (hservice : host.service l.instrument w = .ok (i, w₁))
    (hallowed : host.canStart w₁ = .ok (some breakable, w₂)) {mask : SweepMask}
    (hmask : i.activeMask = mask) :
    l.tick board host w = (do
      let (outcome, l) ← run board host breakable mask { l with instrument := i }
      let result : SweepResult := ⟨mask, outcome matches .ok true⟩
      host.handleResult result
      return (some result, l)) w₂ := by
  subst hmask
  unfold tick
  rw [Run.bind_ok _ hservice]
  exact Run.bind_ok _ hallowed

namespace TestSet

def reflectionOnly : Settings where
  traces := #v[{ channel := .s11 }, { channel := .s21, enabled := false }, { channel := .s11 },
    { channel := .s21, enabled := false }]

/-- A host that enables every trace as soon as a pass has yielded. -/
def widening : Host 2 TestSet where
  service i := return if i.head.state matches .stepping _ then i.applySettings default else i
  canStart := return some true
  handleResult _ := return ()

def reflecting : MeasurementLoop 2 where
  instrument := .start { plan := ⟨0, 0, 0⟩ } reflectionOnly

def unused : Shared 2 TestSet where
  environment := {}

theorem widening_service {i : Instrument 2} {k : UInt16} (h : i.head.state = .stepping k)
    (w : Shared 2 TestSet) : widening.service i w = .ok (i.applySettings {}, w) := by
  unfold widening
  dsimp only
  rw [h]
  rfl

theorem widening_soleWriter : SoleWriter (source : Board (Shared 2 TestSet)) widening where
  frames := source_frames (fun _ _ => rfl) fun _ _ => rfl
  tune _ := .bind (.modify fun _ => rfl) fun _ => .pure _
  service {i i' w w'} h := by
    by_cases hstepping : ∃ k, i.head.state = .stepping k
    · obtain ⟨k, hk⟩ := hstepping
      cases (widening_service hk w).symm.trans h
      exact .single (.settings {})
    · have hidle : widening.service i w = .ok (i, w) := by
        unfold widening
        cases hstate : i.head.state with
        | stepping k => exact absurd ⟨k, hstate⟩ hstepping
        | idle | completed | aborted => dsimp only; rw [hstate]; rfl
      cases hidle.symm.trans h
      exact .refl
  canStart := .pure _
  handleResult _ := .pure _
  listen _ := .pure _

def flagged (delayS11 delayS21 gainOffset renormalize : Bool) (i : Instrument 2) : SweepMask :=
  let m : SweepMask := ((Flags.none.put .delayS11 delayS11).put .delayS21 delayS21).put
    .gainOffset gainOffset
  let m := (m.withChannel .s11 (i.settings.measures .s11)).withChannel .s21
    (i.settings.measures .s21)
  ((m.put .calibrate (i.calibration.status.has .apply)).put .interpolate
    (i.calibration.status.has .interpolated)).put .renormalize renormalize

/-- Comparisons of floating-point numbers do not reduce, but they are the same for all
settings with the default corrections. -/
theorem activeMask_flagged : ∃ a b c d, ∀ i : Instrument 2, i.settings.correction = {} →
    i.activeMask = flagged a b c d i := by
  let load := ({} : CorrectionSettings).portImpedance
  refine ⟨({} : CorrectionSettings).delayS11 != 0, ({} : CorrectionSettings).delayS21 != 0,
    ({} : CorrectionSettings).gainOffset != 0,
    load != ({} : CorrectionSettings).referenceImpedance && decide (1 < load), fun i h => ?_⟩
  unfold Instrument.activeMask Settings.activeMask Settings.corrections
  rw [h]
  rfl

theorem flagged_measures (a b c d : Bool) (i : Instrument 2) :
    (flagged a b c d i).measures .s21 = i.settings.measures .s21 := by
  unfold flagged SweepMask.measures SweepMask.withChannel SweepMask.measureOption
  dsimp only
  rw [Flags.has_put_of_ne _ _ (by decide), Flags.has_put_of_ne _ _ (by decide),
    Flags.has_put_of_ne _ _ (by decide), Flags.has_put_same]

/-- The result of a run that does not fail, if it meets `p`. -/
def meets {α : Type} (x : Except Fault α) (p : α → Bool) : Bool :=
  match x with
  | .ok a => p a
  | .error _ => false

theorem meets_inv {α : Type} {x : Except Fault α} {p : α → Bool} (h : meets x p = true) :
    ∃ a, x = .ok a ∧ p a = true := by
  cases x with
  | error e => cases h
  | ok a => exact ⟨a, rfl, h⟩

/-- The first tick yields after one point and the second one completes the pass, whatever the
comparisons say. -/
theorem runs_widened : ∀ a b c d, meets (reflecting.run source widening true
    (flagged a b c d reflecting.instrument) unused) fun x =>
      let i := x.1.2.instrument.applySettings {}
      !(x.1.1 matches .ok true) && x.1.2.instrument.head.state == .stepping 1 &&
        i.head.startPoint 2 true == 1 &&
        meets (({ x.1.2 with instrument := i } : MeasurementLoop 2).run source widening true
          (flagged a b c d i) x.2) fun y => y.1.1 matches .ok true := by
  decide +kernel

theorem widened_ticks : ∃ r₁ l₁ w₁ mask l₂ w₂,
    reflecting.tick source widening unused = .ok ((r₁, l₁), w₁) ∧
    l₁.instrument.head.state = .stepping 1 ∧
    (l₁.instrument.applySettings {}).head.startPoint 2 true = 1 ∧
    l₁.tick source widening w₁ = .ok ((some ⟨mask, true⟩, l₂), w₂) := by
  obtain ⟨a, b, c, d, hmask⟩ := activeMask_flagged
  obtain ⟨⟨⟨r, l₁⟩, w₁⟩, hrun, hfirst⟩ := meets_inv (runs_widened a b c d)
  simp only [Bool.and_eq_true, beq_iff_eq] at hfirst
  obtain ⟨⟨⟨-, hstate⟩, hresumed⟩, hsecond⟩ := hfirst
  obtain ⟨⟨⟨r', l₂⟩, w₂⟩, hrun', hall⟩ := meets_inv hsecond
  have hall' : r' = .ok true := MeasurementLoop.completed_iff.mp hall
  subst hall'
  have hserved : widening.service reflecting.instrument unused =
      .ok (reflecting.instrument, unused) := rfl
  have htick := MeasurementLoop.tick_eq source hserved rfl (hmask _ rfl)
  have htick' := MeasurementLoop.tick_eq source (widening_service hstate w₁) rfl
    (hmask _ rfl)
  rw [Run.bind_ok _ hrun] at htick
  rw [Run.bind_ok _ hrun'] at htick'
  exact ⟨_, _, _, _, _, _, htick, hstate, hresumed, htick'⟩

/-- Two calls make the pass: the first measures point 0 of the reflection, the second goes on
at point 1 with both channels. -/
theorem widened_calls : ∃ k₁ l₁ w₁ mask k₂ v₂ l₂ w₂,
    MeasurementLoop.Ticks source widening reflecting unused [k₁] l₁ w₁ ∧
    l₁.calling source widening w₁ = .ok (some k₂, v₂) ∧
    l₁.tick source widening w₁ = .ok ((some ⟨mask, true⟩, l₂), w₂) ∧
    mask.measures .s21 ∧ ¬k₁.mask.measures .s21 ∧ k₁.first = 0 ∧ k₂.first = 1 ∧
    k₂.instrument.head.points 2 = 2 ∧ k₁.start.buffers.traces = .zero := by
  obtain ⟨a, b, c, d, hmask⟩ := activeMask_flagged
  obtain ⟨r₁, l₁, w₁, mask, l₂, w₂, htick, hstate, hresumed, htick'⟩ := widened_ticks
  obtain ⟨i, u, called, v₁, hserved, hcalling, hmade⟩ :=
    MeasurementLoop.tick_made widening_soleWriter htick
  cases hserved
  cases called with
  | none =>
    rw [hmade.1] at hstate
    cases hstate
  | some k₁ =>
    obtain ⟨-, -, hmade⟩ := hmade
    obtain ⟨j, u', called', v₂, hserved', hcalling', hmade'⟩ :=
      MeasurementLoop.tick_made widening_soleWriter htick'
    cases (widening_service hstate w₁).symm.trans hserved'
    cases called' with
    | none => exact absurd rfl (hmade'.2.2 mask)
    | some k₂ =>
      obtain ⟨⟨u₂, hbreakable⟩, ⟨all, hr, -⟩, hmade'⟩ := hmade'
      rw [Option.some.injEq, SweepResult.mk.injEq] at hr
      refine ⟨k₁, l₁, w₁, mask, k₂, v₂, l₂, w₂, .tick .start hcalling htick, hcalling', htick',
        ?_, ?_, ?_, ?_, ?_, congrArg Prod.fst hmade.start⟩
      · rw [hr.1]
        unfold Call.mask
        rw [hmade'.instrument, hmask _ rfl, flagged_measures]
        rfl
      · unfold Call.mask
        rw [hmade.instrument, hmask _ rfl, flagged_measures]
        decide
      · unfold Call.first
        rw [hmade.instrument]
        exact SweepHead.startPoint_of_not_stepping (fun k hk => by cases hk) _
      · unfold Call.first
        rw [hmade'.instrument]
        have hallowed : (some true, w₁) = (some k₂.breakable, u₂) := Except.ok.inj hbreakable
        rw [← Option.some.inj (Prod.mk.inj hallowed).1]
        exact hresumed
      · unfold SweepHead.points
        rw [hmade'.instrument, Instrument.applySettings_plan]
        rfl

/-- The pass completes with a mask that measures the transmission, and no call of the pass
measured the transmission at point 0. -/
theorem widened_unmeasured : ∃ calls l w mask k v l' w',
    MeasurementLoop.Ticks source widening reflecting unused calls l w ∧
    l.calling source widening w = .ok (some k, v) ∧
    l.tick source widening w = .ok ((some ⟨mask, true⟩, l'), w') ∧ mask.measures .s21 ∧
    ∀ m ∈ passOf (k :: calls), ∀ z, ¬m.Took source .s21 0 z := by
  obtain ⟨k₁, l₁, w₁, mask, k₂, v₂, l₂, w₂, hrun, hcalling, htick, hmask, hreflection, hopening,
    hresumed, -⟩ := widened_calls
  refine ⟨[k₁], l₁, w₁, mask, k₂, v₂, l₂, w₂, hrun, hcalling, htick, hmask, ?_⟩
  intro m hm z htook
  obtain ⟨hfirst, -, hselected, -⟩ := htook
  rw [passOf_pair (hresumed ▸ Nat.one_ne_zero) hopening] at hm
  rcases List.mem_cons.mp hm with rfl | hm
  · rw [hresumed] at hfirst
    exact absurd hfirst (by decide)
  · rw [List.mem_singleton.mp hm] at hselected
    exact hreflection hselected

/-- The transmission at point 0 is published as it was before the first pass. -/
theorem completed_contents_widened : ∃ calls l w mask k v l' w',
    MeasurementLoop.Ticks source widening reflecting unused calls l w ∧
    l.tick source widening w = .ok ((some ⟨mask, true⟩, l'), w') ∧
    l.calling source widening w = .ok (some k, v) ∧ mask.measures .s21 ∧ k.last = 2 ∧
    w'.buffers.generation = k.start.buffers.generation + 1 ∧
    w'.buffers.traces = (k.instrument.settings.processing.apply l.timeDomain k.traces
      (k.instrument.head.points 2) mask).2 ∧
    k.traces.entry .s21 0 = unused.buffers.traces.entry .s21 0 := by
  obtain ⟨k₁, l₁, w₁, mask, k₂, v₂, l₂, w₂, hrun, hcalling, htick, hmask, hreflection, hopening,
    hresumed, hpoints, hzero⟩ := widened_calls
  obtain ⟨k, pass, o, v, hcalling', -, hlast, hpass, ho, -, -, hgeneration, hpublished, hcontents,
    -⟩ := MeasurementLoop.completed_contents widening_soleWriter
      (fun k hk => by cases hk) hrun htick
  cases hcalling.symm.trans hcalling'
  rw [hpoints] at hlast
  rw [passOf_pair (hresumed ▸ Nat.one_ne_zero) hopening] at hpass
  rw [← hpass] at ho hcontents
  have hfound : k₁ = o := Option.some.inj ho
  subst hfound
  refine ⟨[k₁], l₁, w₁, mask, k₂, v₂, l₂, w₂, hrun, htick, hcalling, hmask, hlast, hgeneration,
    hpublished, ?_⟩
  obtain ⟨m, hm, hfirst, -, hentry⟩ := hcontents 0 (hlast ▸ Nat.zero_lt_two)
  rcases List.mem_cons.mp hm with rfl | hm
  · rw [hresumed] at hfirst
    exact absurd hfirst (by decide)
  · rw [List.mem_singleton.mp hm] at hentry
    rw [(hentry .s21).2 hreflection, hzero]
    rfl

end TestSet

end NetworkAnalyzer
