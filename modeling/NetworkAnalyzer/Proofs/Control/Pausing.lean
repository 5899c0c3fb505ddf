import NetworkAnalyzer.Proofs.Runs
import NetworkAnalyzer.Proofs.Schedules
import NetworkAnalyzer.Shared

/-!
# Pausing

Mode flags, mailbox and role are separate words. The measurement task takes the commands out
of the mailbox one by one and applies each in a further step; a task that asked for a pause posts a
stop and then loads the three words one after the other, until it has found continuous sweeping
off, the mailbox empty and no pass in flight. `Pausing.step` is one such access by any task, and
`run` any interleaving of them.

The three loads do not look at one moment. Between them the drain goes on, and a stop that was taken
out of the mailbox may not have been applied when the mailbox is seen empty. What the caller may
rely on is therefore an invariant of the line of commands: those in hand and those that wait, in
order. Once the stop is in line, no start that came before it matters any more, and none comes
behind it as long as nobody issues one.

* `Control.applyAll_isEnabled`: which commands leave continuous sweeping on.
* `Settles`: the commands in line will leave it off. Every access that issues no start keeps
  that (`step_settles`).
* `Quiet`: no start is in line, and continuous sweeping is off unless the stop is in hand.
* `Granted.quiet`: what the task that was told of the pause may rely on.
* `paused`: after a pause, continuous sweeping is off outside drains until a start is issued.
  An owed pass stays owed: a stop clears ENABLE alone, and a pass can still be started until one
  completes.
* `pause_drain_isEnabled`: the measurement task's own pause leaves the mailbox as it is, so
  a start that waits there is applied after it.
* `run_drain`, `Shared.requestPause_granted`: draining and asking, as the operations have it. The
  accesses of the other tasks are what the clock of the board does while a task waits.
-/

namespace NetworkAnalyzer

/-- Whether a command turns continuous sweeping on. -/
def Command.starts : Command → Bool
  | .start _ | .single => true
  | .stop | .updateConfig => false

/-- Some start among the commands has no stop behind it. -/
def Resumes (cs : List Command) : Prop :=
  ∃ before c after, cs = before ++ c :: after ∧ c.starts = true ∧ .stop ∉ after

theorem resumes_nil : ¬ Resumes [] := by
  rintro ⟨before, c, after, h, -⟩
  simp at h

theorem resumes_cons {c : Command} {cs : List Command} :
    Resumes (c :: cs) ↔ Resumes cs ∨ (c.starts = true ∧ .stop ∉ cs) := by
  constructor
  · rintro ⟨before, d, after, h, hstarts, hstop⟩
    cases before with
    | nil =>
      cases h
      exact Or.inr ⟨hstarts, hstop⟩
    | cons b before =>
      cases h
      exact Or.inl ⟨before, d, after, rfl, hstarts, hstop⟩
  · rintro (⟨before, d, after, rfl, hstarts, hstop⟩ | ⟨hstarts, hstop⟩)
    · exact ⟨c :: before, d, after, rfl, hstarts, hstop⟩
    · exact ⟨[], c, cs, rfl, hstarts, hstop⟩

theorem resumes_concat {c : Command} {cs : List Command} :
    Resumes (cs ++ [c]) ↔ c.starts = true ∨ (Resumes cs ∧ c ≠ .stop) := by
  induction cs with
  | nil => simp [resumes_cons, resumes_nil]
  | cons d cs ih =>
    rw [List.cons_append, resumes_cons, ih, resumes_cons, List.mem_append, List.mem_singleton]
    grind

namespace Control

def owes (c : Control) : Bool := c.mode.has .once

theorem canStart_iff (c : Control) :
    c.canStart = true ↔ c.isEnabled = true ∨ c.owes = true := by
  simp [canStart, isEnabled, owes]

variable {c : Control} {k : Command} {f : ModeFlag} {on completed : Bool}

@[simp] theorem apply_mailbox : (c.apply k).mailbox = c.mailbox := by cases k <;> rfl

@[simp] theorem finish_mailbox : (c.finish completed).mailbox = c.mailbox := by
  cases completed <;> rfl

theorem setMode_isEnabled (hf : f ≠ .enable) : (c.setMode f on).isEnabled = c.isEnabled :=
  Flags.has_put_of_ne _ _ hf.symm

theorem setMode_owes (hf : f ≠ .once) : (c.setMode f on).owes = c.owes :=
  Flags.has_put_of_ne _ _ hf.symm

@[simp] theorem setMode_enable : (c.setMode .enable on).isEnabled = on := Flags.has_put_same _ _ _

@[simp] theorem setMode_once : (c.setMode .once on).owes = on := Flags.has_put_same _ _ _

theorem apply_isEnabled :
    (c.apply k).isEnabled =
      if k.starts then true else if k = .stop then false else c.isEnabled := by
  cases k with
  | start once | single => exact (setMode_isEnabled (by decide)).trans setMode_enable
  | stop => exact setMode_enable
  | updateConfig => rfl

theorem apply_owes (hk : k.starts = false) : (c.apply k).owes = c.owes := by
  cases k with
  | start once | single => cases hk
  | stop => exact setMode_owes (by decide)
  | updateConfig => rfl

@[simp] theorem finish_isEnabled : (c.finish completed).isEnabled = c.isEnabled := by
  cases completed with
  | true => exact setMode_isEnabled (by decide)
  | false => rfl

@[simp] theorem finish_owes : (c.finish completed).owes = (c.owes && !completed) := by
  cases completed with
  | true => simp [finish]
  | false => simp [finish]

/-- Commands leave continuous sweeping on if a start has no stop behind it, or if it was on
and there is no stop. -/
theorem applyAll_isEnabled (c : Control) (ks : List Command) :
    (c.applyAll ks).2.isEnabled = true ↔ Resumes ks ∨ (c.isEnabled = true ∧ .stop ∉ ks) := by
  induction ks generalizing c with
  | nil => simp [applyAll, resumes_nil]
  | cons k ks ih =>
    rw [resumes_cons]
    simp only [applyAll]
    rw [ih, apply_isEnabled]
    cases k with
    | start once | single => grind [Command.starts]
    | stop | updateConfig => simp [Command.starts]

theorem post_cases (c : Control) (k : Command) :
    c.post k = (.ok (), { c with mailbox := c.mailbox ++ [k] }) ∨
      c.post k = (.error .queueExhausted, c) := by
  unfold post
  split
  · exact Or.inl rfl
  · exact Or.inr rfl

end Control

/-- Where a task is that asks for a pause. -/
inductive Inquiry where
  | resting
  /-- The stop is posted. -/
  | posted
  /-- Continuous sweeping was found off. -/
  | sawDisabled
  /-- Then the mailbox was found empty. -/
  | sawEmpty
  /-- Then no pass was found in flight, and the pause is acknowledged. -/
  | told
  deriving DecidableEq

/-- The words that pausing concerns, and how far the tasks are. -/
structure Pausing where
  control : Control
  /-- A pass is in flight. -/
  sweeping : Bool := false
  /-- The command that the drain took out and has not applied. -/
  inHand : Option Command := none
  inquiry : Inquiry := .resting
  deriving DecidableEq

namespace Pausing

inductive Act where
  | post (c : Command)
  /-- Sets a flag that neither commands nor finished passes concern. -/
  | set (f : ModeFlag) (on : Bool)
  /-- The drain takes the oldest command out. -/
  | take
  | apply
  | finish (completed : Bool)
  /-- A pass starts or ends. -/
  | setRole (sweeping : Bool)
  /-- The measurement task pauses itself. -/
  | pause
  /-- The measurement task resumes by itself. -/
  | resume
  /-- Another task asks for a pause. -/
  | ask
  | loadMode
  | loadMailbox
  | loadRole
  /-- The task that asked stops waiting. -/
  | giveUp
  deriving DecidableEq

/-- Whether an access issues a command that turns continuous sweeping on. -/
def Act.starts : Act → Bool
  | .post c => c.starts
  | .resume => true
  | _ => false

/-- One access, if the task that makes it is where the access belongs. -/
def step (s : Pausing) : Act → Option Pausing
  | .post c => some { s with control := (s.control.post c).2 }
  | .set f on =>
    if f = .enable ∨ f = .once then none else some { s with control := s.control.setMode f on }
  | .take =>
    match s.inHand, s.control.mailbox with
    | none, c :: rest => some { s with control.mailbox := rest, inHand := some c }
    | _, _ => none
  | .apply =>
    match s.inHand with
    | some c => some { s with control := s.control.apply c, inHand := none }
    | none => none
  | .finish completed => some { s with control := s.control.finish completed }
  | .setRole sweeping => some { s with sweeping }
  | .pause => if s.inHand = none then some { s with control := s.control.apply .stop } else none
  | .resume =>
    if s.inHand = none then some { s with control := (s.control.resume .sweepTask).2 } else none
  | .ask =>
    if s.inquiry = .resting ∨ s.inquiry = .told then
      match s.control.post .stop with
      | (.ok (), control) => some { s with control, inquiry := .posted }
      | (.error _, _) => some { s with inquiry := .resting }
    else none
  | .loadMode =>
    if s.inquiry = .posted then
      some { s with inquiry := if s.control.isEnabled then .posted else .sawDisabled }
    else none
  | .loadMailbox =>
    if s.inquiry = .sawDisabled then
      some { s with inquiry := if s.control.hasPending then .posted else .sawEmpty }
    else none
  | .loadRole =>
    if s.inquiry = .sawEmpty then
      some { s with inquiry := if s.sweeping then .posted else .told }
    else none
  | .giveUp => if s.inquiry = .posted then some { s with inquiry := .resting } else none

abbrev run (s : Pausing) (acts : List Act) : Option Pausing := Schedule.run step s acts

/-- Commands issued and not applied, in order. -/
def line (s : Pausing) : List Command := s.inHand.toList ++ s.control.mailbox

variable {s s' t u v : Pausing} {a : Act} {acts more : List Act}

/-! ## One access -/

/-- What an access does to the flags and to the commands in line. -/
inductive Took (s : Pausing) : Act → Pausing → Prop
  | looked (a : Act) (ha : .finish true ≠ a) (sweeping : Bool) (q : Inquiry)
      (hempty : q = .sawEmpty → s.inquiry = .sawEmpty ∨ s.control.mailbox = [])
      (htold : q = .told → s.inquiry = .sawEmpty ∨ s.inquiry = .told) :
      Took s a { s with sweeping, inquiry := q }
  | queued (a : Act) (ha : .finish true ≠ a) (c : Command) (hc : c.starts = a.starts)
      (q : Inquiry) (hq : q = s.inquiry ∨ q = .posted) :
      Took s a { s with control.mailbox := s.control.mailbox ++ [c], inquiry := q }
  | set (f : ModeFlag) (on : Bool) (henable : f ≠ .enable) (honce : f ≠ .once) :
      Took s (.set f on) { s with control := s.control.setMode f on }
  | take (c : Command) (rest : List Command) (hhand : s.inHand = none)
      (hbox : s.control.mailbox = c :: rest) :
      Took s .take { s with control.mailbox := rest, inHand := some c }
  | apply (c : Command) (hhand : s.inHand = some c) :
      Took s .apply { s with control := s.control.apply c, inHand := none }
  | finish (completed : Bool) :
      Took s (.finish completed) { s with control := s.control.finish completed }
  | pause (hhand : s.inHand = none) : Took s .pause { s with control := s.control.apply .stop }
  | resume : Took s .resume { s with control := s.control.apply (.start false) }

theorem step_took (h : s.step a = some s') : Took s a s' := by
  cases a with
  | post c =>
    cases h
    obtain hpost | hpost := s.control.post_cases c <;> rw [hpost]
    · exact .queued _ (by simp) c rfl _ (Or.inl rfl)
    · exact .looked _ (by simp) s.sweeping s.inquiry (fun h => Or.inl h) fun h => Or.inr h
  | set f on =>
    simp only [step, Option.ite_none_left_eq_some, not_or] at h
    obtain ⟨⟨henable, honce⟩, ⟨⟩⟩ := h
    exact .set f on henable honce
  | take =>
    simp only [step] at h
    split at h
    · rename_i c rest hhand hbox
      cases h
      exact .take c rest hhand hbox
    · cases h
  | apply =>
    simp only [step] at h
    split at h
    · rename_i c hhand
      cases h
      exact .apply c hhand
    · cases h
  | finish completed =>
    cases h
    exact .finish completed
  | setRole sweeping =>
    cases h
    exact .looked _ (by simp) sweeping s.inquiry (fun h => Or.inl h) fun h => Or.inr h
  | pause =>
    simp only [step, Option.ite_none_right_eq_some] at h
    obtain ⟨hhand, ⟨⟩⟩ := h
    exact .pause hhand
  | resume =>
    simp only [step, Option.ite_none_right_eq_some] at h
    obtain ⟨-, ⟨⟩⟩ := h
    exact .resume
  | ask =>
    simp only [step, Option.ite_none_right_eq_some] at h
    obtain ⟨-, h⟩ := h
    obtain hpost | hpost := s.control.post_cases .stop <;> rw [hpost] at h <;> cases h
    · exact .queued _ (by simp) .stop rfl _ (Or.inr rfl)
    · exact .looked _ (by simp) s.sweeping .resting (fun h => by cases h) fun h => by cases h
  | loadMode =>
    simp only [step, Option.ite_none_right_eq_some] at h
    obtain ⟨-, ⟨⟩⟩ := h
    refine .looked _ (by simp) s.sweeping _ (fun h => ?_) fun h => ?_
    · split at h <;> cases h
    · split at h <;> cases h
  | loadMailbox =>
    simp only [step, Option.ite_none_right_eq_some] at h
    obtain ⟨-, ⟨⟩⟩ := h
    refine .looked _ (by simp) s.sweeping _ (fun h => Or.inr ?_) fun h => ?_
    · simpa [Control.hasPending] using h
    · split at h <;> cases h
  | loadRole =>
    simp only [step, Option.ite_none_right_eq_some] at h
    obtain ⟨hsaw, ⟨⟩⟩ := h
    exact .looked _ (by simp) s.sweeping _ (fun _ => Or.inl hsaw) fun _ => Or.inl hsaw
  | giveUp =>
    simp only [step, Option.ite_none_right_eq_some] at h
    obtain ⟨-, ⟨⟩⟩ := h
    exact .looked _ (by simp) s.sweeping .resting (fun h => by cases h) fun h => by cases h

/-- The commands in line will leave continuous sweeping off. -/
structure Settles (s : Pausing) : Prop where
  unresumed : ¬ Resumes s.line
  stopped : s.control.isEnabled = false ∨ .stop ∈ s.line

/-- No start is in line. -/
def Clear (s : Pausing) : Prop := ∀ c ∈ s.line, c.starts = false

/-- Only a start spoils what the line will leave. -/
theorem step_settles (hs : s.Settles) (ha : a.starts = false) (h : s.step a = some s') :
    s'.Settles := by
  obtain ⟨hresumes, hstopped⟩ := hs
  cases step_took h with
  | looked => exact ⟨hresumes, hstopped⟩
  | queued _ _ c hc =>
    refine ⟨?_, hstopped.imp_right fun hmem => ?_⟩
    · simp only [line, ← List.append_assoc, resumes_concat, hc, ha]
      exact fun h => hresumes (h.resolve_left Bool.false_ne_true).1
    · simp only [line, ← List.append_assoc]
      exact List.mem_append_left _ hmem
  | set f on henable honce =>
    exact ⟨hresumes, hstopped.imp_left (Control.setMode_isEnabled henable).trans⟩
  | take c rest hhand hbox =>
    have hline : s.line = c :: rest := by simp [line, hhand, hbox]
    rw [hline] at hresumes hstopped
    exact ⟨hresumes, hstopped⟩
  | apply c hhand =>
    have hline : s.line = c :: s.control.mailbox := by simp [line, hhand]
    rw [hline] at hresumes hstopped
    rw [resumes_cons, not_or] at hresumes
    refine ⟨by simpa [line] using hresumes.1, ?_⟩
    simp only [line, Option.toList_none, List.nil_append, Control.apply_mailbox,
      Control.apply_isEnabled]
    rw [List.mem_cons] at hstopped
    cases c with
    | start once | single => exact Or.inr (Decidable.not_not.mp fun h => hresumes.2 ⟨rfl, h⟩)
    | stop => exact Or.inl rfl
    | updateConfig => simpa [Command.starts] using hstopped
  | finish completed =>
    exact ⟨by simpa [line] using hresumes, by simpa [line] using hstopped⟩
  | pause hhand =>
    refine ⟨by simpa [line] using hresumes, Or.inl ?_⟩
    simp [Control.apply_isEnabled, Command.starts]
  | resume => cases ha

/-- With no start in line and none issued, continuous sweeping is not turned on, and an owed
pass stays owed until a completed one is accounted for. -/
theorem step_clear (hs : s.Clear) (ha : a.starts = false) (h : s.step a = some s') :
    s'.Clear ∧ (s'.control.isEnabled = true → s.control.isEnabled = true) ∧
      (s'.control.owes = true ↔ s.control.owes = true ∧ .finish true ≠ a) := by
  unfold Clear at hs ⊢
  have hkept : s'.control.owes = s.control.owes → .finish true ≠ a →
      (s'.control.owes = true ↔ s.control.owes = true ∧ .finish true ≠ a) := by
    intro howes hne
    simp [howes, hne]
  cases step_took h with
  | looked _ hne => exact ⟨hs, id, hkept rfl hne⟩
  | queued _ hne c hc =>
    refine ⟨fun d hd => ?_, id, hkept rfl hne⟩
    simp only [line, ← List.append_assoc, List.mem_append, List.mem_singleton] at hd
    obtain hd | rfl := hd
    · exact hs d (List.mem_append.mpr hd)
    · exact hc.trans ha
  | set f on henable honce =>
    exact ⟨hs, (Control.setMode_isEnabled henable).symm.trans,
      hkept (Control.setMode_owes honce) (by simp)⟩
  | take c rest hhand hbox =>
    refine ⟨fun d hd => hs d ?_, id, hkept rfl (by simp)⟩
    simpa [line, hhand, hbox] using hd
  | apply c hhand =>
    have hc : c.starts = false := hs c (by simp [line, hhand])
    refine ⟨fun d hd => hs d ?_, fun hon => ?_, hkept (Control.apply_owes hc) (by simp)⟩
    · simp only [line, Option.toList_none, List.nil_append, Control.apply_mailbox] at hd
      simp [line, hd]
    · simp only [Control.apply_isEnabled, hc, Bool.false_eq_true, if_false] at hon
      split at hon
      · cases hon
      · exact hon
  | finish completed =>
    exact ⟨by simpa [line] using hs, by simp, by cases completed <;> simp⟩
  | pause hhand =>
    refine ⟨by simpa [line] using hs, fun hon => ?_, hkept (Control.apply_owes rfl) (by simp)⟩
    simp [Control.apply_isEnabled, Command.starts] at hon
  | resume => cases ha

/-- No start is in line, and continuous sweeping is off unless the stop is in hand. -/
structure Quiet (s : Pausing) : Prop where
  clear : s.Clear
  off : s.control.isEnabled = true → s.inHand = some .stop

theorem step_quiet (hs : s.Quiet) (ha : a.starts = false) (h : s.step a = some s') : s'.Quiet := by
  obtain ⟨hclear, hon, -⟩ := step_clear hs.clear ha h
  refine ⟨hclear, fun hon' => ?_⟩
  have hhand := hs.off (hon hon')
  cases step_took h with
  | take c rest hnone | pause hnone => cases hnone.symm.trans hhand
  | apply c hsome =>
    cases hsome.symm.trans hhand
    simp [Control.apply_isEnabled, Command.starts] at hon'
  | resume => cases ha
  | _ => exact hhand

/-- An empty mailbox, with a line that settles, leaves nothing in hand that matters but a stop. -/
theorem Settles.quiet (hs : s.Settles) (hempty : s.control.mailbox = []) : s.Quiet := by
  obtain ⟨hresumes, hstopped⟩ := hs
  simp only [line, hempty, List.append_nil] at hresumes hstopped
  refine ⟨fun c hc => ?_, fun hon => ?_⟩
  · simp only [line, hempty, List.append_nil, Option.mem_toList] at hc
    rw [hc, Option.toList_some, resumes_cons] at hresumes
    simpa using fun h => hresumes (Or.inr ⟨h, List.not_mem_nil⟩)
  · simpa [hon] using hstopped

/-- What holds from the moment the stop was posted. -/
structure Asked (s : Pausing) : Prop where
  settles : s.Settles
  quiet : s.inquiry = .sawEmpty ∨ s.inquiry = .told → s.Quiet

theorem step_asked (hs : s.Asked) (ha : a.starts = false) (h : s.step a = some s') : s'.Asked := by
  have hsettles := step_settles hs.settles ha h
  refine ⟨hsettles, fun hq => ?_⟩
  by_cases hquiet : s.inquiry = .sawEmpty ∨ s.inquiry = .told
  · exact step_quiet (hs.quiet hquiet) ha h
  · -- the only way here is the look into the empty mailbox
    have hnot := not_or.mp hquiet
    cases step_took h with
    | looked _ _ _ q hempty htold =>
      obtain rfl | rfl := hq
      · exact hsettles.quiet ((hempty rfl).resolve_left hnot.1)
      · exact absurd (htold rfl) (not_or.mpr hnot)
    | queued _ _ _ _ q hq' =>
      obtain rfl | rfl := hq'
      · exact absurd hq hquiet
      · simp at hq
    | _ => exact absurd hq hquiet

/-! ## Any interleaving -/

/-- With no start in line and none issued, continuous sweeping is not turned on, and an owed
pass stays owed until a completed one is accounted for. -/
theorem run_clear (hs : s.Clear) (ha : ∀ a ∈ acts, a.starts = false) (h : s.run acts = some s') :
    (s'.control.isEnabled = true → s.control.isEnabled = true) ∧
      (s'.control.owes = true ↔ s.control.owes = true ∧ .finish true ∉ acts) := by
  induction acts generalizing s with
  | nil =>
    cases h
    simp
  | cons a acts ih =>
    obtain ⟨v, hv, h⟩ := Schedule.run_cons.mp h
    obtain ⟨hclear, hon, howes⟩ := step_clear hs (ha a List.mem_cons_self) hv
    obtain ⟨hon', howes'⟩ := ih hclear (fun b hb => ha b (List.mem_cons_of_mem _ hb)) h
    refine ⟨fun h => hon (hon' h), ?_⟩
    rw [howes', howes, List.mem_cons, not_or, and_assoc]

/-- The commands that a drain takes out and applies. -/
def drainActs : Nat → List Act
  | 0 => []
  | n + 1 => .take :: .apply :: drainActs n

/-- Taking out and applying command after command, uninterrupted, is a drain. -/
theorem run_drain (hhand : s.inHand = none) :
    s.run (drainActs s.control.mailbox.length) = some { s with control := s.control.drain.2 } := by
  obtain ⟨⟨mode, mailbox⟩, sweeping, inHand, inquiry⟩ := s
  obtain rfl := hhand
  unfold Control.drain
  dsimp only
  induction mailbox generalizing mode with
  | nil => rfl
  | cons c rest ih =>
    have hmode : Control.apply ⟨mode, []⟩ c = ⟨(Control.apply ⟨mode, rest⟩ c).mode, []⟩ := by
      cases c <;> rfl
    have hrest : Control.apply ⟨mode, rest⟩ c = ⟨(Control.apply ⟨mode, rest⟩ c).mode, rest⟩ := by
      cases c <;> rfl
    simp only [List.length_cons, drainActs, Schedule.run, step, Option.bind_some, Control.applyAll]
    rw [hmode, hrest]
    exact ih _

/-! ## Pauses -/

/-- A pause was asked for in `s` and acknowledged in `t`, while the tasks made the accesses
between. -/
def Granted : Caller → Pausing → List Act → Pausing → Prop
  | .sweepTask, s, acts, t => acts = [] ∧ s.step .pause = some t
  | .other, s, acts, t => ∃ v, s.step .ask = some v ∧ v.inquiry = .posted ∧
      v.run acts = some t ∧ t.inquiry = .told

theorem pause_inv (h : s.step .pause = some t) :
    t.inHand = none ∧ t.control.isEnabled = false := by
  simp only [step, Option.ite_none_right_eq_some] at h
  obtain ⟨hhand, ⟨⟩⟩ := h
  exact ⟨hhand, Control.apply_isEnabled⟩

theorem Granted.asked (h : Granted .other s acts t) (ha : ∀ a ∈ acts, a.starts = false) :
    t.Asked := by
  obtain ⟨v, hask, hposted, hrun, -⟩ := h
  refine Schedule.run_keeps (fun a hmem _ _ hs => step_asked hs (ha a hmem))
    ⟨?_, fun hq => by simp [hposted] at hq⟩ hrun
  simp only [step, Option.ite_none_right_eq_some] at hask
  obtain ⟨-, hask⟩ := hask
  obtain hpost | hpost := s.control.post_cases .stop <;> rw [hpost] at hask <;> cases hask
  · refine ⟨?_, Or.inr (by simp [line])⟩
    simp [line, ← List.append_assoc, resumes_concat, Command.starts]
  · cases hposted

/-- Commands that wait while the measurement task pauses itself are harmless if each start has a
stop behind it. -/
theorem Granted.settles {caller : Caller} (h : Granted caller s acts t)
    (ha : ∀ a ∈ acts, a.starts = false) (hwaits : ¬ Resumes t.control.mailbox) : t.Settles := by
  cases caller with
  | sweepTask =>
    obtain ⟨hhand, hoff⟩ := pause_inv h.2
    exact ⟨by simpa [line, hhand] using hwaits, Or.inl hoff⟩
  | other => exact (h.asked ha).settles

/-- What a task may rely on that was told of the pause, if no start waits or it is not the
measurement task. -/
theorem Granted.quiet {caller : Caller} (h : Granted caller s acts t)
    (ha : ∀ a ∈ acts, a.starts = false)
    (hwaits : caller = .other ∨ ∀ c ∈ t.control.mailbox, c.starts = false) : t.Quiet := by
  cases caller with
  | sweepTask =>
    obtain ⟨hhand, hoff⟩ := pause_inv h.2
    refine ⟨fun c hc => hwaits.resolve_left (by simp) c ?_, fun hon => ?_⟩
    · simpa [line, hhand] using hc
    · rw [hoff] at hon
      cases hon
  | other =>
    obtain ⟨-, -, -, -, htold⟩ := id h
    exact (h.asked ha).quiet (Or.inr htold)

/-- The measurement task's own pause leaves the mailbox as it is. The drain after it turns
continuous sweeping on again exactly if a start waits there with no stop behind it. -/
theorem pause_drain_isEnabled (h : s.step .pause = some t) :
    t.control.drain.2.isEnabled = true ↔ Resumes t.control.mailbox := by
  have hoff : Control.isEnabled { t.control with mailbox := [] } = false := (pause_inv h).2
  unfold Control.drain
  rw [Control.applyAll_isEnabled]
  simp [hoff]

/-- What a pause achieves, for accesses of all tasks that issue no start from the request on.
Another task that was told of the pause finds continuous sweeping off whenever the measurement
task is not in the middle of a drain, and so does the measurement task itself if no start waits
in the mailbox; a pass can then be started exactly as long as one is owed. If starts wait there,
each with a stop behind it, the same holds from the end of the next drain on. -/
theorem paused {caller : Caller} (hgranted : Granted caller s acts t) (hlater : t.run more = some u)
    (hissued : ∀ a ∈ acts ++ more, a.starts = false) :
    ((caller = .other ∨ ∀ c ∈ t.control.mailbox, c.starts = false) → u.inHand = none →
      u.control.isEnabled = false ∧
        (u.control.canStart = true ↔ t.control.owes = true ∧ .finish true ∉ more)) ∧
    (¬ Resumes t.control.mailbox → ∀ before v after, more = before ++ after →
      t.run before = some v → v.inHand = none → v.control.mailbox = [] →
      u.control.isEnabled = false ∧
        (u.control.canStart = true ↔ v.control.owes = true ∧ .finish true ∉ after)) := by
  have hacts := fun a ha => hissued a (List.mem_append_left _ ha)
  have hmore := fun a ha => hissued a (List.mem_append_right _ ha)
  constructor
  · intro hwaits hhand
    have hquiet := hgranted.quiet hacts hwaits
    have hoff : u.control.isEnabled = false := by
      have := (Schedule.run_keeps (fun a ha _ _ hs => step_quiet hs (hmore a ha)) hquiet hlater).off
      simpa [hhand] using this
    refine ⟨hoff, ?_⟩
    rw [Control.canStart_iff, (run_clear hquiet.clear hmore hlater).2]
    simp [hoff]
  · rintro hwaits before v after rfl hdrain hhand hempty
    have hsettles := Schedule.run_keeps
      (fun a ha _ _ hs => step_settles hs (hmore a (List.mem_append_left _ ha)))
      (hgranted.settles hacts hwaits) hdrain
    have hrest := fun a ha => hmore a (List.mem_append_right _ ha)
    have hv : v.Quiet := hsettles.quiet hempty
    obtain ⟨v', hv', hafter⟩ := Schedule.run_append_eq_some.mp hlater
    cases hdrain.symm.trans hv'
    obtain ⟨hon, howes⟩ := run_clear hv.clear hrest hafter
    have hoff : u.control.isEnabled = false := by
      have := fun h => hv.off (hon h)
      simpa [hhand] using this
    refine ⟨hoff, ?_⟩
    rw [Control.canStart_iff, howes]
    simp [hoff]

/-- One task asks while a start waits that was posted before; the other words change while it
looks at them. -/
def asking : Pausing :=
  { control := ⟨(Flags.none.put .enable true).put .once true, [.start false]⟩, sweeping := true }

/-- The drain goes on between the loads: the mailbox is seen empty while the stop is in hand. -/
def acknowledging : List Act :=
  [.setRole false, .loadMode, .take, .finish true, .apply, .take, .apply, .loadMode, .loadMailbox,
    .post .updateConfig, .loadRole]

theorem paused_acknowledged :
    ∃ s t u, s = asking ∧ Granted .other s acknowledging t ∧
      t.run [.set .uiMode true, .take, .apply, .finish false] = some u ∧
      u.control.isEnabled = false ∧ u.control.canStart = false := by
  obtain ⟨t, u, hgranted, hmore, hhand, howes⟩ : ∃ t u, Granted .other asking acknowledging t ∧
      t.run [.set .uiMode true, .take, .apply, .finish false] = some u ∧ u.inHand = none ∧
        t.control.owes = false :=
    ⟨_, _, ⟨_, rfl, rfl, rfl, rfl⟩, rfl, rfl, rfl⟩
  obtain ⟨hoff, hstart⟩ := (paused hgranted hmore (by decide)).1 (Or.inl rfl) hhand
  refine ⟨_, t, u, rfl, hgranted, hmore, hoff, ?_⟩
  simpa [howes] using hstart

end Pausing

/-! ## Pauses on the shared state -/

namespace Shared

open Pausing

variable {N : Nat} {ε : Type} {clock : Timebase (Shared N ε)} {hand : ε → Option Command}
  {w w' : Shared N ε}

/-- The words that pausing concerns, with what the environment says is in hand. -/
def pausing (hand : ε → Option Command) (q : Inquiry) (w : Shared N ε) : Pausing :=
  ⟨w.control, w.buffers.isSweeping, hand w.environment, q⟩

/-- The other tasks made accesses that issue no start, and nothing else happened. -/
def Quietly (hand : ε → Option Command) (w w' : Shared N ε) : Prop :=
  ∃ acts, (∀ a ∈ acts, a.starts = false) ∧
    (w.pausing hand .posted).run acts = some (w'.pausing hand .posted)

instance : IsPreorder (Shared N ε) (Quietly hand) where
  refl _ := ⟨[], by simp, rfl⟩
  trans _ _ _ := by
    rintro ⟨acts, ha, h⟩ ⟨more, hmore, h'⟩
    refine ⟨acts ++ more, fun a hmem => ?_, Schedule.run_append_eq_some.mpr ⟨_, h, h'⟩⟩
    exact (List.mem_append.mp hmem).elim (ha a) (hmore a)

/-- A pause that another task was told of is one of these interleavings. -/
theorem requestPause_granted (hnow : Moves (Quietly hand) clock.now)
    (hrelax : Moves (Quietly hand) clock.relax)
    (h : requestPause clock .other w = .ok (.ok (), w')) :
    ∃ acts, (∀ a ∈ acts, a.starts = false) ∧
      Granted .other (w.pausing hand .resting) acts (w'.pausing hand .told) := by
  simp only [requestPause] at h
  rw [Run.get_bind] at h
  obtain ⟨u, w₁, hset, h⟩ := Run.bind_inv h
  cases hset
  obtain hpost | hpost := w.control.post_cases .stop
  · rw [hpost] at h
    obtain ⟨seen, w₂, hwait, h⟩ := Run.bind_inv h
    have hmiss : ∀ ⦃s s' : Shared N ε⦄,
        (do return (← get).isPaused : Run (Shared N ε) Bool) s = .ok (false, s') →
          Quietly hand s s' := by
      intro s s' h
      rw [Run.get_bind] at h
      obtain ⟨-, rfl⟩ := Run.pure_inv h
      exact refl_of (Quietly hand) s'
    obtain ⟨rfl, -⟩ | ⟨rfl, w₃, ⟨acts, ha, hrun⟩, hready⟩ := waitUntil_cases hnow hrelax hmiss hwait
    · cases (Run.pure_inv h).1
    · obtain ⟨-, rfl⟩ := Run.pure_inv h
      rw [Run.get_bind] at hready
      obtain ⟨hpaused, rfl⟩ := Run.pure_inv hready
      have hpaused : w'.isPaused = true := hpaused.symm
      simp only [isPaused, Bool.and_eq_true, Bool.not_eq_true'] at hpaused
      obtain ⟨⟨hoff, hempty⟩, hrole⟩ := hpaused
      refine ⟨acts ++ [.loadMode, .loadMailbox, .loadRole], ?_, _, ?_, rfl,
        Schedule.run_append_eq_some.mpr ⟨_, hrun, ?_⟩, rfl⟩
      · simpa [or_imp, forall_and, Act.starts] using ha
      · simp [step, pausing, hpost]
      · simp [Schedule.run, step, pausing, hoff, hempty, hrole]
  · rw [hpost] at h
    cases (Run.pure_inv h).1

theorem requestPause_sweepTask (hhand : hand w.environment = none) (q : Inquiry) :
    ∃ w', requestPause clock .sweepTask w = .ok (.ok (), w') ∧
      Granted .sweepTask (w.pausing hand q) [] (w'.pausing hand q) := by
  refine ⟨_, rfl, rfl, ?_⟩
  simp only [step, pausing, hhand, if_true]

/-- A board whose measurement task drains the mailbox while others wait. -/
def draining : Timebase (Shared 1 Unit) :=
  ⟨pure 0, modify fun w => { w with control := w.control.drain.2 }⟩

/-- After power-up a pause is acknowledged to either caller while the owed pass can still be
started, and the drain after the measurement task's own pause applies a start that was posted
before it. -/
theorem pause_keeps_owed :
    (∃ w, requestPause draining .other { environment := () } = .ok (.ok (), w) ∧
      w.control.drain.2.isEnabled = false ∧ w.control.drain.2.canStart = true) ∧
    (∃ w, requestPause draining .sweepTask { environment := () } = .ok (.ok (), w) ∧
      w.control.drain.2.isEnabled = false ∧ w.control.drain.2.canStart = true) ∧
    (∃ w, requestPause draining .sweepTask
        { control := ⟨Flags.none, [.start false]⟩, environment := () } = .ok (.ok (), w) ∧
      w.control.canStart = false ∧ w.control.drain.2.canStart = true) :=
  ⟨⟨_, rfl, rfl, rfl⟩, ⟨_, rfl, rfl, rfl⟩, ⟨_, rfl, rfl, rfl⟩⟩

end Shared

end NetworkAnalyzer
