import Mathlib.Logic.Function.Basic
import NetworkAnalyzer.Proofs.Control.Pausing

/-!
# The mode word and the mailbox between tasks

Tasks post commands, set flags and account for passes while the measurement task drains the
mailbox. Every access to a shared word is a step of its own (`Draining.step`): an update of the
mode word loads it and then tries to exchange it, until it finds the word as it last saw it. The
mailbox is used with interrupts off, so that posting and taking out are one access each.
`run` is any interleaving.

**Updates.** An update is a function on the word (`Update.on`): a command, a flag, a completed
pass. An exchange writes what the update makes of the word that was loaded. It succeeds only if
that is the word as it is, so a finished update acts on the present word, and no other task's
change is lost. An exchange may also fail for no reason; the update then goes on with the word it
found.

**The log.** `ControlMark` records what happened in order: what was posted, when a drain began,
what it took out, which updates finished, what it answered. The properties of all bits and commands
are properties of this log, and the state is a function of it.

**Results.**
* `Update.access_cases`: an access of an update leaves the word, or finishes the update on the
  word as it is at that moment.
* `Sound`: what was posted is what was applied, is in hand and waits; the word is what the
  updates make of it one after the other. Every access keeps it (`Moved.sound`).
* `Duty.of_foldl`, `Update.bit_foldl`: which updates concern which bits. ENABLE and ONCE depend on
  commands and completed passes, every other named bit on the settings of its flag, and a bit
  without a name on nothing.
* `serialized`: what becomes of posts, drains and bits in any interleaving.
* `update_alone`, `drain_alone`: with no other task in between these are the operations of
  `Control`.
-/

namespace NetworkAnalyzer

open Parameters

/-- A flag that neither commands nor finished passes concern. -/
inductive Setting where
  | uiMode
  | binary
  | remote
  deriving DecidableEq

def Setting.flag : Setting → ModeFlag
  | .uiMode => .uiMode
  | .binary => .binary
  | .remote => .remote

/-- What a task does to the mode word by itself. -/
inductive Direct where
  | finish (completed : Bool)
  | set (f : Setting) (on : Bool)
  deriving DecidableEq

/-- What is done to the mode word: by a drain, or by a task itself. -/
inductive Update where
  | command (c : Command)
  | direct (d : Direct)
  deriving DecidableEq

namespace Update

def on (m : SweepMode) : Update → SweepMode
  | .command c => (Control.apply ⟨m, []⟩ c).mode
  | .direct (.finish completed) => (Control.finish ⟨m, []⟩ completed).mode
  | .direct (.set f b) => (Control.setMode ⟨m, []⟩ f.flag b).mode

def command? : Update → Option Command
  | .command c => some c
  | .direct _ => none

def setting? : Update → Option (Setting × Bool)
  | .direct (.set f b) => some (f, b)
  | .direct (.finish _) | .command _ => none

/-- An update that may change the mode at all. -/
def touches : Update → Bool
  | .command .updateConfig | .direct (.finish false) => false
  | _ => true

/-- The next access: the word after it, and what the update goes on with if it is not done.
An exchange may fail on the word that it expects. -/
def access (u : Update) (seen : Option SweepMode) (spurious : Bool) (mode : SweepMode) :
    SweepMode × Option SweepMode :=
  if u.touches then
    match seen with
    | none => (mode, some mode)
    | some m => if m = mode ∧ spurious = false then (on m u, none) else (mode, some mode)
  else (mode, none)

theorem on_of_not_touches {u : Update} (hu : u.touches = false) (m : SweepMode) : on m u = m := by
  unfold touches at hu
  split at hu
  · rfl
  · rfl
  · cases hu

/-- An update is done on the word as it is, or it leaves the word and goes on. -/
theorem access_cases (u : Update) (seen : Option SweepMode) (spurious : Bool) (mode : SweepMode) :
    u.access seen spurious mode = (on mode u, none) ∨
      ∃ m, u.access seen spurious mode = (mode, some m) := by
  unfold access
  split
  · cases seen with
    | none => exact Or.inr ⟨mode, rfl⟩
    | some m =>
      dsimp only
      split
      · rename_i hsame
        rw [hsame.1]
        exact Or.inl rfl
      · exact Or.inr ⟨mode, rfl⟩
  · rename_i hu
    rw [on_of_not_touches (Bool.eq_false_iff.mpr hu)]
    exact Or.inl rfl

end Update

/-- Whether sweeping is continuous, and whether a pass is owed. -/
structure Duty where
  enable : Bool
  once : Bool
  deriving DecidableEq

namespace Duty

def of (m : SweepMode) : Duty := ⟨m.has .enable, m.has .once⟩

/-- Applied commands and completed passes change the duty. -/
def after (d : Duty) : Update → Duty
  | .command (.start once) => ⟨true, once⟩
  | .command .stop => { d with enable := false }
  | .command .single => ⟨true, true⟩
  | .direct (.finish true) => { d with once := false }
  | .command .updateConfig | .direct (.finish false) | .direct (.set _ _) => d

theorem of_on (m : SweepMode) (u : Update) : of (Update.on m u) = (of m).after u := by
  have hput (m : SweepMode) {f g : ModeFlag} (b : Bool) (hne : f ≠ g) :
      (m.put g b).has f = m.has f :=
    Flags.has_put_of_ne m b hne
  match u with
  | .command (.start _) | .command .single | .command .stop | .direct (.finish true) =>
    simp [of, after, Update.on, Control.apply, Control.finish, Control.setMode, hput]
  | .command .updateConfig | .direct (.finish false) => rfl
  | .direct (.set f b) =>
    cases f <;> simp [of, after, Update.on, Control.setMode, Setting.flag, hput]

theorem of_foldl (m : SweepMode) (us : List Update) :
    of (us.foldl Update.on m) = us.foldl after (of m) :=
  (List.foldl_hom of fun m u => (of_on m u).symm).symm

end Duty

namespace Update

/-- A bit of the word other than those of the duty is changed by setting its flag alone. -/
theorem bit_on (m : SweepMode) (u : Update) {i : Nat} (henable : i ≠ BitLayout.bit ModeFlag.enable)
    (honce : i ≠ BitLayout.bit ModeFlag.once) :
    (on m u).raw.getLsbD i = match u.setting? with
      | some (f, b) => if i = BitLayout.bit f.flag then b else m.raw.getLsbD i
      | none => m.raw.getLsbD i := by
  match u with
  | .command (.start _) | .command .single | .command .stop | .direct (.finish true) =>
    simp [on, setting?, Control.apply, Control.finish, Control.setMode, Flags.getLsbD_put, henable,
      honce]
  | .command .updateConfig | .direct (.finish false) => rfl
  | .direct (.set f b) => exact Flags.getLsbD_put m f.flag b i

/-- The word after setting flags alone. -/
def setAll (m : SweepMode) (settings : List (Setting × Bool)) : SweepMode :=
  settings.foldl (fun m p => m.put p.1.flag p.2) m

theorem bit_foldl {i : Nat} (henable : i ≠ BitLayout.bit ModeFlag.enable)
    (honce : i ≠ BitLayout.bit ModeFlag.once) (us : List Update) {m n : SweepMode}
    (hbit : m.raw.getLsbD i = n.raw.getLsbD i) :
    (us.foldl on m).raw.getLsbD i = (setAll n (us.filterMap setting?)).raw.getLsbD i := by
  induction us generalizing m n with
  | nil => exact hbit
  | cons u us ih =>
    have hu := bit_on m u henable honce
    rw [List.foldl_cons, List.filterMap_cons]
    cases hset : u.setting? with
    | none =>
      rw [hset] at hu
      exact ih (hu.trans hbit)
    | some p =>
      rw [hset] at hu
      refine ih ?_
      rw [hu, Flags.getLsbD_put, hbit]

theorem bit_setAll {i : Nat} (hi : ∀ f : ModeFlag, i ≠ BitLayout.bit f) (m : SweepMode)
    (settings : List (Setting × Bool)) :
    (setAll m settings).raw.getLsbD i = m.raw.getLsbD i := by
  induction settings generalizing m with
  | nil => rfl
  | cons p settings ih =>
    refine (ih _).trans ?_
    rw [Flags.getLsbD_put, if_neg (hi _)]

end Update

/-- Something that happened to the mode word or the mailbox. -/
inductive ControlMark where
  | posted (c : Command) (answer : Except Failure Unit)
  | opened
  | took (c : Command)
  /-- An update was finished. -/
  | made (u : Update)
  /-- The drain returned. -/
  | drained (changed : Bool)

namespace ControlMark

def accepted? : ControlMark → Option Command
  | .posted c (.ok ()) => some c
  | _ => none

def update? : ControlMark → Option Update
  | .made u => some u
  | _ => none

/-- The commands taken out since the drain began. -/
def removed (log : List ControlMark) : List Command :=
  log.foldl (fun cs m => match m with
    | .opened => []
    | .took c => cs ++ [c]
    | _ => cs) []

def accepted (log : List ControlMark) : List Command := log.filterMap accepted?

def updates (log : List ControlMark) : List Update := log.filterMap update?

variable (log : List ControlMark) (m : ControlMark)

theorem accepted_concat : accepted (log ++ [m]) = accepted log ++ m.accepted?.toList := by
  unfold accepted
  rw [List.filterMap_append]
  cases hm : m.accepted? <;> simp [hm]

theorem updates_concat : updates (log ++ [m]) = updates log ++ m.update?.toList := by
  unfold updates
  rw [List.filterMap_append]
  cases hm : m.update? <;> simp [hm]

theorem removed_concat :
    removed (log ++ [m]) = match m with
      | .opened => []
      | .took c => removed log ++ [c]
      | _ => removed log := by
  unfold removed
  rw [List.foldl_append]
  rfl

end ControlMark

/-- A drain in progress. -/
structure Drain where
  /-- The settings changed, by the commands taken out so far. -/
  changed : Bool := false
  /-- The command that is being applied, and the word as it was last seen for that. -/
  hand : Option (Command × Option SweepMode) := none

/-- Mode word and mailbox, and how far the tasks `τ` are. -/
structure Draining (τ : Type) where
  control : Control
  /-- The update that a task is making, and the word as it was last seen for that. -/
  pending : τ → Option (Direct × Option SweepMode) := fun _ => none
  /-- The measurement task's drain. -/
  drain : Option Drain := none
  log : List ControlMark := []

namespace Draining

open ControlMark

variable {τ : Type} [DecidableEq τ]

inductive Act (τ : Type) where
  | post (c : Command)
  | begin (p : τ) (d : Direct)
  /-- Task `p` goes on with its update. -/
  | go (p : τ) (spurious : Bool)
  | openDrain
  /-- The drain takes the oldest command out, or returns. -/
  | take
  /-- The drain goes on with the command in hand. -/
  | apply (spurious : Bool)

/-- One access, if the task that makes it is where the access belongs. -/
def step (s : Draining τ) : Act τ → Option (Draining τ)
  | .post c =>
    let (answer, control) := s.control.post c
    some { s with control, log := s.log ++ [.posted c answer] }
  | .begin p d =>
    if s.pending p = none then
      some { s with pending := Function.update s.pending p (some (d, none)) }
    else none
  | .go p spurious =>
    match s.pending p with
    | none => none
    | some (d, seen) =>
      match (Update.direct d).access seen spurious s.control.mode with
      | (mode, none) => some { s with
          control.mode := mode, pending := Function.update s.pending p none,
          log := s.log ++ [.made (.direct d)] }
      | (mode, some m) => some { s with
          control.mode := mode, pending := Function.update s.pending p (some (d, some m)) }
  | .openDrain =>
    match s.drain with
    | none => some { s with drain := some {}, log := s.log ++ [.opened] }
    | some _ => none
  | .take =>
    match s.drain, s.control.mailbox with
    | some ⟨changed, none⟩, [] => some { s with drain := none, log := s.log ++ [.drained changed] }
    | some ⟨changed, none⟩, c :: rest => some { s with
        control.mailbox := rest,
        drain := some ⟨changed || c == .updateConfig, some (c, none)⟩, log := s.log ++ [.took c] }
    | _, _ => none
  | .apply spurious =>
    match s.drain with
    | some ⟨changed, some (c, seen)⟩ =>
      match (Update.command c).access seen spurious s.control.mode with
      | (mode, none) => some { s with
          control.mode := mode, drain := some ⟨changed, none⟩,
          log := s.log ++ [.made (.command c)] }
      | (mode, some m) => some { s with
          control.mode := mode, drain := some ⟨changed, some (c, some m)⟩ }
    | _ => none

abbrev run (s : Draining τ) (acts : List (Act τ)) : Option (Draining τ) := Schedule.run step s acts

/-- Nothing was posted and no task is at it. -/
def start (mode : SweepMode) : Draining τ := { control := ⟨mode, []⟩ }

/-- The command that was taken out and is not applied yet. -/
def inHand (s : Draining τ) : List Command :=
  (s.drain.bind fun d => d.hand.map Prod.fst).toList

/-- What was posted, taken and applied, and what the word and the mailbox are from it. -/
structure Sound (mode : SweepMode) (s : Draining τ) : Prop where
  order : accepted s.log =
    (updates s.log).filterMap Update.command? ++ s.inHand ++ s.control.mailbox
  bounded : s.control.mailbox.length ≤ mailboxDepth
  flag : ∀ d, s.drain = some d → d.changed = (removed s.log).contains .updateConfig
  word : s.control.mode = (updates s.log).foldl Update.on mode

variable {mode : SweepMode} {s s' : Draining τ} {a : Act τ} {acts : List (Act τ)}

/-! ## One access -/

/-- What an access does to mailbox, word and drain. -/
inductive Moved (s : Draining τ) : Draining τ → Prop
  | accepted (c : Command) (hroom : s.control.mailbox.length < mailboxDepth) :
      Moved s { s with
        control.mailbox := s.control.mailbox ++ [c], log := s.log ++ [.posted c (.ok ())] }
  | refused (c : Command) (e : Failure) :
      Moved s { s with log := s.log ++ [.posted c (.error e)] }
  | looked (pending : τ → Option (Direct × Option SweepMode)) : Moved s { s with pending }
  | direct (d : Direct) (pending : τ → Option (Direct × Option SweepMode)) :
      Moved s { s with
        control.mode := Update.on s.control.mode (.direct d), pending,
        log := s.log ++ [.made (.direct d)] }
  | opened (hdrain : s.drain = none) :
      Moved s { s with drain := some {}, log := s.log ++ [.opened] }
  | drained (changed : Bool) (hdrain : s.drain = some ⟨changed, none⟩)
      (hempty : s.control.mailbox = []) :
      Moved s { s with drain := none, log := s.log ++ [.drained changed] }
  | took (changed : Bool) (c : Command) (rest : List Command)
      (hdrain : s.drain = some ⟨changed, none⟩) (hbox : s.control.mailbox = c :: rest) :
      Moved s { s with
        control.mailbox := rest, drain := some ⟨changed || c == .updateConfig, some (c, none)⟩,
        log := s.log ++ [.took c] }
  | lookedOn (changed : Bool) (c : Command) (seen later : Option SweepMode)
      (hdrain : s.drain = some ⟨changed, some (c, seen)⟩) :
      Moved s { s with drain := some ⟨changed, some (c, later)⟩ }
  | applied (changed : Bool) (c : Command) (seen : Option SweepMode)
      (hdrain : s.drain = some ⟨changed, some (c, seen)⟩) :
      Moved s { s with
        control.mode := Update.on s.control.mode (.command c), drain := some ⟨changed, none⟩,
        log := s.log ++ [.made (.command c)] }

theorem step_moved (h : s.step a = some s') : Moved s s' := by
  cases a with
  | post c =>
    simp only [step, Control.post] at h
    split at h
    · cases h
      exact .accepted c ‹_›
    · cases h
      exact .refused c _
  | begin p d =>
    simp only [step, Option.ite_none_right_eq_some] at h
    obtain ⟨-, ⟨⟩⟩ := h
    exact .looked _
  | go p spurious =>
    simp only [step] at h
    cases hp : s.pending p with
    | none =>
      rw [hp] at h
      cases h
    | some w =>
      obtain ⟨d, seen⟩ := w
      rw [hp] at h
      obtain haccess | ⟨m, haccess⟩ :=
        (Update.direct d).access_cases seen spurious s.control.mode
      · simp only [haccess] at h
        cases h
        exact .direct d _
      · simp only [haccess] at h
        cases h
        exact .looked _
  | openDrain =>
    simp only [step] at h
    split at h
    · cases h
      exact .opened ‹_›
    · cases h
  | take =>
    simp only [step] at h
    split at h
    · rename_i changed hdrain hbox
      cases h
      exact .drained changed hdrain hbox
    · rename_i changed c rest hdrain hbox
      cases h
      exact .took changed c rest hdrain hbox
    · cases h
  | apply spurious =>
    simp only [step] at h
    split at h
    · rename_i changed c seen hdrain
      obtain haccess | ⟨m, haccess⟩ :=
        (Update.command c).access_cases seen spurious s.control.mode
      · simp only [haccess] at h
        cases h
        exact .applied changed c seen hdrain
      · simp only [haccess] at h
        cases h
        exact .lookedOn changed c seen _ hdrain
    · cases h

omit [DecidableEq τ] in
theorem start_sound (mode : SweepMode) : (start mode : Draining τ).Sound mode where
  order := rfl
  bounded := Nat.zero_le _
  flag d h := by cases h
  word := rfl

omit [DecidableEq τ] in
theorem Moved.sound (hs : s.Sound mode) (h : Moved s s') : s'.Sound mode := by
  obtain ⟨horder, hbounded, hflag, hword⟩ := hs
  cases h with
  | accepted c hroom =>
    constructor
    case order => simp [accepted_concat, updates_concat, accepted?, update?, horder, inHand]
    case bounded => simpa [Nat.succ_le_iff] using hroom
    case flag => simpa [removed_concat] using hflag
    case word => simpa [updates_concat, update?] using hword
  | refused c e =>
    constructor
    case order => simpa [accepted_concat, updates_concat, accepted?, update?, inHand] using horder
    case bounded => exact hbounded
    case flag => simpa [removed_concat] using hflag
    case word => simpa [updates_concat, update?] using hword
  | looked pending => exact ⟨horder, hbounded, hflag, hword⟩
  | direct d pending =>
    constructor
    case order =>
      simpa [accepted_concat, updates_concat, accepted?, update?, Update.command?,
        List.filterMap_cons, inHand] using horder
    case bounded => exact hbounded
    case flag => simpa [removed_concat] using hflag
    case word => simp [updates_concat, update?, hword]
  | opened hdrain =>
    constructor
    case order =>
      simpa [accepted_concat, updates_concat, accepted?, update?, inHand, hdrain] using horder
    case bounded => exact hbounded
    case flag => simp [removed_concat]
    case word => simpa [updates_concat, update?] using hword
  | drained changed hdrain hempty =>
    constructor
    case order =>
      simpa [accepted_concat, updates_concat, accepted?, update?, inHand, hdrain] using horder
    case bounded => exact hbounded
    case flag => simp
    case word => simpa [updates_concat, update?] using hword
  | took changed c rest hdrain hbox =>
    have hchanged : changed = (removed s.log).contains .updateConfig := hflag _ hdrain
    constructor
    case order =>
      simpa [accepted_concat, updates_concat, accepted?, update?, inHand, hdrain, hbox] using horder
    case bounded =>
      simp only [hbox, List.length_cons] at hbounded
      exact Nat.le_of_succ_le hbounded
    case flag =>
      rintro d ⟨⟩
      rw [hchanged, removed_concat, Bool.eq_iff_iff]
      simp only [Bool.or_eq_true, beq_iff_eq, List.contains_iff_mem, List.mem_append,
        List.mem_singleton, @eq_comm _ c]
    case word => simpa [updates_concat, update?] using hword
  | lookedOn changed c seen later hdrain =>
    constructor
    case order => simpa [inHand, hdrain] using horder
    case bounded => exact hbounded
    case flag => simpa using hflag _ hdrain
    case word => exact hword
  | applied changed c seen hdrain =>
    constructor
    case order =>
      simpa [accepted_concat, updates_concat, accepted?, update?, Update.command?, inHand, hdrain]
        using horder
    case bounded => exact hbounded
    case flag => simpa [removed_concat] using hflag _ hdrain
    case word => simp [updates_concat, update?, hword]

/-! ## Any interleaving -/

omit [DecidableEq τ] in
/-- The drain returns when it finds the mailbox empty, and by then it applied all it took out. -/
theorem Moved.drained_inv (hs : s.Sound mode) (h : Moved s s') {changed : Bool}
    (hlog : s'.log = s.log ++ [.drained changed]) :
    s.control.mailbox = [] ∧ s.inHand = [] ∧ s'.control = s.control ∧ s'.drain = none ∧
      (changed = true ↔ .updateConfig ∈ removed s.log) := by
  cases h with
  | drained changed' hdrain hempty =>
    obtain rfl : changed' = changed := by simpa using hlog
    refine ⟨hempty, by simp [inHand, hdrain], rfl, rfl, ?_⟩
    have hchanged : changed' = (removed s.log).contains .updateConfig := hs.flag _ hdrain
    rw [hchanged]
    exact List.contains_iff_mem
  | _ => simp at hlog

theorem step_post (c : Command) (hbounded : s.control.mailbox.length ≤ mailboxDepth) :
    s.step (.post c) = some (if s.control.mailbox.length = mailboxDepth then
        { s with log := s.log ++ [.posted c (.error .queueExhausted)] }
      else { s with
        control.mailbox := s.control.mailbox ++ [c], log := s.log ++ [.posted c (.ok ())] }) := by
  simp only [step, Control.post]
  split
  · rw [if_neg (by omega)]
  · rw [if_pos (by omega)]

/-- What becomes of posts, drains and bits, whatever the tasks do in between.

* The commands that were accepted are, in order, those applied, the one in hand and those waiting.
* A post fails exactly if four commands wait, and then changes nothing.
* A drain returns when the mailbox is empty and nothing is in hand. It answers whether it took out
  a change of the settings.
* The word is what the finished updates make of it one after the other. Its duty follows from the
  commands and completed passes among them, every other bit from the settings among them, and a
  bit that no flag names is never changed. -/
theorem serialized (h : (start mode : Draining τ).run acts = some s) :
    accepted s.log =
      (updates s.log).filterMap Update.command? ++ s.inHand ++ s.control.mailbox ∧
    s.control.mailbox.length ≤ 4 ∧
    (∀ c, s.step (.post c) = some (if s.control.mailbox.length = 4 then
        { s with log := s.log ++ [.posted c (.error .queueExhausted)] }
      else { s with
        control.mailbox := s.control.mailbox ++ [c], log := s.log ++ [.posted c (.ok ())] })) ∧
    (∀ a s' changed, s.step a = some s' → s'.log = s.log ++ [.drained changed] →
      s.control.mailbox = [] ∧ s.inHand = [] ∧ s'.control = s.control ∧ s'.drain = none ∧
        (changed = true ↔ .updateConfig ∈ removed s.log)) ∧
    s.control.mode = (updates s.log).foldl Update.on mode ∧
    Duty.of s.control.mode = (updates s.log).foldl Duty.after (Duty.of mode) ∧
    (∀ i, i ≠ BitLayout.bit ModeFlag.enable → i ≠ BitLayout.bit ModeFlag.once →
      s.control.mode.raw.getLsbD i =
        (Update.setAll mode ((updates s.log).filterMap Update.setting?)).raw.getLsbD i) ∧
    ∀ i, (∀ f : ModeFlag, i ≠ BitLayout.bit f) →
      s.control.mode.raw.getLsbD i = mode.raw.getLsbD i := by
  have hs : s.Sound mode := Schedule.run_keeps (fun _ _ _ _ hs hstep => (step_moved hstep).sound hs)
    (start_sound mode) h
  have hbits {i : Nat} (henable : i ≠ BitLayout.bit ModeFlag.enable)
      (honce : i ≠ BitLayout.bit ModeFlag.once) : s.control.mode.raw.getLsbD i =
        (Update.setAll mode ((updates s.log).filterMap Update.setting?)).raw.getLsbD i := by
    rw [hs.word]
    exact Update.bit_foldl henable honce _ rfl
  refine ⟨hs.order, hs.bounded, fun c => step_post c hs.bounded,
    fun a s' changed hstep => (step_moved hstep).drained_inv hs, hs.word, ?_,
    fun i => hbits, fun i hi => ?_⟩
  · rw [hs.word, Duty.of_foldl]
  · rw [hbits (hi _) (hi _), Update.bit_setAll hi]

/-- Two tasks and a drain on one word: the drain's exchange fails since a flag was set after it
loaded the word, one exchange fails for no reason, and the fifth command finds no room. -/
def contended : List (Act Bool) :=
  [.post (.start false), .post .updateConfig, .openDrain, .take, .begin true (.set .remote true),
    .begin false (.finish true), .go true false, .apply false, .go true false, .go false false,
    .apply false, .go false true, .apply false, .take, .apply false, .go false false,
    .go false false, .post .stop, .post .single, .take, .post .stop, .post .stop,
    .post .updateConfig, .post .updateConfig]

theorem serialized_contended : ∃ s, (start ⟨0b110011⟩).run contended = some s ∧
    s.inHand = [.stop] ∧ s.control.mailbox = [.single, .stop, .stop, .updateConfig] ∧
    (updates s.log).filterMap Update.command? = [.start false, .updateConfig] ∧
    Duty.of s.control.mode = ⟨true, false⟩ ∧ s.control.mode.raw.getLsbD 5 = true ∧
    s.step (.post .single) =
      some { s with log := s.log ++ [.posted .single (.error .queueExhausted)] } := by
  obtain ⟨s, hrun, hhand, hbox, hupdates⟩ : ∃ s, (start ⟨0b110011⟩).run contended = some s ∧
      s.inHand = [.stop] ∧ s.control.mailbox = [.single, .stop, .stop, .updateConfig] ∧
      updates s.log = [.direct (.set .remote true), .command (.start false),
        .command .updateConfig, .direct (.finish true)] :=
    ⟨_, rfl, rfl, rfl, rfl⟩
  obtain ⟨-, -, hpost, -, -, hduty, -, hunknown⟩ := serialized hrun
  refine ⟨s, hrun, hhand, hbox, by rw [hupdates]; rfl, ?_, ?_, ?_⟩
  · rw [hduty, hupdates]
    rfl
  · rw [hunknown 5 fun f => by cases f <;> decide]
    rfl
  · rw [hpost, if_pos (by rw [hbox]; rfl)]

/-! ## With no other task in between -/

/-- The accesses of an update that nothing interferes with: it loads the word and exchanges it,
or there is nothing to do. -/
def accesses (u : Update) : Nat := if u.touches then 2 else 1

def drainActs : List Command → List (Act τ)
  | [] => [.take]
  | c :: rest =>
    .take :: List.replicate (accesses (.command c)) (.apply false) ++ drainActs rest

theorem update_alone {p : τ} (d : Direct) (hp : s.pending p = none) :
    s.run (.begin p d :: List.replicate (accesses (.direct d)) (.go p false)) = some { s with
      control := match d with
        | .finish completed => s.control.finish completed
        | .set f on => s.control.setMode f.flag on
      log := s.log ++ [.made (.direct d)] } := by
  have hrest (w : Option (Direct × Option SweepMode)) :
      Function.update (Function.update s.pending p w) p none = s.pending := by
    rw [Function.update_idem, ← hp, Function.update_eq_self]
  match d with
  | .finish false =>
    simp [Schedule.run, step, hp, accesses, Update.touches, Update.access, hrest, Control.finish]
  | .finish true | .set f on =>
    simp [Schedule.run, step, hp, accesses, Update.touches, Update.access, Update.on,
      Function.update_idem, hrest, Control.finish, Control.setMode]

theorem take_alone {changed : Bool} {c : Command} {rest : List Command}
    (hdrain : s.drain = some ⟨changed, none⟩) (hbox : s.control.mailbox = c :: rest) :
    s.run (.take :: List.replicate (accesses (.command c)) (.apply false)) = some { s with
      control := Control.apply { s.control with mailbox := rest } c
      drain := some ⟨changed || c == .updateConfig, none⟩
      log := s.log ++ [.took c, .made (.command c)] } := by
  cases c with
  | start once | single | stop =>
    simp [Schedule.run, step, hdrain, hbox, accesses, Update.touches, Update.access, Update.on,
      Control.apply, Control.setMode]
  | updateConfig =>
    simp [Schedule.run, step, hdrain, hbox, accesses, Update.touches, Update.access, Control.apply]

theorem drainActs_alone {changed : Bool} (hdrain : s.drain = some ⟨changed, none⟩)
    {cs : List Command} (hbox : s.control.mailbox = cs) :
    ∃ log, s.run (drainActs cs) = some { s with
      control := (Control.applyAll { s.control with mailbox := [] } cs).2
      drain := none
      log := s.log ++ log ++
        [.drained (changed || (Control.applyAll { s.control with mailbox := [] } cs).1)] } := by
  induction cs generalizing s changed with
  | nil =>
    have hsame : { s.control with mailbox := [] } = s.control := by rw [← hbox]
    refine ⟨[], ?_⟩
    simp [drainActs, Schedule.run, step, hdrain, hbox, Control.applyAll, hsame]
  | cons c rest ih =>
    have hcleared : { Control.apply { s.control with mailbox := rest } c with mailbox := [] } =
        Control.apply { s.control with mailbox := [] } c := by
      cases c <;> rfl
    obtain ⟨log, hrun⟩ := ih
      (s := { s with
        control := Control.apply { s.control with mailbox := rest } c
        drain := some ⟨changed || c == .updateConfig, none⟩
        log := s.log ++ [.took c, .made (.command c)] }) rfl Control.apply_mailbox
    refine ⟨.took c :: .made (.command c) :: log, ?_⟩
    have htaken := take_alone hdrain hbox
    rw [run] at hrun htaken ⊢
    rw [drainActs, Schedule.run_append, htaken, Option.bind_some, hrun]
    simp only [hcleared, Control.applyAll, List.append_assoc, List.cons_append, List.nil_append,
      Bool.or_assoc, Bool.or_comm]

/-- A drain that nothing interferes with is the operation. -/
theorem drain_alone (hdrain : s.drain = none) :
    ∃ log, s.run (.openDrain :: drainActs s.control.mailbox) = some { s with
      control := s.control.drain.2
      log := s.log ++ log ++ [.drained s.control.drain.1] } := by
  obtain ⟨log, hrun⟩ := drainActs_alone
    (s := { s with drain := some {}, log := s.log ++ [.opened] }) rfl rfl
  refine ⟨.opened :: log, ?_⟩
  rw [run] at hrun ⊢
  simp only [Schedule.run, step, hdrain, Option.bind_some]
  rw [hrun]
  simp [Control.drain]

end Draining

end NetworkAnalyzer
