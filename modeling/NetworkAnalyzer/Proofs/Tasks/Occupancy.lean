import Mathlib.Data.List.Nodup
import Mathlib.Data.List.Perm.Basic
import NetworkAnalyzer.Bench.Threads

/-!
# Tasks and the slots they sit in

`Roster` follows task slots through any sequence of calls (`SlotCall`), on a kernel that
keeps a list of how it was called, and notes which tasks were started and which stopped. The
kernel may refuse any thread, and may go anywhere between two calls.

**Handles.** Any handle may be passed to a stop: one of a live task, one of a task that was stopped
long ago, or one that was never given out. Only the first frees a slot. A slot may be taken again,
and then the old handle names the same slot and another thread.

**The kernel.** One thing is asked of it: that it hands out no thread twice over the whole run.
Without that, an old handle could name the thread of a new task. Everything else, codes and
refusals included, is what it pleases.

**The invariant.** `Sound` ties four things together: what runs in the slots, which tasks are live,
which threads were handed out, and which were ended. Each call changes all of them by one task at
most.

**Results.**
* `start_cases`, `stop_eq`: what a call does, by what it found in the slots.
* `recorded_start`, `recorded_stop`: keeping a list of its calls changes nothing of what a
  kernel does.
* `Sound`: a task that was started and not stopped sits alone in its slot; every thread that the
  kernel handed out belongs to one such task or to a stopped one. Every call keeps it
  (`step_sound`).
* `Sound.stopped_gone`: the thread of a stopped task runs nowhere.
* `occupancy`: what every call does after any sequence of calls, and that a stopped task is
  never heard of again.
-/

namespace NetworkAnalyzer

/-- A call of a kernel. A spawn is noted with its answer. -/
inductive KernelCall (θ : Type) where
  | spawn (launch : Launch) (thread : Option θ)
  | terminate (thread : θ)
  | join (thread : θ)

namespace KernelCall

variable {θ : Type}

def handsOut : KernelCall θ → Option θ
  | .spawn _ thread => thread
  | .terminate _ | .join _ => none

def isEnding : KernelCall θ → Bool
  | .spawn _ _ => false
  | .terminate _ | .join _ => true

def ending (thread : θ) : List (KernelCall θ) := [.terminate thread, .join thread]

theorem filter_ending (thread : θ) : (ending thread).filter isEnding = ending thread := rfl

theorem handsOut_ending (thread : θ) : (ending thread).filterMap handsOut = [] := rfl

end KernelCall

variable {κ θ : Type}

/-- A kernel that keeps a list of its calls. -/
def Kernel.recorded (k : Kernel κ θ) : Kernel (κ × List (KernelCall θ)) θ where
  spawn launch s :=
    let (thread, kernel) := k.spawn launch s.1
    (thread, kernel, s.2 ++ [.spawn launch thread])
  terminate thread s := (k.terminate thread s.1, s.2 ++ [.terminate thread])
  join thread s :=
    let (code, kernel) := k.join thread s.1
    (code, kernel, s.2 ++ [.join thread])

namespace TaskSlots

variable {k : Kernel κ θ} {t : TaskSlots κ θ} {name : String} {priority : UInt8}
  {size : Nat} {entry : Entry} {argument : UInt64}

def occupant (t : TaskSlots κ θ) (i : Nat) : Option θ := t.slots[i]?.bind (·.running)

/-- The slots with another thread, or none, in slot `i`. -/
def seat (t : TaskSlots κ θ) (i : Nat) (running : Option θ) : List (TaskSlot θ) :=
  t.slots.modify i fun s => { s with running }

/-- Slot `i` is free and its stack holds `size` bytes. -/
def Fits (t : TaskSlots κ θ) (size i : Nat) : Prop :=
  ∃ s, t.slots[i]? = some s ∧ s.running = none ∧ size ≤ s.stack

/-! ## One call -/

theorem occupant_eq {i : Nat} {s : TaskSlot θ} (h : t.slots[i]? = some s) :
    t.occupant i = s.running := by
  unfold occupant
  rw [h]
  rfl

theorem set_running {i : Nat} {s : TaskSlot θ} (h : t.slots[i]? = some s) (running : Option θ) :
    t.slots.set i { s with running } = t.seat i running := by
  unfold seat
  rw [List.modify_eq_set_getElem?, h]
  rfl

theorem occupant_seat {kernel : κ} {i : Nat} {s : TaskSlot θ} (h : t.slots[i]? = some s)
    (running : Option θ) (j : Nat) :
    occupant ⟨kernel, t.seat i running⟩ j = if j = i then running else t.occupant j := by
  unfold occupant seat
  rw [List.getElem?_modify]
  by_cases hj : j = i
  · subst hj
    rw [h]
    simp
  · simp [hj, Ne.symm hj]

theorem stacks_seat (t : TaskSlots κ θ) (i : Nat) (running : Option θ) :
    (t.seat i running).map (·.stack) = t.slots.map (·.stack) := by
  refine List.ext_getElem? fun j => ?_
  unfold seat
  rw [List.getElem?_map, List.getElem?_map, List.getElem?_modify]
  cases t.slots[j]? with
  | none => rfl
  | some s =>
    by_cases hj : i = j
    · simp [hj]
    · simp [hj]

theorem freeCount_seat (kernel : κ) {i : Nat} {s : TaskSlot θ} (h : t.slots[i]? = some s)
    (running : Option θ) :
    freeCount ⟨kernel, t.seat i running⟩ + (if s.running.isNone then 1 else 0) =
      t.freeCount + (if running.isNone then 1 else 0) := by
  obtain ⟨hlt, rfl⟩ := List.getElem?_eq_some_iff.mp h
  have hpos : t.slots[i].running.isNone → 0 < t.slots.countP (·.running.isNone) := fun hfree =>
    List.countP_pos_iff.mpr ⟨_, List.getElem_mem hlt, hfree⟩
  unfold freeCount
  rw [← set_running h]
  simp only [List.countP_set hlt]
  split
  · have := hpos ‹_›
    omega
  · omega

theorem findSlot_none : t.findSlot size = none ↔ ∀ i, ¬t.Fits size i := by
  unfold findSlot Fits
  rw [List.findIdx?_eq_none_iff]
  constructor
  · rintro hnone i ⟨s, hs, hfree, hlarge⟩
    have := hnone s (List.mem_of_getElem? hs)
    simp [hfree, hlarge] at this
  · intro hnone s hs
    obtain ⟨i, hi⟩ := List.mem_iff_getElem?.mp hs
    refine Bool.eq_false_iff.mpr fun hboth => hnone i ⟨s, hi, ?_⟩
    simpa using hboth

theorem findSlot_some {i : Nat} (h : t.findSlot size = some i) :
    t.Fits size i ∧ ∀ j < i, ¬t.Fits size j := by
  unfold findSlot at h
  obtain ⟨hlt, hfound, hbefore⟩ := List.findIdx?_eq_some_iff_getElem.mp h
  refine ⟨⟨t.slots[i], List.getElem?_eq_getElem hlt, by simpa using hfound⟩, ?_⟩
  rintro j hj ⟨s, hs, hfree, hlarge⟩
  obtain ⟨hlt', rfl⟩ := List.getElem?_eq_some_iff.mp hs
  exact hbefore j hj (by simp [hfree, hlarge])

/-- A start finds no slot, or it asks the kernel for a thread on the stack of the first slot
that fits. -/
theorem start_cases (k : Kernel κ θ) (t : TaskSlots κ θ) (name : String) (priority : UInt8)
    (size : Nat) (entry : Entry) (argument : UInt64) :
    ((∀ i, ¬t.Fits size i) ∧
      t.start k name priority size entry argument = (.error .noFreeSlot, t)) ∨
    ∃ i s, t.slots[i]? = some s ∧ t.Fits size i ∧ (∀ j < i, ¬t.Fits size j) ∧
      ((∃ kernel, k.spawn ⟨name, priority, s.stack, entry, argument⟩ t.kernel = (none, kernel) ∧
          t.start k name priority size entry argument = (.error .launchFailed, { t with kernel })) ∨
        ∃ thread kernel,
          k.spawn ⟨name, priority, s.stack, entry, argument⟩ t.kernel = (some thread, kernel) ∧
          t.start k name priority size entry argument =
            (.ok ⟨i, thread⟩, ⟨kernel, t.seat i (some thread)⟩)) := by
  unfold start
  cases hfind : t.findSlot size with
  | none => exact Or.inl ⟨findSlot_none.mp hfind, rfl⟩
  | some i =>
    obtain ⟨hfits, hfirst⟩ := findSlot_some hfind
    obtain ⟨s, hs, -⟩ := id hfits
    refine Or.inr ⟨i, s, hs, hfits, hfirst, ?_⟩
    simp only [hs]
    rcases hspawn : k.spawn ⟨name, priority, s.stack, entry, argument⟩ t.kernel with
      ⟨_ | thread, kernel⟩
    · exact Or.inl ⟨kernel, rfl, rfl⟩
    · exact Or.inr ⟨thread, kernel, rfl, by simp only [set_running hs]⟩

variable [DecidableEq θ]

/-- A stop finds the thread of its task in the slot of its task and ends it, or it does
nothing. -/
theorem stop_eq (k : Kernel κ θ) (t : TaskSlots κ θ) (h : TaskHandle θ) :
    t.stop k h =
      if t.occupant h.slot = some h.thread then
        let (code, kernel) := k.join h.thread (k.terminate h.thread t.kernel)
        (some code, ⟨kernel, t.seat h.slot none⟩)
      else (none, t) := by
  unfold stop
  cases hs : t.slots[h.slot]? with
  | none =>
    unfold occupant
    rw [hs]
    rfl
  | some s =>
    rw [occupant_eq hs]
    simp only [set_running hs]

/-! ## Recording -/

/-- The slots on the kernel itself. -/
def unrecorded (t : TaskSlots (κ × List (KernelCall θ)) θ) : TaskSlots κ θ :=
  ⟨t.kernel.1, t.slots⟩

omit [DecidableEq θ] in
theorem recorded_start (k : Kernel κ θ) (t : TaskSlots (κ × List (KernelCall θ)) θ) :
    (t.start k.recorded name priority size entry argument).map id unrecorded =
      t.unrecorded.start k name priority size entry argument := by
  unfold start
  have hfind : t.unrecorded.findSlot size = t.findSlot size := rfl
  have hslots : t.unrecorded.slots = t.slots := rfl
  rw [hfind]
  cases t.findSlot size with
  | none => rfl
  | some i =>
    simp only [hslots]
    cases t.slots[i]? with
    | none => rfl
    | some s =>
      rcases hspawn : k.spawn ⟨name, priority, s.stack, entry, argument⟩ t.kernel.1 with
        ⟨_ | thread, kernel⟩
      all_goals simp only [Kernel.recorded, unrecorded, hspawn, Prod.map, id]

theorem recorded_stop (k : Kernel κ θ) (t : TaskSlots (κ × List (KernelCall θ)) θ)
    (h : TaskHandle θ) : (t.stop k.recorded h).map id unrecorded = t.unrecorded.stop k h := by
  rw [stop_eq, stop_eq]
  have hslots : t.unrecorded.occupant h.slot = t.occupant h.slot := rfl
  rw [hslots]
  split <;> rfl

end TaskSlots

/-! ## Any calls -/

/-- A call of task slots, or something that befalls their kernel between two calls. -/
inductive SlotCall (κ θ : Type) where
  | start (name : String) (priority : UInt8) (size : Nat) (entry : Entry) (argument : UInt64)
  /-- With a handle from anywhere. -/
  | stop (h : TaskHandle θ)
  | elapse (kernel : κ)

/-- Task slots, and which of their tasks run. -/
structure Roster (κ θ : Type) where
  slots : TaskSlots (κ × List (KernelCall θ)) θ
  /-- The tasks that were started and not stopped since. -/
  live : List (TaskHandle θ) := []
  /-- The tasks that were stopped while they were live. -/
  stopped : List (TaskHandle θ) := []

namespace Roster

def vacant (kernel : κ) (sizes : List Nat) : Roster κ θ :=
  { slots := .ofStacks (kernel, []) sizes }

def log (r : Roster κ θ) : List (KernelCall θ) := r.slots.kernel.2

def handedOut (r : Roster κ θ) : List θ := r.log.filterMap KernelCall.handsOut

variable [DecidableEq θ]

/-- The log belongs to the recorded kernel and survives whatever the kernel does by itself. -/
def step (k : Kernel κ θ) (r : Roster κ θ) : SlotCall κ θ → Roster κ θ
  | .start name priority size entry argument =>
    match r.slots.start k.recorded name priority size entry argument with
    | (.ok h, slots) => { r with slots, live := r.live ++ [h] }
    | (.error _, slots) => { r with slots }
  | .stop h =>
    let slots := (r.slots.stop k.recorded h).2
    if h ∈ r.live then { slots, live := r.live.erase h, stopped := r.stopped ++ [h] }
    else { r with slots }
  | .elapse kernel => { r with slots := { r.slots with kernel := (kernel, r.log) } }

def run (k : Kernel κ θ) (r : Roster κ θ) (calls : List (SlotCall κ θ)) : Roster κ θ :=
  calls.foldl (step k) r

/-- Slot `i` has no live task, and its stack holds `size` bytes. -/
def Offers (sizes : List Nat) (r : Roster κ θ) (size i : Nat) : Prop :=
  (∃ stack, sizes[i]? = some stack ∧ size ≤ stack) ∧ ∀ h ∈ r.live, h.slot ≠ i

/-- What slots and tasks have to do with each other: a live task is the one that runs in its
slot, and the kernel was called for the tasks alone. -/
structure Sound (sizes : List Nat) (r : Roster κ θ) : Prop where
  lengths : r.slots.slots.map (·.stack) = sizes
  sits : ∀ h, h ∈ r.live ↔ r.slots.occupant h.slot = some h.thread
  once : r.live.Nodup
  free : r.slots.freeCount + r.live.length = sizes.length
  threads : r.handedOut.Perm ((r.live ++ r.stopped).map (·.thread))
  endings : r.log.filter KernelCall.isEnding =
    r.stopped.flatMap fun h => KernelCall.ending h.thread

variable {k : Kernel κ θ} {sizes : List Nat} {r : Roster κ θ} {name : String} {priority : UInt8}
  {size : Nat} {entry : Entry} {argument : UInt64}

omit [DecidableEq θ] in
theorem vacant_sound (kernel : κ) (sizes : List Nat) :
    (vacant kernel sizes : Roster κ θ).Sound sizes where
  lengths := by simp [vacant, TaskSlots.ofStacks, Function.comp_def]
  sits h := by
    have hfree : (vacant kernel sizes : Roster κ θ).slots.occupant h.slot = none := by
      simp [vacant, TaskSlots.ofStacks, TaskSlots.occupant, Option.bind_eq_none_iff]
    rw [hfree]
    exact iff_of_false List.not_mem_nil nofun
  once := List.nodup_nil
  free := by
    simp [vacant, TaskSlots.ofStacks, TaskSlots.freeCount, List.countP_map, Function.comp_def]
  threads := .nil
  endings := rfl

omit [DecidableEq θ] in
theorem Sound.offers_iff (hsound : r.Sound sizes) {i : Nat} :
    r.Offers sizes size i ↔ r.slots.Fits size i := by
  have hstack : sizes[i]? = r.slots.slots[i]?.map (·.stack) := by
    rw [← hsound.lengths, List.getElem?_map]
  unfold Offers TaskSlots.Fits
  rw [hstack]
  constructor
  · rintro ⟨⟨stack, hstack, hlarge⟩, hvacant⟩
    obtain ⟨s, hs, rfl⟩ := Option.map_eq_some_iff.mp hstack
    refine ⟨s, hs, ?_, hlarge⟩
    refine Option.eq_none_iff_forall_ne_some.mpr fun thread hruns => ?_
    exact hvacant ⟨i, thread⟩
      ((hsound.sits _).mpr ((TaskSlots.occupant_eq hs).trans hruns)) rfl
  · rintro ⟨s, hs, hfree, hlarge⟩
    refine ⟨⟨s.stack, by rw [hs]; rfl, hlarge⟩, ?_⟩
    rintro h hlive rfl
    have hruns := (hsound.sits h).mp hlive
    rw [TaskSlots.occupant_eq hs, hfree] at hruns
    cases hruns

omit [DecidableEq θ] in
/-- A start takes the first slot on offer, if there is one and the kernel agrees. -/
theorem Sound.start_cases (hsound : r.Sound sizes) (k : Kernel κ θ) (name : String)
    (priority : UInt8) (size : Nat) (entry : Entry) (argument : UInt64) :
    ((∀ i, ¬r.Offers sizes size i) ∧
      r.slots.start k.recorded name priority size entry argument =
        (.error .noFreeSlot, r.slots)) ∨
    ∃ i stack, sizes[i]? = some stack ∧ r.Offers sizes size i ∧ (∀ j < i, ¬r.Offers sizes size j) ∧
      ∃ kernel,
        r.slots.start k.recorded name priority size entry argument =
          (.error .launchFailed,
            ⟨(kernel, r.log ++ [.spawn ⟨name, priority, stack, entry, argument⟩ none]),
              r.slots.slots⟩) ∨
        ∃ thread, r.slots.start k.recorded name priority size entry argument =
          (.ok ⟨i, thread⟩,
            ⟨(kernel, r.log ++ [.spawn ⟨name, priority, stack, entry, argument⟩ (some thread)]),
              r.slots.seat i (some thread)⟩) := by
  simp only [hsound.offers_iff]
  obtain hnone | ⟨i, s, hs, hfits, hfirst, hrest⟩ :=
    TaskSlots.start_cases k.recorded r.slots name priority size entry argument
  · exact Or.inl hnone
  · have hstack : sizes[i]? = some s.stack := by
      rw [← hsound.lengths, List.getElem?_map, hs]
      rfl
    refine Or.inr ⟨i, s.stack, hstack, hfits, hfirst, ?_⟩
    obtain ⟨kernel, hspawn, hstart⟩ | ⟨thread, kernel, hspawn, hstart⟩ := hrest
    · injection hspawn with hanswer hkernel
      rw [hstart, ← hkernel]
      exact ⟨_, Or.inl (by rw [hanswer]; rfl)⟩
    · injection hspawn with hanswer hkernel
      rw [hstart, ← hkernel]
      exact ⟨_, Or.inr ⟨thread, by rw [hanswer]; rfl⟩⟩

theorem Sound.stop_eq (hsound : r.Sound sizes) (k : Kernel κ θ) (h : TaskHandle θ) :
    r.slots.stop k.recorded h =
      if h ∈ r.live then
        let (code, kernel) := k.join h.thread (k.terminate h.thread r.slots.kernel.1)
        (some code, ⟨(kernel, r.log ++ KernelCall.ending h.thread), r.slots.seat h.slot none⟩)
      else (none, r.slots) := by
  rw [TaskSlots.stop_eq]
  simp only [hsound.sits h]
  split
  · simp [Kernel.recorded, log, KernelCall.ending]
  · rfl

/-! ## What every call keeps -/

omit [DecidableEq θ] in
theorem Sound.started (hsound : r.Sound sizes) {i : Nat} {kernel : κ} {launch : Launch} {thread : θ}
    (hoffers : r.Offers sizes size i) :
    Sound sizes { r with
      slots := ⟨(kernel, r.log ++ [.spawn launch (some thread)]), r.slots.seat i (some thread)⟩
      live := r.live ++ [⟨i, thread⟩] } := by
  obtain ⟨s, hs, hvacant, -⟩ := hsound.offers_iff.mp hoffers
  have hnew : (⟨i, thread⟩ : TaskHandle θ) ∉ r.live := fun hlive => hoffers.2 _ hlive rfl
  constructor
  case lengths => exact (TaskSlots.stacks_seat _ _ _).trans hsound.lengths
  case sits =>
    intro h
    rw [TaskSlots.occupant_seat hs, List.mem_append, List.mem_singleton]
    split
    case isTrue hslot =>
      have hgone : h ∉ r.live := fun hlive => hoffers.2 h hlive hslot
      subst hslot
      rw [or_iff_right hgone, Option.some_inj]
      exact ⟨fun heq => (congrArg TaskHandle.thread heq).symm, fun heq => by rw [heq]⟩
    case isFalse hslot =>
      have hother : h ≠ ⟨i, thread⟩ := fun heq => hslot (congrArg TaskHandle.slot heq)
      rw [or_iff_left hother]
      exact hsound.sits h
  case once =>
    exact List.nodup_append'.mpr
      ⟨hsound.once, List.nodup_singleton _, List.disjoint_singleton.mpr hnew⟩
  case free =>
    have hcount := TaskSlots.freeCount_seat (kernel, r.log ++ [.spawn launch (some thread)]) hs
      (some thread)
    have hfree := hsound.free
    rw [hvacant] at hcount
    simp only [Option.isNone_none, Option.isNone_some, if_true, Bool.false_eq_true, if_false]
      at hcount
    simp only [List.length_append, List.length_singleton]
    omega
  case threads =>
    unfold handedOut log at *
    rw [List.filterMap_append, List.append_assoc, List.map_append, List.map_append]
    have hthreads := hsound.threads
    rw [List.map_append] at hthreads
    refine (hthreads.append_right _).trans ?_
    rw [List.append_assoc]
    exact List.perm_append_comm.append_left _
  case endings =>
    unfold log
    rw [List.filter_append]
    exact (List.append_nil _).trans hsound.endings

omit [DecidableEq θ] in
/-- Calls of the kernel that neither hand out nor end a thread change nothing, whatever the kernel
becomes. -/
theorem Sound.idled (hsound : r.Sound sizes) (kernel : κ) (calls : List (KernelCall θ))
    (hhanded : calls.filterMap KernelCall.handsOut = [])
    (hended : calls.filter KernelCall.isEnding = []) :
    Sound sizes { r with slots := ⟨(kernel, r.log ++ calls), r.slots.slots⟩ } where
  lengths := hsound.lengths
  sits := hsound.sits
  once := hsound.once
  free := hsound.free
  threads := by
    unfold handedOut log
    rw [List.filterMap_append, hhanded, List.append_nil]
    exact hsound.threads
  endings := by
    unfold log
    rw [List.filter_append, hended, List.append_nil]
    exact hsound.endings

theorem Sound.ended (hsound : r.Sound sizes) {h : TaskHandle θ} {kernel : κ} (hlive : h ∈ r.live) :
    Sound sizes {
      slots := ⟨(kernel, r.log ++ KernelCall.ending h.thread), r.slots.seat h.slot none⟩
      live := r.live.erase h
      stopped := r.stopped ++ [h] } := by
  have hruns := (hsound.sits h).mp hlive
  obtain ⟨s, hs, hrunning⟩ := Option.bind_eq_some_iff.mp hruns
  constructor
  case once => exact hsound.once.erase h
  case lengths => exact (TaskSlots.stacks_seat _ _ _).trans hsound.lengths
  case sits =>
    intro other
    rw [TaskSlots.occupant_seat hs, hsound.once.mem_erase_iff, hsound.sits]
    split
    case isTrue hslot =>
      refine iff_of_false ?_ nofun
      rintro ⟨hother, hsits⟩
      rw [hslot, hruns, Option.some_inj] at hsits
      cases other
      cases h
      exact hother (congrArg₂ TaskHandle.mk hslot hsits.symm)
    case isFalse hslot =>
      exact and_iff_right fun heq => hslot (congrArg TaskHandle.slot heq)
  case free =>
    have hcount := TaskSlots.freeCount_seat (kernel, r.log ++ KernelCall.ending h.thread) hs none
    have hfree := hsound.free
    have hsome := List.length_pos_of_mem hlive
    rw [hrunning] at hcount
    simp only [Option.isNone_none, Option.isNone_some, if_true, Bool.false_eq_true, if_false]
      at hcount
    simp only [List.length_erase_of_mem hlive]
    omega
  case threads =>
    unfold handedOut log
    rw [List.filterMap_append, KernelCall.handsOut_ending, List.append_nil]
    refine hsound.threads.trans (List.Perm.map _ ?_)
    have hmoved : (r.live ++ r.stopped).Perm (h :: (r.live.erase h ++ r.stopped)) :=
      (List.perm_cons_erase hlive).append_right _
    refine hmoved.trans ?_
    rw [← List.append_assoc]
    exact (List.perm_append_singleton _ _).symm
  case endings =>
    unfold log
    rw [List.filter_append, KernelCall.filter_ending, List.flatMap_append]
    exact congrArg₂ (· ++ ·) hsound.endings (List.append_nil _).symm

theorem step_sound (hsound : r.Sound sizes) (c : SlotCall κ θ) : (r.step k c).Sound sizes := by
  cases c with
  | start name priority size entry argument =>
    unfold step
    obtain ⟨-, hstart⟩ | ⟨i, stack, -, hoffers, -, kernel, hstart | ⟨thread, hstart⟩⟩ :=
      hsound.start_cases k name priority size entry argument
    · simp only [hstart]
      exact hsound
    · simp only [hstart]
      exact hsound.idled kernel _ rfl rfl
    · simp only [hstart]
      exact hsound.started hoffers
  | stop h =>
    simp only [step, hsound.stop_eq]
    split
    · exact hsound.ended ‹_›
    · exact hsound
  | elapse kernel =>
    have hidled := hsound.idled kernel [] rfl rfl
    rwa [List.append_nil] at hidled

theorem run_sound (hsound : r.Sound sizes) (calls : List (SlotCall κ θ)) :
    (r.run k calls).Sound sizes := by
  induction calls generalizing r with
  | nil => exact hsound
  | cons c calls ih => exact ih (step_sound hsound c)

theorem stopped_prefix_step (k : Kernel κ θ) (r : Roster κ θ) (c : SlotCall κ θ) :
    r.stopped <+: (r.step k c).stopped := by
  cases c with
  | start name priority size entry argument =>
    simp only [step]
    split <;> exact List.prefix_rfl
  | stop h =>
    simp only [step]
    split
    · exact List.prefix_append _ _
    · exact List.prefix_rfl
  | elapse kernel => exact List.prefix_rfl

theorem stopped_prefix (k : Kernel κ θ) (r : Roster κ θ) (calls : List (SlotCall κ θ)) :
    r.stopped <+: (r.run k calls).stopped := by
  induction calls generalizing r with
  | nil => exact List.prefix_rfl
  | cons c calls ih => exact (stopped_prefix_step k r c).trans (ih _)

/-! ## After any calls -/

/-- A start takes the lowest slot on offer and asks the kernel once for a thread on its stack.
It is refused without a call of the kernel exactly if no slot is on offer; when the kernel refuses
the thread, the slots are as before. -/
def Starts (k : Kernel κ θ) (sizes : List Nat) (r : Roster κ θ) (name : String) (priority : UInt8)
    (size : Nat) (entry : Entry) (argument : UInt64) : Prop :=
  let (answer, slots) := r.slots.start k.recorded name priority size entry argument
  let asked (i : Nat) (thread : Option θ) : Prop :=
    r.Offers sizes size i ∧ (∀ j < i, ¬r.Offers sizes size j) ∧
      ∃ stack, sizes[i]? = some stack ∧
        slots.kernel.2 = r.log ++ [.spawn ⟨name, priority, stack, entry, argument⟩ thread]
  (answer = .error .noFreeSlot ↔ ∀ i, ¬r.Offers sizes size i) ∧
  match answer with
  | .ok h => asked h.slot (some h.thread) ∧ slots.slots = r.slots.seat h.slot (some h.thread)
  | .error .launchFailed => (∃ i, asked i none) ∧ slots.slots = r.slots.slots
  | .error .noFreeSlot => slots = r.slots
  | .error _ => False

/-- A stop of a live task answers the code that joining its thread gives, after it asked the
thread to end, and frees the slot of the task. Any other stop does nothing. -/
def Stops (k : Kernel κ θ) (r : Roster κ θ) (h : TaskHandle θ) : Prop :=
  r.slots.stop k.recorded h =
    if h ∈ r.live then
      let (code, kernel) := k.join h.thread (k.terminate h.thread r.slots.kernel.1)
      (some code, ⟨(kernel, r.log ++ [.terminate h.thread, .join h.thread]),
        r.slots.seat h.slot none⟩)
    else (none, r.slots)

omit [DecidableEq θ] in
theorem Sound.starts (hsound : r.Sound sizes) (k : Kernel κ θ) (name : String) (priority : UInt8)
    (size : Nat) (entry : Entry) (argument : UInt64) :
    r.Starts k sizes name priority size entry argument := by
  unfold Starts
  obtain ⟨hnone, hstart⟩ | ⟨i, stack, hstack, hoffers, hfirst, kernel, hstart | ⟨thread, hstart⟩⟩ :=
    hsound.start_cases k name priority size entry argument
  · rw [hstart]
    exact ⟨iff_of_true rfl hnone, rfl⟩
  · rw [hstart]
    exact ⟨iff_of_false nofun fun hnone => hnone i hoffers,
      ⟨i, hoffers, hfirst, stack, hstack, rfl⟩, rfl⟩
  · rw [hstart]
    exact ⟨iff_of_false nofun fun hnone => hnone i hoffers,
      ⟨hoffers, hfirst, stack, hstack, rfl⟩, rfl⟩

omit [DecidableEq θ] in
theorem Sound.slots_nodup (hsound : r.Sound sizes) : (r.live.map (·.slot)).Nodup := by
  refine hsound.once.map_on ?_
  intro h hlive other hother hslot
  have hruns := (hsound.sits h).mp hlive
  have hsits := (hsound.sits other).mp hother
  rw [← hslot, hruns, Option.some_inj] at hsits
  cases h
  cases other
  exact congrArg₂ TaskHandle.mk hslot hsits

omit [DecidableEq θ] in
/-- The thread of a stopped task runs nowhere, unless the kernel handed it out again. -/
theorem Sound.stopped_gone (hsound : r.Sound sizes) (hfresh : r.handedOut.Nodup)
    {h : TaskHandle θ} (hstopped : h ∈ r.stopped) (i : Nat) :
    r.slots.occupant i ≠ some h.thread := by
  have honce := (hsound.threads.nodup_iff.mp hfresh)
  rw [List.map_append] at honce
  intro hruns
  have hlive := (hsound.sits ⟨i, h.thread⟩).mpr hruns
  exact List.disjoint_of_nodup_append honce (List.mem_map_of_mem (f := (·.thread)) hlive)
    (List.mem_map_of_mem hstopped)

/-- After any calls, on a kernel that handed out no thread twice: the live tasks sit in slots of
their own, and these are the slots that are not free; every start and every stop does what it has
to; a task that was stopped stays stopped, its thread was ended once and runs in no slot, and
stopping it again does nothing. -/
theorem occupancy (k : Kernel κ θ) (kernel : κ) (sizes : List Nat) (calls : List (SlotCall κ θ))
    (hfresh : ((vacant kernel sizes).run k calls).handedOut.Nodup) :
    let r := (vacant kernel sizes).run k calls
    (r.live.map (·.slot)).Nodup ∧
    (∀ i thread, r.slots.occupant i = some thread ↔ ⟨i, thread⟩ ∈ r.live) ∧
    r.slots.slots.map (·.stack) = sizes ∧
    r.slots.freeCount + r.live.length = sizes.length ∧
    (∀ name priority size entry argument, r.Starts k sizes name priority size entry argument) ∧
    (∀ h, r.Stops k h) ∧
    (∀ more, r.stopped <+: (r.run k more).stopped) ∧
    (∀ h ∈ r.stopped, h ∉ r.live ∧ (∀ i, r.slots.occupant i ≠ some h.thread) ∧
      r.slots.stop k.recorded h = (none, r.slots)) ∧
    (r.stopped.map (·.thread)).Nodup ∧
    r.log.filter KernelCall.isEnding =
      r.stopped.flatMap fun h => [.terminate h.thread, .join h.thread] := by
  intro r
  have hsound : r.Sound sizes := run_sound (vacant_sound kernel sizes) calls
  have hgone : ∀ h ∈ r.stopped, h ∉ r.live := fun h hstopped hlive =>
    hsound.stopped_gone hfresh hstopped h.slot ((hsound.sits h).mp hlive)
  have honce := hsound.threads.nodup_iff.mp hfresh
  rw [List.map_append] at honce
  refine ⟨hsound.slots_nodup, fun i thread => (hsound.sits ⟨i, thread⟩).symm, hsound.lengths,
    hsound.free, hsound.starts k, hsound.stop_eq k, stopped_prefix k r, fun h hstopped => ?_,
    honce.of_append_right, hsound.endings⟩
  refine ⟨hgone h hstopped, hsound.stopped_gone hfresh hstopped, ?_⟩
  rw [hsound.stop_eq, if_neg (hgone h hstopped)]

/-- A thread that is refused, a task that is stopped twice, and a task that takes its slot. -/
theorem occupancy_reused :
    let calls : List (SlotCall Bench.Threads Nat) :=
      [.start "sweep" 2 300 (fun _ => 7) 0, .elapse { refuses := true, codes := #[7] },
        .start "port" 1 64 (fun _ => 0) 0, .elapse { codes := #[7] }, .stop ⟨1, 1⟩, .stop ⟨1, 1⟩,
        .start "display" 1 300 (fun _ => 3) 0]
    let r := (vacant {} [64, 512]).run Bench.Threads.kernel calls
    r.live = [⟨1, 2⟩] ∧ r.stopped = [⟨1, 1⟩] ∧
      r.slots.stop Bench.Threads.kernel.recorded ⟨1, 1⟩ = (none, r.slots) := by
  intro calls r
  have hlive : r.live = [⟨1, 2⟩] := by decide +kernel
  have hstopped : r.stopped = [⟨1, 1⟩] := by decide +kernel
  have hfresh : r.handedOut.Nodup := by decide +kernel
  have hstale := (occupancy Bench.Threads.kernel {} [64, 512] calls hfresh).2.2.2.2.2.2.2.1
  exact ⟨hlive, hstopped, (hstale ⟨1, 1⟩ (by rw [hstopped]; exact List.mem_singleton_self _)).2.2⟩

end Roster

end NetworkAnalyzer
