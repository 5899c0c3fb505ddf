import NetworkAnalyzer.Fault

/-!
# Task slots

Tasks run in a fixed number of slots, each with a stack of its own. A task starts in the first free
slot whose stack is large enough, and the slot is free again once the task was stopped and joined.
There may be a slot with a larger stack that stays unused, and a request for which no free stack is
large enough fails with `noFreeSlot`.

Threads are made by a kernel, which is a parameter: its state `κ`, its handles `θ`, and what it
does to start, stop and join one. A kernel may refuse to create a thread; then the slot that was
chosen stays free, and the failure is `launchFailed`.

A handle that was given out may outlive its task. Stopping by a handle looks for the slot in which
this very thread runs, and finds none if another task has taken the slot since.
-/

namespace NetworkAnalyzer

/-- A task's body: from the argument given at the start to its exit code. -/
abbrev Entry := UInt64 → Int32

/-- What the kernel is asked for when a task is started. -/
structure Launch where
  name : String
  priority : UInt8
  /-- Bytes of the stack it runs on. -/
  stack : Nat
  entry : Entry
  argument : UInt64

/-- The thread primitives, over the kernel state `κ` and thread handles `θ`. -/
structure Kernel (κ θ : Type) where
  /-- Creates a thread, or refuses. -/
  spawn : Launch → κ → Option θ × κ
  /-- Asks a thread to end. -/
  terminate : θ → κ → κ
  /-- Waits for a thread to end; its exit code. -/
  join : θ → κ → Int32 × κ

/-- A stack set aside for one task at a time. -/
structure TaskSlot (θ : Type) where
  stack : Nat
  running : Option θ := none
  deriving DecidableEq, Repr

/-- Names the thread as well as the slot: a handle outlives its task, and the slot may have another
thread by then. -/
structure TaskHandle (θ : Type) where
  slot : Nat
  thread : θ
  deriving DecidableEq, Repr

structure TaskSlots (κ θ : Type) where
  kernel : κ
  slots : List (TaskSlot θ)

namespace TaskSlots

variable {κ θ : Type}

/-- One free slot per stack. -/
def ofStacks (kernel : κ) (sizes : List Nat) : TaskSlots κ θ :=
  ⟨kernel, sizes.map fun stack => { stack }⟩

def freeCount (t : TaskSlots κ θ) : Nat := t.slots.countP (·.running.isNone)

/-- The first free slot whose stack is large enough. -/
def findSlot (t : TaskSlots κ θ) (size : Nat) : Option Nat :=
  t.slots.findIdx? fun s => s.running.isNone && decide (size ≤ s.stack)

/-- Starts a task that needs a stack of `size` bytes. -/
def start (k : Kernel κ θ) (t : TaskSlots κ θ) (name : String) (priority : UInt8) (size : Nat)
    (entry : Entry) (argument : UInt64) : Except Failure (TaskHandle θ) × TaskSlots κ θ :=
  match t.findSlot size with
  | none => (.error .noFreeSlot, t)
  | some i =>
    match t.slots[i]? with
    | none => (.error .noFreeSlot, t)
    | some s =>
      match k.spawn { name, priority, stack := s.stack, entry, argument } t.kernel with
      | (some thread, kernel) =>
        (.ok ⟨i, thread⟩, { kernel, slots := t.slots.set i { s with running := some thread } })
      | (none, kernel) => (.error .launchFailed, { t with kernel })

/-- Stops a task, waits for its end and frees its slot: the exit code, or nothing when
the handle is of no running task. -/
def stop [DecidableEq θ] (k : Kernel κ θ) (t : TaskSlots κ θ) (h : TaskHandle θ) :
    Option Int32 × TaskSlots κ θ :=
  match t.slots[h.slot]? with
  | none => (none, t)
  | some s =>
    if s.running = some h.thread then
      let (code, kernel) := k.join h.thread (k.terminate h.thread t.kernel)
      (some code, { kernel, slots := t.slots.set h.slot { s with running := none } })
    else (none, t)

end TaskSlots

end NetworkAnalyzer
