import NetworkAnalyzer.Channel
import NetworkAnalyzer.Fault

/-!
# Event bus

Events are published under a topic and delivered to its subscribers in the order they registered.
A listener may register several times, and then hears an event as often. Subscriptions are only
added, up to the number of slots.

A bus without a queue delivers at once. A bus with a queue stores events and delivers them one by
one when some task dispatches; what happens when the queue is full depends on who publishes:

* a thread delivers its event inline. It then overtakes the events that wait.
* An interrupt must not run the listeners, and drops its event with `queueExhausted` as the answer.

That drop is the only loss.

An operation here returns the deliveries it makes, in order, and does not call anybody. The
operations on the shared state hand them to the listeners (`Shared.publish` and its relatives), so
what a listener does on hearing an event is part of the state there.
-/

namespace NetworkAnalyzer

inductive Topic where
  | sweepStarted
  | sweepCompleted
  | touchInput
  | storageUpdated
  | configurationChanged
  | usbCommandPending
  | sweepProgress
  deriving DecidableEq, Repr

namespace Topic

def all : List Topic :=
  [.sweepStarted, .sweepCompleted, .touchInput, .storageUpdated, .configurationChanged,
   .usbCommandPending, .sweepProgress]

def names : NameTable Topic :=
  [("SweepStarted", .sweepStarted), ("SweepCompleted", .sweepCompleted),
   ("TouchInput", .touchInput), ("StorageUpdated", .storageUpdated),
   ("ConfigurationChanged", .configurationChanged), ("UsbCommandPending", .usbCommandPending),
   ("SweepProgress", .sweepProgress)]

def number : Topic → Nat
  | .sweepStarted => 0
  | .sweepCompleted => 1
  | .touchInput => 2
  | .storageUpdated => 3
  | .configurationChanged => 4
  | .usbCommandPending => 5
  | .sweepProgress => 6

def ofNat? (n : Nat) : Option Topic := all[n]?

theorem ofNat?_number (t : Topic) : ofNat? t.number = some t := by cases t <;> rfl

end Topic

inductive Event where
  | sweepStarted (mask : SweepMask)
  | sweepCompleted (mask : SweepMask)
  | touchInput
  /-- A storage slot was written. -/
  | storageUpdated (slot : UInt16)
  | configurationChanged
  | usbCommandPending
  /-- Index of the last measured point. -/
  | sweepProgress (point : UInt16)
  deriving DecidableEq, Repr

def Event.topic : Event → Topic
  | .sweepStarted _ => .sweepStarted
  | .sweepCompleted _ => .sweepCompleted
  | .touchInput => .touchInput
  | .storageUpdated _ => .storageUpdated
  | .configurationChanged => .configurationChanged
  | .usbCommandPending => .usbCommandPending
  | .sweepProgress _ => .sweepProgress

/-- The number an event carries. -/
def Event.payload? : Event → Option Nat
  | .sweepStarted mask | .sweepCompleted mask => some mask.toNat
  | .storageUpdated slot => some slot.toNat
  | .sweepProgress point => some point.toNat
  | .touchInput | .configurationChanged | .usbCommandPending => none

/-- An event by the name of its topic, with its number in brackets. -/
def Event.text (e : Event) : String :=
  let name := Topic.names.nameOf e.topic
  match e.payload? with
  | some n => name ++ "(" ++ toString n ++ ")"
  | none => name

abbrev Listener := Nat

structure Delivered where
  listener : Listener
  event : Event
  deriving DecidableEq, Repr

/-- Stored events, oldest first, and room for them. -/
structure EventQueue where
  capacity : Nat
  events : List Event := []
  deriving DecidableEq, Repr

/-- Subscriptions, and the queue of a bus that defers delivery. -/
structure EventBus where
  /-- Subscriptions the bus holds. -/
  slots : Nat
  subscriptions : List (Topic × Listener) := []
  queue : Option EventQueue := none
  deriving DecidableEq, Repr

namespace EventBus

def synchronous (slots : Nat) : EventBus := { slots }

def queued (slots capacity : Nat) : EventBus := { slots, queue := some { capacity } }

/-- Registers a listener; whether there was a subscription left. -/
def subscribe (b : EventBus) (t : Topic) (l : Listener) : Bool × EventBus :=
  if b.subscriptions.length < b.slots then
    (true, { b with subscriptions := b.subscriptions ++ [(t, l)] })
  else (false, b)

/-- Who hears an event: the listeners of its topic, in the order they subscribed. -/
def deliveries (b : EventBus) (e : Event) : List Delivered :=
  (b.subscriptions.filter (·.1 == e.topic)).map fun s => ⟨s.2, e⟩

/-- Stores an event, unless the queue is full. -/
def enqueue (q : EventQueue) (e : Event) : Option EventQueue :=
  if q.events.length < q.capacity then some { q with events := q.events ++ [e] } else none

/-- Stores the event for later, or, on a bus without a queue or with a full one, delivers it on the
spot. -/
def publish (b : EventBus) (e : Event) : List Delivered × EventBus :=
  match b.queue with
  | none => (b.deliveries e, b)
  | some q =>
    match enqueue q e with
    | some q => ([], { b with queue := some q })
    | none => (b.deliveries e, b)

/-- An interrupt never delivers in place of a full queue: it is refused. -/
def publishFromInterrupt (b : EventBus) (e : Event) :
    Except Failure Unit × List Delivered × EventBus :=
  match b.queue with
  | none => (.ok (), b.deliveries e, b)
  | some q =>
    match enqueue q e with
    | some q => (.ok (), [], { b with queue := some q })
    | none => (.error .queueExhausted, [], b)

/-- Takes the oldest stored event. -/
def takeEvent (b : EventBus) : Option Event × EventBus :=
  match b.queue with
  | some { capacity, events := e :: rest } => (some e, { b with queue := some ⟨capacity, rest⟩ })
  | _ => (none, b)

def freeNodes (b : EventBus) : Nat :=
  match b.queue with
  | none => 0
  | some q => q.capacity - q.events.length

end EventBus

end NetworkAnalyzer
