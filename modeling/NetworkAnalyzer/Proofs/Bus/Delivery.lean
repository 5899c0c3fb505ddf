import Mathlib.Data.List.Induction
import NetworkAnalyzer.Proofs.Runs
import NetworkAnalyzer.Shared

/-!
# What becomes of published events

A bus is called in any order: threads publish, interrupts publish, some task dispatches.
`EventBus.run` makes the calls one after the other and records of each which bus it found,
what it answered and who heard what.

Whom an event reaches is said by `HandedOut` in terms of the subscriptions alone, so that it can be
read without the code: the listeners of the event's topic, once for each subscription, in the order
in which they registered, and nobody else. There is one list of deliveries that is so
(`HandedOut.eq_deliveries`), and the bus makes it (`deliveries_handedOut`).

When an event is handed out is a matter of the queue. An event that finds room waits, and some
later dispatch hands it out; otherwise a thread hands its event out itself and an interrupt loses
it. The records of a run are marked with the events that were put into the queue (`stores`) and
taken from it (`takes`), both with the position of the call, and the account is between the two.

* `publish_eq`, `publishFromInterrupt_eq`, `takeEvent_eq`: what the operations do to the queue.
* `call_lawful`: what one call answers and delivers, by the bus it finds.
* `call_balance`: what one call takes from the queue and adds to it.
* `accounted`: over any calls, the `k`-th event taken from the queue is the `k`-th stored and
  was stored earlier. What was stored and not taken waits, and enough dispatches deliver it.
* `Shared.publish_call`, `Shared.publishFromInterrupt_call`, `Shared.dispatch_call`: the
  operations on the shared state are these calls.
-/

namespace NetworkAnalyzer

namespace EventBus

/-- Stored events, oldest first. -/
def waiting (b : EventBus) : List Event :=
  match b.queue with
  | none => []
  | some q => q.events

/-- Events that the queue can hold. -/
def capacity (b : EventBus) : Nat :=
  match b.queue with
  | none => 0
  | some q => q.capacity

def hasRoom (b : EventBus) : Bool := decide (b.waiting.length < b.capacity)

inductive Call where
  /-- From a thread. -/
  | publish (e : Event)
  /-- From an interrupt. -/
  | interrupt (e : Event)
  /-- Delivers one stored event. -/
  | dispatch
  deriving DecidableEq

inductive Answer where
  /-- Publishing from a thread has no answer. -/
  | done
  | outcome (r : Except Failure Unit)
  /-- Whether there was an event to deliver. -/
  | delivered (any : Bool)

/-- One call: the bus it found, its answer and the deliveries it made, in order. -/
structure Record where
  found : EventBus
  call : Call
  answer : Answer
  heard : List Delivered

def call (b : EventBus) (c : Call) : Record × EventBus :=
  match c with
  | .publish e =>
    let (heard, v) := b.publish e
    (⟨b, c, .done, heard⟩, v)
  | .interrupt e =>
    let (outcome, heard, v) := b.publishFromInterrupt e
    (⟨b, c, .outcome outcome, heard⟩, v)
  | .dispatch =>
    match b.takeEvent with
    | (none, v) => (⟨b, c, .delivered false, []⟩, v)
    | (some e, v) => (⟨b, c, .delivered true, v.deliveries e⟩, v)

/-- Makes calls in order. -/
def run (b : EventBus) : List Call → List Record × EventBus
  | [] => ([], b)
  | c :: calls =>
    let (r, v) := b.call c
    let (rs, v) := v.run calls
    (r :: rs, v)

/-- An event was handed out once for every subscription to its topic, in the order of the
subscriptions, and to nobody else. A listener that subscribed twice hears it twice. -/
structure HandedOut (subscriptions : List (Topic × Listener)) (e : Event)
    (heard : List Delivered) : Prop where
  event : ∀ d ∈ heard, d.event = e
  ordered : (heard.map fun d => (e.topic, d.listener)).Sublist subscriptions
  once : ∀ l, heard.count ⟨l, e⟩ = subscriptions.count (e.topic, l)

namespace Record

/-- The answer and the deliveries that the bus found calls for: a thread that finds no room
delivers at once, an interrupt that finds the queue full is refused, and a dispatch delivers the
event that waits longest. -/
def Lawful (r : Record) : Prop :=
  match r.call with
  | .publish e =>
    r.answer = .done ∧ if r.found.hasRoom then r.heard = []
      else HandedOut r.found.subscriptions e r.heard
  | .interrupt e =>
    if r.found.queue = none then
      r.answer = .outcome (.ok ()) ∧ HandedOut r.found.subscriptions e r.heard
    else if r.found.hasRoom then r.answer = .outcome (.ok ()) ∧ r.heard = []
    else r.answer = .outcome (.error .queueExhausted) ∧ r.heard = []
  | .dispatch =>
    match r.found.waiting with
    | [] => r.answer = .delivered false ∧ r.heard = []
    | e :: _ => r.answer = .delivered true ∧ HandedOut r.found.subscriptions e r.heard

def stored? (r : Record) : Option Event :=
  match r.call with
  | .publish e | .interrupt e => if r.found.hasRoom then some e else none
  | .dispatch => none

def taken? (r : Record) : Option Event :=
  match r.call with
  | .publish _ | .interrupt _ => none
  | .dispatch => r.found.waiting.head?

end Record

/-- The calls that `f` marks with an event, each with its position. -/
def marked (f : Record → Option Event) (rs : List Record) : List (Nat × Event) :=
  rs.zipIdx.filterMap fun p => (f p.1).map (p.2, ·)

abbrev stores : List Record → List (Nat × Event) := marked Record.stored?

abbrev takes : List Record → List (Nat × Event) := marked Record.taken?

/-! ## One event -/

/-- The bus hands an event out as its subscriptions say. -/
theorem deliveries_handedOut (b : EventBus) (e : Event) :
    HandedOut b.subscriptions e (b.deliveries e) where
  event d hd := by
    obtain ⟨s, -, rfl⟩ := List.mem_map.mp hd
    rfl
  ordered := by
    have hsame : (b.deliveries e).map (fun d => (e.topic, d.listener)) =
        b.subscriptions.filter (·.1 == e.topic) := by
      rw [deliveries, List.map_map]
      refine (List.map_congr_left fun s hs => ?_).trans (List.map_id' _)
      have htopic : s.1 = e.topic := by simpa using (List.mem_filter.mp hs).2
      exact Prod.ext htopic.symm rfl
    rw [hsame]
    exact List.filter_sublist
  once l := by
    rw [deliveries, List.count_eq_countP, List.countP_map, List.countP_filter,
      List.count_eq_countP]
    refine List.countP_congr fun s _ => ?_
    simp [Prod.ext_iff, and_comm]

/-- There is one way to hand an event out. -/
theorem HandedOut.eq_deliveries {b : EventBus} {e : Event} {heard : List Delivered}
    (h : HandedOut b.subscriptions e heard) : heard = b.deliveries e := by
  have hd := deliveries_handedOut b e
  have hperm : heard.Perm (b.deliveries e) := by
    refine List.perm_iff_count.mpr fun d => ?_
    by_cases he : d.event = e
    · subst he
      exact (h.once d.listener).trans (hd.once d.listener).symm
    · rw [List.count_eq_zero.mpr fun hmem => he (h.event d hmem),
        List.count_eq_zero.mpr fun hmem => he (hd.event d hmem)]
  have hsub : (heard.map fun d => (e.topic, d.listener)).Sublist
      (b.subscriptions.filter (·.1 == e.topic)) := by
    have hfilter := h.ordered.filter (·.1 == e.topic)
    rwa [List.filter_eq_self.mpr (by simp)] at hfilter
  have hsame := hsub.eq_of_length (by rw [List.length_map, hperm.length_eq, deliveries,
    List.length_map])
  calc heard = (heard.map fun d => (e.topic, d.listener)).map fun s => ⟨s.2, e⟩ := by
        rw [List.map_map]
        refine ((List.map_congr_left fun d hmem => ?_).trans (List.map_id' _)).symm
        rw [Function.comp_apply, ← h.event d hmem]
    _ = b.deliveries e := by rw [hsame, deliveries]

/-! ## One call -/

variable {b b' : EventBus} {c : Call} {calls more : List Call} {r : Record} {rs : List Record}
  {f : Record → Option Event}

@[simp] theorem call_found (b : EventBus) (c : Call) : (b.call c).1.found = b := by
  cases c with
  | publish e | interrupt e => rfl
  | dispatch =>
    simp only [call]
    split <;> rfl

@[simp] theorem call_call (b : EventBus) (c : Call) : (b.call c).1.call = c := by
  cases c with
  | publish e | interrupt e => rfl
  | dispatch =>
    simp only [call]
    split <;> rfl

/-- The bus with an event stored behind the others. -/
def store (b : EventBus) (e : Event) : EventBus :=
  { b with queue := b.queue.map fun q => { q with events := q.events ++ [e] } }

/-- The bus without the event that waits longest. -/
def dropFirst (b : EventBus) : EventBus :=
  { b with queue := b.queue.map fun q => { q with events := q.events.tail } }

theorem store_subscriptions (e : Event) : (b.store e).subscriptions = b.subscriptions := rfl

theorem dropFirst_subscriptions : b.dropFirst.subscriptions = b.subscriptions := rfl

@[simp] theorem dropFirst_deliveries (e : Event) : b.dropFirst.deliveries e = b.deliveries e := rfl

@[simp] theorem store_capacity (e : Event) : (b.store e).capacity = b.capacity := by
  unfold capacity store
  cases b.queue <;> rfl

@[simp] theorem dropFirst_capacity : b.dropFirst.capacity = b.capacity := by
  unfold capacity dropFirst
  cases b.queue <;> rfl

@[simp] theorem dropFirst_waiting : b.dropFirst.waiting = b.waiting.tail := by
  unfold waiting dropFirst
  cases b.queue <;> rfl

theorem store_waiting (hroom : b.hasRoom = true) (e : Event) :
    (b.store e).waiting = b.waiting ++ [e] := by
  unfold hasRoom waiting capacity at hroom
  unfold waiting store
  cases hq : b.queue with
  | none => simp [hq] at hroom
  | some q => rfl

theorem queue_of_hasRoom (hroom : b.hasRoom = true) : b.queue ≠ none := by
  intro hq
  simp [hasRoom, waiting, capacity, hq] at hroom

theorem publish_eq (b : EventBus) (e : Event) :
    b.publish e = if b.hasRoom then ([], b.store e) else (b.deliveries e, b) := by
  obtain ⟨slots, subscriptions, _ | ⟨n, events⟩⟩ := b
  · rfl
  · by_cases hroom : events.length < n <;>
      simp [publish, enqueue, hasRoom, waiting, capacity, store, hroom]

theorem publishFromInterrupt_eq (b : EventBus) (e : Event) :
    b.publishFromInterrupt e =
      if b.queue = none then (.ok (), b.deliveries e, b)
      else if b.hasRoom then (.ok (), [], b.store e)
      else (.error .queueExhausted, [], b) := by
  obtain ⟨slots, subscriptions, _ | ⟨n, events⟩⟩ := b
  · rfl
  · by_cases hroom : events.length < n <;>
      simp [publishFromInterrupt, enqueue, hasRoom, waiting, capacity, store, hroom]

theorem takeEvent_eq (b : EventBus) : b.takeEvent = (b.waiting.head?, b.dropFirst) := by
  obtain ⟨slots, subscriptions, _ | ⟨n, _ | ⟨e, events⟩⟩⟩ := b <;> rfl

theorem call_lawful (b : EventBus) (c : Call) : (b.call c).1.Lawful := by
  cases c with
  | publish e =>
    by_cases hroom : b.hasRoom = true <;>
      simp [Record.Lawful, call, publish_eq, hroom, deliveries_handedOut]
  | interrupt e =>
    by_cases hqueue : b.queue = none
    · simp [Record.Lawful, call, publishFromInterrupt_eq, hqueue, deliveries_handedOut]
    · by_cases hroom : b.hasRoom = true <;>
        simp [Record.Lawful, call, publishFromInterrupt_eq, hqueue, hroom]
  | dispatch =>
    cases hw : b.waiting <;>
      simp [Record.Lawful, call, takeEvent_eq, hw, deliveries_handedOut]

/-- The queue before a call with what the call stored is what it took with the queue after. -/
theorem call_balance (b : EventBus) (c : Call) :
    (b.call c).1.taken?.toList ++ (b.call c).2.waiting =
      b.waiting ++ (b.call c).1.stored?.toList := by
  cases c with
  | publish e =>
    by_cases hroom : b.hasRoom = true <;>
      simp [Record.taken?, Record.stored?, call, publish_eq, store_waiting, hroom]
  | interrupt e =>
    by_cases hroom : b.hasRoom = true
    · simp [Record.taken?, Record.stored?, call, publishFromInterrupt_eq, store_waiting, hroom,
        queue_of_hasRoom hroom]
    · by_cases hqueue : b.queue = none <;>
        simp [Record.taken?, Record.stored?, call, publishFromInterrupt_eq, hroom, hqueue]
  | dispatch =>
    cases hw : b.waiting <;> simp [Record.taken?, Record.stored?, call, takeEvent_eq, hw]

theorem call_frame (b : EventBus) (c : Call) :
    (b.call c).2.subscriptions = b.subscriptions ∧ (b.call c).2.capacity = b.capacity := by
  cases c with
  | publish e =>
    by_cases hroom : b.hasRoom = true <;> simp [call, publish_eq, hroom, store_subscriptions]
  | interrupt e =>
    by_cases hqueue : b.queue = none <;> by_cases hroom : b.hasRoom = true <;>
      simp [call, publishFromInterrupt_eq, hqueue, hroom, store_subscriptions]
  | dispatch =>
    cases hw : b.waiting <;> simp [call, takeEvent_eq, hw, dropFirst_subscriptions]

theorem stored_hasRoom {e : Event} (h : (b.call c).1.stored? = some e) : b.hasRoom = true := by
  unfold Record.stored? at h
  cases c with
  | publish d | interrupt d =>
    simp only [call_call, call_found, Option.ite_none_right_eq_some] at h
    exact h.1
  | dispatch => simp at h

theorem taken_waits {e : Event} (h : (b.call c).1.taken? = some e) :
    b.waiting.head? = some e := by
  unfold Record.taken? at h
  cases c with
  | publish d | interrupt d => simp at h
  | dispatch => simpa using h

theorem call_fits (hfits : b.waiting.length ≤ b.capacity) (c : Call) :
    (b.call c).2.waiting.length ≤ (b.call c).2.capacity := by
  have hbalance := congrArg List.length (call_balance b c)
  rw [List.length_append, List.length_append] at hbalance
  rw [(call_frame b c).2]
  cases hstored : (b.call c).1.stored? with
  | none =>
    rw [hstored, Option.toList_none, List.length_nil] at hbalance
    omega
  | some e =>
    have hroom : b.waiting.length < b.capacity := by simpa [hasRoom] using stored_hasRoom hstored
    rw [hstored, Option.toList_some, List.length_singleton] at hbalance
    omega

theorem freeNodes_add (hfits : b.waiting.length ≤ b.capacity) :
    b.freeNodes + b.waiting.length = b.capacity := by
  unfold freeNodes
  unfold waiting capacity at *
  cases hq : b.queue with
  | none => rfl
  | some q =>
    rw [hq] at hfits
    exact Nat.sub_add_cancel hfits

theorem takeEvent_none (h : b.takeEvent.1 = none) : b.takeEvent.2 = b := by
  obtain ⟨slots, subscriptions, queue⟩ := b
  rcases queue with _ | ⟨n, _ | ⟨e, events⟩⟩
  · rfl
  · rfl
  · cases h

theorem call_dispatch (b : EventBus) :
    b.call .dispatch = match b.takeEvent.1 with
      | none => (⟨b, .dispatch, .delivered false, []⟩, b.takeEvent.2)
      | some e => (⟨b, .dispatch, .delivered true, b.takeEvent.2.deliveries e⟩,
          b.takeEvent.2) := by
  rcases ht : b.takeEvent with ⟨_ | e, v⟩ <;> simp [call, ht]

/-! ## Positions -/

theorem marked_concat (f : Record → Option Event) (rs : List Record) (r : Record) :
    marked f (rs ++ [r]) = marked f rs ++ ((f r).map (rs.length, ·)).toList := by
  unfold marked
  rw [List.zipIdx_append, List.filterMap_append]
  cases hf : f r <;> simp [hf]

theorem getElem?_marked_concat {k j : Nat} {e : Event}
    (h : (marked f (rs ++ [r]))[k]? = some (j, e)) :
    (marked f rs)[k]? = some (j, e) ∨
      (k = (marked f rs).length ∧ j = rs.length ∧ f r = some e) := by
  rw [marked_concat] at h
  by_cases hk : k < (marked f rs).length
  · rw [List.getElem?_append_left hk] at h
    exact Or.inl h
  · rw [List.getElem?_append_right (Nat.le_of_not_lt hk)] at h
    cases hf : f r with
    | none => simp [hf] at h
    | some d =>
      simp only [hf, Option.map_some, Option.toList_some, List.getElem?_singleton,
        Option.ite_none_right_eq_some, Option.some.injEq, Prod.mk.injEq] at h
      obtain ⟨hlast, rfl, rfl⟩ := h
      exact Or.inr ⟨by omega, rfl, rfl⟩

theorem marked_events (f : Record → Option Event) (rs : List Record) :
    (marked f rs).map (·.2) = rs.filterMap f := by
  induction rs using List.reverseRecOn with
  | nil => rfl
  | append_singleton rs r ih =>
    rw [marked_concat, List.map_append, ih, List.filterMap_append]
    cases hf : f r <;> simp [hf]

theorem lt_of_mem_marked {p : Nat × Event} (h : p ∈ marked f rs) : p.1 < rs.length := by
  unfold marked at h
  obtain ⟨⟨r, i⟩, hmem, hmark⟩ := List.mem_filterMap.mp h
  obtain ⟨e, -, rfl⟩ := Option.map_eq_some_iff.mp hmark
  exact List.snd_lt_of_mem_zipIdx hmem

theorem marked_sorted (f : Record → Option Event) (rs : List Record) :
    (marked f rs).Pairwise (·.1 < ·.1) := by
  induction rs using List.reverseRecOn with
  | nil => exact List.Pairwise.nil
  | append_singleton rs r ih =>
    rw [marked_concat, List.pairwise_append]
    refine ⟨ih, ?_, fun p hp q hq => ?_⟩
    · cases f r <;> simp
    · obtain ⟨e, -, rfl⟩ := Option.map_eq_some_iff.mp (Option.mem_toList.mp hq)
      exact lt_of_mem_marked hp

/-! ## Any calls -/

theorem run_concat (b : EventBus) (calls : List Call) (c : Call) :
    b.run (calls ++ [c]) = ((b.run calls).1 ++ [((b.run calls).2.call c).1],
      ((b.run calls).2.call c).2) := by
  induction calls generalizing b with
  | nil => rfl
  | cons d calls ih => simp only [List.cons_append, run, ih]

theorem run_append (b : EventBus) (calls more : List Call) :
    (b.run (calls ++ more)).2 = ((b.run calls).2.run more).2 := by
  induction calls generalizing b with
  | nil => rfl
  | cons c calls ih => simp only [List.cons_append, run, ih]

theorem run_calls (b : EventBus) (calls : List Call) : (b.run calls).1.map (·.call) = calls := by
  induction calls generalizing b with
  | nil => rfl
  | cons c calls ih => simp only [run, List.map_cons, ih, call_call]

/-- The queue at the start with everything stored is everything taken with the queue at the end. -/
theorem run_balance (b : EventBus) (calls : List Call) :
    (b.run calls).1.filterMap Record.taken? ++ (b.run calls).2.waiting =
      b.waiting ++ (b.run calls).1.filterMap Record.stored? := by
  induction calls generalizing b with
  | nil => simp [run]
  | cons c calls ih =>
    have hcons : ∀ (f : Record → Option Event) (r : Record) (rs : List Record),
        (r :: rs).filterMap f = (f r).toList ++ rs.filterMap f := by
      intro f r rs
      cases hf : f r <;> simp [hf]
    simp only [run, hcons]
    rw [List.append_assoc, ih, ← List.append_assoc, call_balance, List.append_assoc]

/-- What no call changes, at every call and at the end. -/
theorem run_frame (hfits : b.waiting.length ≤ b.capacity) (calls : List Call) :
    (∀ r ∈ (b.run calls).1, r.Lawful ∧ r.found.subscriptions = b.subscriptions ∧
      r.found.freeNodes + r.found.waiting.length = b.capacity) ∧
    (b.run calls).2.subscriptions = b.subscriptions ∧
    (b.run calls).2.freeNodes + (b.run calls).2.waiting.length = b.capacity := by
  induction calls generalizing b with
  | nil => exact ⟨fun r hr => (by cases hr), rfl, freeNodes_add hfits⟩
  | cons c calls ih =>
    obtain ⟨hsubscriptions, hcapacity⟩ := call_frame b c
    have hrest := ih (call_fits hfits c)
    rw [hsubscriptions, hcapacity] at hrest
    refine ⟨fun r hr => ?_, hrest.2⟩
    simp only [run, List.mem_cons] at hr
    obtain rfl | hr := hr
    · rw [call_found]
      exact ⟨call_lawful b c, rfl, freeNodes_add hfits⟩
    · exact hrest.1 r hr

/-- The `k`-th event taken is the `k`-th stored, and was stored by an earlier call. -/
theorem run_matched (hempty : b.waiting = []) (calls : List Call) {k j : Nat} {e : Event}
    (h : (takes (b.run calls).1)[k]? = some (j, e)) :
    ∃ i < j, (stores (b.run calls).1)[k]? = some (i, e) := by
  induction calls using List.reverseRecOn with
  | nil => simp [run, takes, marked] at h
  | append_singleton calls c ih =>
    have hbalance := run_balance b calls
    rw [hempty, List.nil_append, ← marked_events, ← marked_events] at hbalance
    rw [run_concat] at h ⊢
    obtain h | ⟨rfl, rfl, htaken⟩ := getElem?_marked_concat h
    · obtain ⟨i, hi, hstore⟩ := ih h
      refine ⟨i, hi, ?_⟩
      rw [stores, marked_concat, List.getElem?_append_left (List.getElem?_eq_some_iff.mp hstore).1]
      exact hstore
    · -- what waits longest comes right after what was taken so far
      obtain ⟨rest, hrest⟩ := List.head?_eq_some_iff.mp (taken_waits htaken)
      have hevent : ((stores (b.run calls).1).map (·.2))[(takes (b.run calls).1).length]? =
          some e := by
        rw [← hbalance, List.getElem?_append_right (by simp), hrest]
        simp
      rw [List.getElem?_map, Option.map_eq_some_iff] at hevent
      obtain ⟨⟨i, d⟩, hstore, rfl⟩ := hevent
      refine ⟨i, lt_of_mem_marked (List.mem_of_getElem? hstore), ?_⟩
      rw [stores, marked_concat, List.getElem?_append_left (List.getElem?_eq_some_iff.mp hstore).1]
      exact hstore

theorem run_delivers (b : EventBus) (calls : List Call) :
    b.waiting.take (calls.count .dispatch) <+: (b.run calls).1.filterMap Record.taken? := by
  induction calls generalizing b with
  | nil => simp
  | cons c calls ih =>
    have hrest := ih (b.call c).2
    have hbalance := call_balance b c
    simp only [run, List.filterMap_cons]
    cases c with
    | publish e | interrupt e =>
      simp only [Record.taken?, call_call, Option.toList_none, List.nil_append] at hbalance ⊢
      rw [hbalance, List.take_append] at hrest
      exact (List.prefix_append _ _).trans hrest
    | dispatch =>
      simp only [Record.taken?, Record.stored?, call_call, call_found, Option.toList_none,
        List.append_nil] at hbalance ⊢
      rw [List.count_cons_self]
      cases hw : b.waiting with
      | nil => simp
      | cons e rest =>
        simp only [hw, List.head?_cons, Option.toList_some, List.singleton_append,
          List.cons.injEq, true_and] at hbalance ⊢
        rw [hbalance] at hrest
        simpa using hrest

/-- Any calls of a bus whose queue starts empty are made as asked, and the subscriptions stay.
Every call answers and delivers by the bus it finds: what a thread publishes is handed out at once
exactly when it is not stored, and a refused event is handed out to nobody. At every call and at
the end, the free nodes and the events waiting are the nodes of the queue. The events taken are
the events stored, one by one in the same order and each by a later call; the others wait, and
as many dispatches as events wait deliver them all, whatever else is called in between. -/
theorem accounted (hempty : b.waiting = []) (h : b.run calls = (rs, b')) :
    rs.map (·.call) = calls ∧ b'.subscriptions = b.subscriptions ∧
    (∀ r ∈ rs, r.Lawful ∧ r.found.subscriptions = b.subscriptions ∧
      r.found.freeNodes + r.found.waiting.length = b.capacity) ∧
    b'.freeNodes + b'.waiting.length = b.capacity ∧
    (stores rs).Pairwise (·.1 < ·.1) ∧ (takes rs).Pairwise (·.1 < ·.1) ∧
    (∀ {k j : Nat} {e : Event}, (takes rs)[k]? = some (j, e) →
      ∃ i < j, (stores rs)[k]? = some (i, e)) ∧
    (takes rs).map (·.2) ++ b'.waiting = (stores rs).map (·.2) ∧
    ∀ more rs' b'', b'.run more = (rs', b'') → b'.waiting.length ≤ more.count .dispatch →
      b'.waiting <+: (takes rs').map (·.2) := by
  have hcalls := run_calls b calls
  have hbalance := run_balance b calls
  have hframe := run_frame (b := b) (by simp [hempty]) calls
  have hmatched := @run_matched _ hempty calls
  rw [h] at hcalls hbalance hframe hmatched
  refine ⟨hcalls, hframe.2.1, hframe.1, hframe.2.2, marked_sorted _ _, marked_sorted _ _, hmatched,
    ?_, ?_⟩
  · rw [marked_events, marked_events, hbalance, hempty, List.nil_append]
  · intro more rs' b'' hmore hcount
    have hdelivers := run_delivers b' more
    rw [hmore, List.take_of_length_le hcount] at hdelivers
    rw [marked_events]
    exact hdelivers

def threeListeners : EventBus :=
  { queued 3 1 with
    subscriptions := [(.touchInput, 1), (.configurationChanged, 2), (.touchInput, 3)] }

/-- An event is stored, the next is handed out at once to the one listener of its topic, an
interrupt's is refused, and the dispatch hands the first one out to the two listeners of its. -/
theorem accounted_threeListeners : ∃ rs b',
    threeListeners.run [.publish .touchInput, .publish .configurationChanged,
      .interrupt .touchInput, .dispatch] = (rs, b') ∧
    rs.map (·.heard) = [[], [⟨2, .configurationChanged⟩], [],
      [⟨1, .touchInput⟩, ⟨3, .touchInput⟩]] ∧
    (∀ r ∈ rs, r.Lawful) ∧
    stores rs = [(0, .touchInput)] ∧ takes rs = [(3, .touchInput)] ∧
    b'.freeNodes + b'.waiting.length = 1 := by
  have hrun := Prod.eta (threeListeners.run [.publish .touchInput,
    .publish .configurationChanged, .interrupt .touchInput, .dispatch])
  obtain ⟨-, -, hlawful, hnodes, -⟩ := accounted rfl hrun.symm
  exact ⟨_, _, hrun.symm, rfl, fun r hr => (hlawful r hr).1, rfl, rfl, hnodes⟩

end EventBus

/-! ## Calls on the shared state -/

namespace Shared

variable {N : Nat} {ε : Type} {clock : Timebase (Shared N ε)}
  {listen : Delivered → Run (Shared N ε) Unit} {w w' : Shared N ε} {b : EventBus}

/-- Publishing from a thread is a call of the bus, and then its deliveries. -/
theorem publish_call (hb : w.bus = some b) (e : Event) :
    publish listen e w =
      deliver listen (b.call (.publish e)).1.heard
        { w with bus := some (b.call (.publish e)).2 } := by
  unfold publish
  rw [Run.get_bind, hb]
  rfl

theorem publishFromInterrupt_call (hb : w.bus = some b) (e : Event) :
    ∃ outcome, (b.call (.interrupt e)).1.answer = .outcome outcome ∧
      publishFromInterrupt listen e w =
        (do deliver listen (b.call (.interrupt e)).1.heard; return outcome)
          { w with bus := some (b.call (.interrupt e)).2 } := by
  refine ⟨_, rfl, ?_⟩
  unfold publishFromInterrupt
  rw [Run.get_bind, hb]
  rfl

/-- The bus was called, and nothing else happened to it. -/
def Called (w w' : Shared N ε) : Prop := ∃ calls, w'.bus = w.bus.map fun b => (b.run calls).2

instance : IsPreorder (Shared N ε) Called where
  refl w := ⟨[], by cases hb : w.bus <;> simp [EventBus.run]⟩
  trans _ _ _ := by
    rintro ⟨calls, h⟩ ⟨more, h'⟩
    exact ⟨calls ++ more, by simp [h', h, Function.comp_def, EventBus.run_append]⟩

theorem Called.bus (h : Called w w') (hb : w.bus = some b) : ∃ b', w'.bus = some b' := by
  obtain ⟨calls, h⟩ := h
  exact ⟨_, by rw [h, hb]; rfl⟩

theorem takeEvent_none (hb : w.bus = none) : takeEvent w = .ok (none, w) := by
  unfold takeEvent
  rw [Run.get_bind, hb]
  rfl

theorem takeEvent_eq (hb : w.bus = some b) :
    takeEvent w = .ok (b.takeEvent.1, { w with bus := some b.takeEvent.2 }) := by
  unfold takeEvent
  rw [Run.get_bind, hb]
  rfl

theorem takeEvent_missed (hb : w.bus = some b) (h : takeEvent w = .ok (none, w')) :
    b.takeEvent.1 = none ∧ w' = w := by
  rw [takeEvent_eq hb, Except.ok.injEq, Prod.mk.injEq] at h
  obtain ⟨hnone, rfl⟩ := h
  refine ⟨hnone, ?_⟩
  rw [EventBus.takeEvent_none hnone, ← hb]

/-- A dispatch is a call of the bus, after whatever others called while it waited. If it finds
nothing, others may go on until it gives up; if it finds an event, the deliveries follow. -/
theorem dispatch_call (hnow : Moves Called clock.now) (hrelax : Moves Called clock.relax)
    (hb : w.bus = some b) {timeout : Duration} {any : Bool}
    (h : dispatch clock listen timeout w = .ok (any, w')) :
    ∃ v b', Called w v ∧ v.bus = some b' ∧
      (b'.call .dispatch).1.answer = .delivered any ∧
      let left := { v with bus := some (b'.call .dispatch).2 }
      if any then deliver listen (b'.call .dispatch).1.heard left = .ok ((), w')
      else Called left w' := by
  unfold dispatch at h
  rw [Run.get_bind, hb] at h
  obtain ⟨slots, subscriptions, queue⟩ := b
  cases queue with
  | none =>
    obtain ⟨rfl, rfl⟩ := Run.pure_inv h
    exact ⟨w', _, refl_of Called w', hb, rfl, [], by rw [hb]; rfl⟩
  | some q =>
    obtain ⟨found, w₁, hwait, h⟩ := Run.bind_inv h
    unfold waitFor at hwait
    obtain ⟨start, v, hstart, hpoll⟩ := Run.bind_inv hwait
    have hmiss : ∀ ⦃u u' : Shared N ε⦄, takeEvent u = .ok (none, u') → Called u u' := by
      intro u u' hnone
      cases hbus : u.bus with
      | none =>
        rw [takeEvent_none hbus] at hnone
        cases hnone
        exact refl_of Called u
      | some b =>
        obtain ⟨-, rfl⟩ := takeEvent_missed hbus hnone
        exact refl_of Called u'
    have hcalled : Called w v := hnow hstart
    obtain ⟨rfl, hgone⟩ | ⟨e, u, rfl, hbefore, htaken⟩ := pollFor_cases hnow hrelax hmiss hpoll
    · obtain ⟨rfl, rfl⟩ := Run.pure_inv h
      obtain ⟨b', hb'⟩ := hcalled.bus hb
      obtain ⟨u, hfirst⟩ := pollFor_missed hpoll
      obtain ⟨hnone, -⟩ := takeEvent_missed hb' hfirst
      refine ⟨v, b', hcalled, hb', ?_⟩
      rw [EventBus.call_dispatch, hnone, EventBus.takeEvent_none hnone, ← hb']
      exact ⟨rfl, hgone⟩
    · have hcalled' : Called w u := trans_of Called hcalled hbefore
      obtain ⟨b', hb'⟩ := hcalled'.bus hb
      rw [takeEvent_eq hb', Except.ok.injEq, Prod.mk.injEq] at htaken
      obtain ⟨hsome, rfl⟩ := htaken
      dsimp only at h
      rw [Run.get_bind] at h
      obtain ⟨d, w₂, hdeliver, h⟩ := Run.bind_inv h
      obtain ⟨rfl, rfl⟩ := Run.pure_inv h
      refine ⟨u, b', hcalled', hb', ?_⟩
      rw [EventBus.call_dispatch, hsome]
      exact ⟨rfl, hdeliver⟩

end Shared

end NetworkAnalyzer
