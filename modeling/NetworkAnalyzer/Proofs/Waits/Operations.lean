import NetworkAnalyzer.Proofs.Bus.Delivery
import NetworkAnalyzer.Proofs.Readout.OnePass
import NetworkAnalyzer.Proofs.Waits.Course

/-!
# Operations that wait

Six operations of the shared state wait: for a snapshot, for a reader to give the buffers up, for
the first pass, for a capture, for an event and for a pause. Each of them polls by a test that
changes nothing, or by an attempt that changes something only when it succeeds (`Quiet`). So
whatever happened to the state by the time such a wait gives up, others did it, in the moments in
which the clock was read and the core was given up (`Timebase.Meanwhile`).

| operation   | waits until                  | takes                      | after its timeout      |
|-------------|------------------------------|----------------------------|------------------------|
| a snapshot  | the buffers are idle         | the role                   | nothing was changed    |
| a release   | no reader copies             | nothing                    | nothing was changed    |
| a start     | a pass was completed         | nothing                    | nothing was changed    |
| a capture   | its last buffer came         | nothing                    | the capture is dropped |
| an event    | one waits                    | the event, and delivers it | nothing was changed    |
| a pause     | the instrument is at rest    | nothing                    | the stop stays posted  |

Two refusals come without a wait: a pause that finds the mailbox full, and a dispatch on a bus that
has no queue.

* `Settles`: what an operation that waits comes to. It takes what it found, in the poll that found
  it, or the timeout has passed and it fails.
* `Wait.settles`: this of any operation built on a quiet poll.
* `acquire_settles`, `dispatch_settles`, `requestPause_settles`: this of the operations that take
  or post something.
* `waits_bounded`: the bounded wait itself, and the six operations. All of them return on a steady
  clock. None reports failure before its timeout has passed, but for a pause that finds the
  mailbox full and a dispatch on a bus without a queue; and one that times out has changed
  nothing, but for the capture that it abandons and the stop that it posted.
-/

namespace NetworkAnalyzer

variable {σ α β : Type}

/-- What others do while the clock is read once, or while the core is given up once. -/
inductive Timebase.Step (clock : Timebase σ) : σ → σ → Prop where
  | read {t : Instant} {v v' : σ} (h : clock.now v = .ok (t, v')) : Step clock v v'
  | rest {v v' : σ} (h : clock.relax v = .ok ((), v')) : Step clock v v'

/-- What others do while a wait reads the clock and gives the core up, and nothing else. -/
def Timebase.Meanwhile (clock : Timebase σ) : σ → σ → Prop := Relation.ReflTransGen clock.Step

/-- A poll that returns, and that changes nothing in vain. -/
def Quiet (poll : Run σ (Option β)) : Prop :=
  ∀ v, poll v = .ok (none, v) ∨ ∃ b v', poll v = .ok (some b, v')

theorem Quiet.missed {poll : Run σ (Option β)} (hquiet : Quiet poll) {v v' : σ}
    (hpoll : poll v = .ok (none, v')) : v' = v := by
  obtain hsame | ⟨b, v'', hfound⟩ := hquiet v
  · rw [hpoll] at hsame
    cases hsame
    rfl
  · rw [hpoll] at hfound
    cases hfound

theorem observed_test (p : σ → Bool) (v : σ) :
    observed (do return p (← get)) v = .ok (if p v then some () else none, v) :=
  observed_of_ready rfl

theorem quiet_test (p : σ → Bool) : Quiet (observed (do return p (← get))) := by
  intro v
  rw [observed_test]
  cases p v
  · exact Or.inl rfl
  · exact Or.inr ⟨(), v, rfl⟩

theorem waitUntil_bind {clock : Timebase σ} {timeout : Duration} {ready : Run σ Bool}
    (f : Bool → Run σ α) :
    (waitUntil clock timeout ready >>= f) =
      waitFor clock timeout (observed ready) >>= fun found => f found.isSome := by
  unfold waitUntil observed
  rw [bind_assoc]
  simp only [pure_bind]

namespace Wait

variable {x : Wait σ β} {age : σ → Nat} {start : Instant} {stage : Stage} {n : Nat} {v v' : σ}

/-- What an operation that waits comes to. It takes what it found in the poll that found it, and
up to then only others had changed anything; or the timeout has passed, and it leaves the state
as the others left it, but for what `leaves` does. -/
inductive Settles (x : Wait σ β) (takes : σ → α × σ → Prop) (leaves : σ → α × σ) :
    Except Fault (α × σ) → Prop where
  | took {start : Instant} {n : Nat} {v : σ} {r : α × σ} (h : x.Course start .poll n v)
      (hpolls : n + 1 ≤ x.timeout.toNat + 1) (hothers : x.clock.Meanwhile x.entry v)
      (htakes : takes v r) : Settles x takes leaves (.ok r)
  | expired {polls : Nat} {v : σ} (h : x.Ended polls none v)
      (hpolls : polls ≤ x.timeout.toNat + 1) (hothers : x.clock.Meanwhile x.entry v) :
      Settles x takes leaves (.ok (leaves v))

theorem answers_of_quiet (hquiet : Quiet x.poll) : x.Answers age := by
  intro start n v h
  obtain hmiss | hfound := hquiet v
  · exact Or.inl ⟨v, hmiss, Nat.le_refl _⟩
  · exact Or.inr hfound

/-- Along the course of a wait with a quiet poll only others change anything. -/
theorem Course.meanwhile (hquiet : Quiet x.poll) (h : x.Course start stage n v) :
    x.clock.Meanwhile x.entry v := by
  induction h with
  | entered hnow => exact .single (.read hnow)
  | missed h hpoll ih =>
    rw [hquiet.missed hpoll]
    exact ih
  | early h hnow ht ih => exact ih.tail (.read hnow)
  | relaxed h hrelax ih => exact ih.tail (.rest hrelax)

/-- An operation that waits with a quiet poll, and then answers by `f`. -/
theorem settles (hsteady : x.Steady age) (hquiet : Quiet x.poll) {f : Option β → Run σ α}
    {takes : σ → α × σ → Prop} {leaves : σ → α × σ}
    (htakes : ∀ {v b v'}, x.poll v = .ok (some b, v') → ∃ r, f (some b) v' = .ok r ∧ takes v r)
    (hleaves : ∀ v, f none v = .ok (leaves v)) :
    x.Settles takes leaves ((waitFor x.clock x.timeout x.poll >>= f) x.entry) := by
  have hanswers : x.Answers age := answers_of_quiet hquiet
  obtain ⟨polls, r, w', hwait, hended⟩ := ends hsteady hanswers
  have hpolls := (hended.polls hsteady hanswers).2
  rw [Run.bind_ok f hwait]
  cases hended with
  | found h hpoll =>
    obtain ⟨r, hf, ht⟩ := htakes hpoll
    rw [hf]
    exact .took h hpolls (h.meanwhile hquiet) ht
  | expired h hnow ht =>
    rw [hleaves]
    exact .expired (.expired h hnow ht) hpolls ((h.meanwhile hquiet).tail (.read hnow))

def ofTest (clock : Timebase σ) (timeout : Duration) (p : σ → Bool) (w : σ) : Wait σ Unit :=
  ⟨clock, timeout, observed (do return p (← get)), w⟩

theorem settles_test {clock : Timebase σ} {timeout : Duration} {p : σ → Bool} {w : σ}
    (hsteady : (ofTest clock timeout p w).Steady age) {f : Bool → Run σ α}
    {answers leaves : σ → α × σ} (htrue : ∀ v, f true v = .ok (answers v))
    (hfalse : ∀ v, f false v = .ok (leaves v)) :
    (ofTest clock timeout p w).Settles (fun v r => p v = true ∧ r = answers v) leaves
      ((waitUntil clock timeout (do return p (← get)) >>= f) w) := by
  rw [waitUntil_bind]
  refine settles hsteady (quiet_test p) (fun {v b v'} hpoll => ?_) hfalse
  have hpoll : observed (do return p (← get)) v = .ok (some b, v') := hpoll
  rw [observed_test] at hpoll
  cases hp : p v with
  | true =>
    rw [hp] at hpoll
    cases hpoll
    exact ⟨_, htrue v, rfl, rfl⟩
  | false =>
    rw [hp] at hpoll
    cases hpoll

end Wait

/-! ## The operations of the shared state -/

namespace Shared

open Parameters

variable {N : Nat} {ε : Type} {clock : Timebase (Shared N ε)} {timeout : Duration}
  {w : Shared N ε} {age : Shared N ε → Nat}

/-! ### Their waits -/

section

variable (clock : Timebase (Shared N ε)) (timeout : Duration) (w : Shared N ε)

def claiming : Wait (Shared N ε) Unit := ⟨clock, timeout, observed claimCopy, w⟩

def releasing : Wait (Shared N ε) Unit :=
  .ofTest clock copyReleaseTimeout (fun v => !v.buffers.isCopying) w

def starting : Wait (Shared N ε) Unit :=
  .ofTest clock generationTimeout (fun v => v.buffers.generation != 0) w

def capturing : Wait (Shared N ε) Unit := .ofTest clock timeout (fun v => v.capture.isComplete) w

def collecting : Wait (Shared N ε) Event := ⟨clock, timeout, takeEvent, w⟩

/-- The state with a stop posted. -/
def stopPosted : Shared N ε := { w with control.mailbox := w.control.mailbox ++ [.stop] }

def stopping : Wait (Shared N ε) Unit := .ofTest clock pauseTimeout isPaused w.stopPosted

end

/-- A snapshot is taken: the buffers were idle, and are claimed for copying. -/
def Claims (c : Channel) (v : Shared N ε) (r : Except Failure Snapshot × Shared N ε) : Prop :=
  v.buffers.role = .idle ∧ r = (.ok (v.buffers.snapshot c), { v with buffers.role := .copying })

/-- The event that waited longest is taken, and handed to its listeners. -/
def Delivers (listen : Delivered → Run (Shared N ε) Unit) (v : Shared N ε)
    (r : Bool × Shared N ε) : Prop :=
  ∃ b e, v.bus = some b ∧ b.waiting.head? = some e ∧ r.1 = true ∧
    deliver listen (b.deliveries e) { v with bus := some b.dropFirst } = .ok ((), r.2)

/-- A failure that changes nothing. -/
def fails {α : Type} (e : Failure) (v : Shared N ε) : Except Failure α × Shared N ε := (.error e, v)

/-! ### What they come to -/

theorem quiet_claimCopy : Quiet (observed (claimCopy : Run (Shared N ε) Bool)) := by
  intro v
  rw [observed_of_ready (claimCopy_eq v)]
  unfold Buffers.claim
  split
  · exact Or.inr ⟨(), _, rfl⟩
  · exact Or.inl rfl

theorem takeEvent_some {b : EventBus} (hbus : w.bus = some b) :
    takeEvent w = .ok (b.waiting.head?, { w with bus := some b.dropFirst }) := by
  rw [takeEvent_eq hbus, EventBus.takeEvent_eq]

theorem quiet_takeEvent : Quiet (takeEvent : Run (Shared N ε) (Option Event)) := by
  intro v
  cases hbus : v.bus with
  | none => exact Or.inl (takeEvent_none hbus)
  | some b =>
    have hrun := takeEvent_some hbus
    cases hhead : b.waiting.head? with
    | some e => exact Or.inr ⟨e, _, by rw [hrun, hhead]⟩
    | none =>
      rw [hhead] at hrun
      obtain ⟨-, hsame⟩ := takeEvent_missed hbus hrun
      exact Or.inl (by rw [hrun, hsame])

theorem deliver_returns {listen : Delivered → Run (Shared N ε) Unit}
    (hlisten : ∀ d v, ∃ v', listen d v = .ok ((), v')) (ds : List Delivered) :
    ∀ v, ∃ v', deliver listen ds v = .ok ((), v') := by
  induction ds with
  | nil => exact fun v => ⟨v, rfl⟩
  | cons d ds ih =>
    intro v
    obtain ⟨v₁, hd⟩ := hlisten d v
    obtain ⟨v₂, hds⟩ := ih v₁
    exact ⟨v₂, by rw [deliver, Run.bind_ok _ hd, hds]⟩

/-- The buffers are claimed by the one poll that finds them idle. -/
theorem acquire_settles (hsteady : (claiming clock timeout w).Steady age) (c : Channel) :
    (claiming clock timeout w).Settles (Claims c) (fails .resourceBusy)
      (acquire clock c timeout w) := by
  unfold acquire
  rw [waitUntil_bind]
  refine Wait.settles hsteady quiet_claimCopy (fun {v b v'} hpoll => ?_) fun _ => rfl
  obtain ⟨he, -⟩ | ⟨-, hidle, rfl⟩ := claimCopy_inv (observed_inv hpoll)
  · cases he
  · exact ⟨_, rfl, hidle, rfl⟩

/-- An event is taken by the one poll that finds one, and delivered after that. -/
theorem dispatch_settles (hsteady : (collecting clock timeout w).Steady age)
    {listen : Delivered → Run (Shared N ε) Unit}
    (hlisten : ∀ d v, ∃ v', listen d v = .ok ((), v')) (hqueue : w.bus.bind (·.queue) ≠ none) :
    (collecting clock timeout w).Settles (Delivers listen) (fun v => (false, v))
      (dispatch clock listen timeout w) := by
  unfold dispatch
  rw [Run.get_bind]
  obtain hbus | ⟨⟨slots, subscriptions, _ | q⟩, hbus⟩ := Option.eq_none_or_eq_some w.bus
  · simp [hbus] at hqueue
  · simp [hbus] at hqueue
  · rw [hbus]
    refine Wait.settles hsteady quiet_takeEvent (fun {v e v'} hpoll => ?_) fun _ => rfl
    have hpoll : takeEvent v = .ok (some e, v') := hpoll
    obtain hnone | ⟨b, hb⟩ := Option.eq_none_or_eq_some v.bus
    · rw [takeEvent_none hnone] at hpoll
      cases hpoll
    · rw [takeEvent_some hb, Except.ok.injEq, Prod.mk.injEq] at hpoll
      obtain ⟨hhead, rfl⟩ := hpoll
      obtain ⟨v', hdeliver⟩ :=
        deliver_returns hlisten (b.deliveries e) { v with bus := some b.dropFirst }
      refine ⟨(true, v'), ?_, b, e, hb, hhead, rfl, hdeliver⟩
      dsimp only
      rw [Run.get_bind]
      dsimp only
      rw [EventBus.dropFirst_deliveries, Run.bind_ok _ hdeliver]
      rfl

theorem dispatch_unqueued (hqueue : w.bus.bind (·.queue) = none)
    (listen : Delivered → Run (Shared N ε) Unit) :
    dispatch clock listen timeout w = .ok (false, w) := by
  unfold dispatch
  rw [Run.get_bind]
  obtain hbus | ⟨⟨slots, subscriptions, _ | q⟩, hbus⟩ := Option.eq_none_or_eq_some w.bus
  · rw [hbus]
    rfl
  · rw [hbus]
    rfl
  · simp [hbus] at hqueue

theorem requestPause_settles (hroom : w.control.mailbox.length < mailboxDepth)
    (hsteady : (stopping clock w).Steady age) :
    (stopping clock w).Settles (fun v r => v.isPaused = true ∧ r = (.ok (), v))
      (fails .resourceBusy) (requestPause clock .other w) := by
  have hpost : w.control.post .stop = (.ok (), w.stopPosted.control) := if_pos hroom
  have hset : setControl w.stopPosted.control w = .ok ((), w.stopPosted) := rfl
  simp only [requestPause]
  rw [Run.get_bind, hpost, Run.bind_ok _ hset]
  exact Wait.settles_test hsteady (fun _ => rfl) fun _ => rfl

theorem requestPause_full (hfull : mailboxDepth ≤ w.control.mailbox.length) :
    requestPause clock .other w = .ok (.error .queueExhausted, w) := by
  have hpost : w.control.post .stop = (.error .queueExhausted, w.control) :=
    if_neg (Nat.not_lt.mpr hfull)
  simp only [requestPause]
  rw [Run.get_bind, hpost]
  rfl

/-- What the operations that wait come to when they are called on `w` and wait on a steady
clock. -/
structure WaitsEnd (clock : Timebase (Shared N ε)) (age : Shared N ε → Nat) (w : Shared N ε) :
    Prop where
  snapshot (timeout : Duration) (c : Channel) (h : (claiming clock timeout w).Steady age) :
    (claiming clock timeout w).Settles (Claims c) (fails .resourceBusy)
      (acquire clock c timeout w)
  copyRelease (h : (releasing clock w).Steady age) :
    (releasing clock w).Settles (fun v r => (!v.buffers.isCopying) = true ∧ r = (.ok (), v))
      (fails .resourceBusy) (awaitCopyRelease clock w)
  generation (h : (starting clock w).Steady age) :
    (starting clock w).Settles
      (fun v r => (v.buffers.generation != 0) = true ∧ r = (.ok v.buffers.generation, v))
      (fails .resourceBusy) (awaitGeneration clock w)
  capture (timeout : Duration) (h : (capturing clock timeout w).Steady age) :
    (capturing clock timeout w).Settles
      (fun v r => v.capture.isComplete = true ∧ r = (.ok (), v))
      (fun v => (.error .hardwareTimeout, { v with capture.remaining := 0 }))
      (awaitCapture clock timeout w)
  event (timeout : Duration) (listen : Delivered → Run (Shared N ε) Unit)
    (hlisten : ∀ d v, ∃ v', listen d v = .ok ((), v')) (hqueue : w.bus.bind (·.queue) ≠ none)
    (h : (collecting clock timeout w).Steady age) :
    (collecting clock timeout w).Settles (Delivers listen) (fun v => (false, v))
      (dispatch clock listen timeout w)
  unqueued (timeout : Duration) (listen : Delivered → Run (Shared N ε) Unit)
    (hqueue : w.bus.bind (·.queue) = none) : dispatch clock listen timeout w = .ok (false, w)
  /-- The stop is posted before the wait begins, and left to the others after that. -/
  pause (hroom : w.control.mailbox.length < mailboxDepth) (h : (stopping clock w).Steady age) :
    (stopping clock w).Settles (fun v r => v.isPaused = true ∧ r = (.ok (), v))
      (fails .resourceBusy) (requestPause clock .other w)
  mailboxFull (hfull : mailboxDepth ≤ w.control.mailbox.length) :
    requestPause clock .other w = .ok (.error .queueExhausted, w)
  ownPause :
    requestPause clock .sweepTask w = .ok (.ok (), { w with control := w.control.apply .stop })

theorem waitsEnd (clock : Timebase (Shared N ε)) (age : Shared N ε → Nat) (w : Shared N ε) :
    WaitsEnd clock age w where
  snapshot _ c h := acquire_settles h c
  copyRelease h := Wait.settles_test h (fun _ => rfl) fun _ => rfl
  generation h := Wait.settles_test h (fun _ => rfl) fun _ => rfl
  capture _ h := Wait.settles_test h (fun _ => rfl) fun _ => rfl
  event _ _ hlisten hqueue h := dispatch_settles h hlisten hqueue
  unqueued _ listen hqueue := dispatch_unqueued hqueue listen
  pause hroom h := requestPause_settles hroom h
  mailboxFull hfull := requestPause_full hfull
  ownPause := rfl

/-! ### A clock that counts rests -/

/-- A clock that shows how often the core was given up, on a board where nobody else runs. -/
def counting : Timebase (Shared N Nat) where
  now := do return UInt64.ofNat (← get).environment
  relax := modify fun w => { w with environment := w.environment + 1 }

/-- It is steady for every wait whose timeout it can tell. -/
theorem counting_steady {x : Wait (Shared N Nat) β} (hclock : x.clock = counting)
    (hquiet : Quiet x.poll) (hfits : x.timeout.toNat < 2 ^ 63) :
    x.Steady fun v => v.environment - x.entry.environment := by
  -- In round `n` the clock shows `n` more than at the entry.
  have hcourse : ∀ {start stage n v}, x.Course start stage n v →
      start = UInt64.ofNat x.entry.environment ∧ v.environment = x.entry.environment + n ∧
        n ≤ x.timeout.toNat ∧ (stage = .relax → n < x.timeout.toNat) := by
    intro start stage n v h
    induction h with
    | entered hnow =>
      rw [hclock] at hnow
      cases hnow
      exact ⟨rfl, rfl, Nat.zero_le _, nofun⟩
    | missed h hpoll ih =>
      rw [hquiet.missed hpoll]
      exact ⟨ih.1, ih.2.1, ih.2.2.1, nofun⟩
    | early h hnow ht ih =>
      rw [hclock] at hnow
      cases hnow
      obtain ⟨rfl, hcount, hle, -⟩ := ih
      refine ⟨rfl, hcount, hle, fun _ => ?_⟩
      rw [hcount, UInt64.lt_iff_toNat_lt, Wait.toNat_ofNat_sub (by omega) (by omega)] at ht
      omega
    | relaxed h hrelax ih =>
      rw [hclock] at hrelax
      cases hrelax
      obtain ⟨rfl, hcount, -, hlt⟩ := ih
      exact ⟨rfl, by rw [← Nat.add_assoc, ← hcount], hlt rfl, nofun⟩
  refine Wait.Steady.of_time Shared.environment ?_ ?_ ?_ ?_
  · exact fun v => ⟨v, by rw [hclock]; rfl, Nat.le_refl _⟩
  · exact fun v => ⟨_, by rw [hclock]; rfl, Nat.lt_succ_self _⟩
  · intro v v' hpoll
    obtain rfl := hquiet.missed hpoll
    exact Nat.le_refl _
  · intro start n v h
    obtain ⟨-, hcount, hle, -⟩ := hcourse h
    omega

end Shared

/-- A wait for a condition, on a clock that is steady along it, polls at least once, and at most
once more than its timeout has ticks. It returns whether the condition held in the last poll,
and that is the first poll that it held in. If it did not hold in any, the clock has shown that
the timeout has passed. So every operation of the shared state that waits comes to an end, and
one that times out has changed nothing, but for the counter of a capture. -/
theorem waits_bounded :
    (∀ {σ : Type} {clock : Timebase σ} {timeout : Duration} {ready : Run σ Bool} {w : σ}
        {age : σ → Nat},
      let x : Wait σ Unit := ⟨clock, timeout, observed ready, w⟩
      x.Steady age → x.Answers age →
        ∃ polls holds w', waitUntil clock timeout ready w = .ok (holds, w') ∧
          1 ≤ polls ∧ polls ≤ timeout.toNat + 1 ∧
          x.Ended polls (if holds then some () else none) w' ∧
          (∀ {start n v v'}, x.Course start .poll n v → ready v = .ok (true, v') →
            polls = n + 1 ∧ holds = true ∧ w' = v') ∧
          ∀ tally : σ → Nat, (∀ {v r v'}, ready v = .ok (r, v') → tally v' = tally v + 1) →
            Moves (Keeps tally) clock.now → Moves (Keeps tally) clock.relax →
              tally w' = tally w + polls) ∧
    ∀ {N : Nat} {ε : Type} (clock : Timebase (Shared N ε)) (age : Shared N ε → Nat)
      (w : Shared N ε), Shared.WaitsEnd clock age w := by
  refine ⟨fun {σ clock timeout ready w age} hsteady hanswers => ?_, Shared.waitsEnd⟩
  obtain ⟨polls, r, w', hwait, hended⟩ := Wait.ends hsteady hanswers
  obtain ⟨hone, hmost⟩ := hended.polls hsteady hanswers
  have hr : r = if r.isSome then some () else none := by cases r <;> rfl
  refine ⟨polls, r.isSome, w', ?_, hone, hmost, hr ▸ hended, fun hcourse hready => ?_,
    fun tally hpoll hnow hrelax => hended.tally (fun h => hpoll (observed_inv h)) hnow hrelax⟩
  · unfold waitUntil
    exact Run.bind_ok _ hwait
  · obtain ⟨hpolls, rfl, hw⟩ := hended.of_found hcourse (observed_of_ready hready)
    exact ⟨hpolls, rfl, hw⟩

/-- On a board where nobody else runs and the clock counts, a wait for a condition that comes to
hold, and every operation that waits, come to an end. -/
theorem waits_bounded_counting :
    let clock : Timebase (Shared 1 Nat) := Shared.counting
    let w : Shared 1 Nat := { bus := some (.queued 1 1), environment := 0 }
    let full : Shared 1 Nat :=
      { control := ⟨Flags.none, List.replicate 4 .single⟩, environment := 0 }
    (∃ polls holds w', waitUntil clock 5 (do return (← get).environment == 2) w =
        .ok (holds, w') ∧ 1 ≤ polls ∧ polls ≤ 5 + 1) ∧
      (Shared.claiming clock 5 w).Settles (Shared.Claims .s11) (Shared.fails .resourceBusy)
        (Shared.acquire clock .s11 5 w) ∧
      (Shared.releasing clock w).Settles
        (fun v r => (!v.buffers.isCopying) = true ∧ r = (.ok (), v))
        (Shared.fails .resourceBusy) (Shared.awaitCopyRelease clock w) ∧
      (Shared.starting clock w).Settles
        (fun v r => (v.buffers.generation != 0) = true ∧ r = (.ok v.buffers.generation, v))
        (Shared.fails .resourceBusy) (Shared.awaitGeneration clock w) ∧
      (Shared.capturing clock 5 w).Settles
        (fun v r => v.capture.isComplete = true ∧ r = (.ok (), v))
        (fun v => (.error .hardwareTimeout, { v with capture.remaining := 0 }))
        (Shared.awaitCapture clock 5 w) ∧
      (Shared.collecting clock 5 w).Settles (Shared.Delivers fun _ => pure ())
        (fun v => (false, v)) (Shared.dispatch clock (fun _ => pure ()) 5 w) ∧
      Shared.dispatch clock (fun _ => pure ()) 5 full = .ok (false, full) ∧
      (Shared.stopping clock w).Settles (fun v r => v.isPaused = true ∧ r = (.ok (), v))
        (Shared.fails .resourceBusy) (Shared.requestPause clock .other w) ∧
      Shared.requestPause clock .other full = .ok (.error .queueExhausted, full) := by
  intro clock w full
  have hsteady {β : Type} (x : Wait (Shared 1 Nat) β) (hclock : x.clock = clock)
      (hentry : x.entry.environment = 0) (hquiet : Quiet x.poll)
      (hfits : x.timeout.toNat < 2 ^ 63) : x.Steady Shared.environment := by
    have h := Shared.counting_steady hclock hquiet hfits
    rw [hentry] at h
    exact h
  have hends := waits_bounded.2 clock Shared.environment w
  have hfull := waits_bounded.2 clock Shared.environment full
  refine ⟨?_, hends.snapshot 5 .s11 ?_, hends.copyRelease ?_, hends.generation ?_,
    hends.capture 5 ?_, hends.event 5 _ (fun _ v => ⟨v, rfl⟩) nofun ?_,
    hfull.unqueued 5 _ rfl, hends.pause (by decide) ?_, hfull.mailboxFull (by decide)⟩
  · have hquiet := quiet_test fun v : Shared 1 Nat => v.environment == 2
    obtain ⟨polls, holds, w', hrun, hone, hmost, -⟩ :=
      waits_bounded.1 (hsteady ⟨clock, 5, _, w⟩ rfl rfl hquiet (by decide))
        (Wait.answers_of_quiet hquiet)
    exact ⟨polls, holds, w', hrun, hone, hmost⟩
  · exact hsteady _ rfl rfl Shared.quiet_claimCopy (by decide)
  · exact hsteady _ rfl rfl (quiet_test _) (by decide)
  · exact hsteady _ rfl rfl (quiet_test _) (by decide)
  · exact hsteady _ rfl rfl (quiet_test _) (by decide)
  · exact hsteady _ rfl rfl Shared.quiet_takeEvent (by decide)
  · exact hsteady _ rfl rfl (quiet_test _) (by decide)

end NetworkAnalyzer
