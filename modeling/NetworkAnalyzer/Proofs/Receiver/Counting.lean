import Mathlib.Algebra.Group.Nat.Defs
import NetworkAnalyzer.Proofs.Runs
import NetworkAnalyzer.Shared

/-!
# What a capture counts

An armed capture is fed by the buffer interrupt. `late deadline buffers` are the buffers
that are stamped at or after the deadline, and they alone matter: the first clears the
accumulator, the next `bandwidth + 1` are mixed in, and later ones find nothing outstanding.

**Arming.** A capture is armed by three stores, the counter last. Buffers may arrive between them;
they find nothing outstanding and are ignored, as long as the capture was idle (`ArmedFrom`).

**Waiting.** While the sweep waits, the interrupt feeds the capture and the other tasks do anything
that does not concern it (`Fed`). A wait ends once the capture is complete. Otherwise it times out
and the capture is given up, which keeps what was accumulated.

**Results.**
* `feed_mixing`, `feed_cleared`: what buffers leave after the first late one and from the
  start, by induction over the buffers.
* `heard`: what late buffers leave in the accumulator. From the first one on, it does not depend on
  what was there before (`heard_of_ne_nil`).
* `ArmedFrom.eq_arm`: buffers that arrive while an idle capture is being armed are ignored.
* `awaitCapture_fed`: a wait ends on buffers alone, or gives up after them.
* `armed_counts`: what a capture holds after any buffers, and after a wait that timed out. The
  deadline must not wrap, and the number of buffers must not saturate.
* `abandoned_holds_earlier`: a capture that is given up before its first late buffer still
  holds what an earlier one left.
-/

namespace NetworkAnalyzer

/-- Buffers in order of arrival, each with its stamp. -/
abbrev BufferStream := List (Instant × List Int16)

def Accumulator.mixAll (a : Accumulator) (buffers : BufferStream) : Accumulator :=
  buffers.foldl (fun a b => a.mix b.2) a

@[simp] theorem Accumulator.mixAll_nil (a : Accumulator) : a.mixAll [] = a := rfl

@[simp] theorem Accumulator.mixAll_cons (a : Accumulator) (b : Instant × List Int16)
    (buffers : BufferStream) : a.mixAll (b :: buffers) = (a.mix b.2).mixAll buffers := rfl

/-- The buffers that are not stamped before `deadline`. -/
def BufferStream.late (deadline : Nat) (buffers : BufferStream) : BufferStream :=
  buffers.filter fun b => deadline ≤ b.1.toNat

namespace BufferStream

variable {deadline : Nat} {b : Instant × List Int16}

@[simp] theorem late_nil : late deadline [] = [] := rfl

theorem late_cons (h : deadline ≤ b.1.toNat) (buffers : BufferStream) :
    late deadline (b :: buffers) = b :: late deadline buffers := by
  simp [late, h]

theorem late_cons_early (h : b.1.toNat < deadline) (buffers : BufferStream) :
    late deadline (b :: buffers) = late deadline buffers := by
  simp [late, h]

theorem le_of_mem_late {buffers : BufferStream} (h : b ∈ late deadline buffers) :
    deadline ≤ b.1.toNat := by
  simpa using (List.mem_filter.mp h).2

end BufferStream

namespace Capture

/-- The capture once the buffers have arrived. -/
def feed (c : Capture) (buffers : BufferStream) : Capture :=
  buffers.foldl (fun c b => c.onBuffer b.1 b.2) c

@[simp] theorem feed_nil (c : Capture) : c.feed [] = c := rfl

@[simp] theorem feed_cons (c : Capture) (b : Instant × List Int16) (buffers : BufferStream) :
    c.feed (b :: buffers) = (c.onBuffer b.1 b.2).feed buffers := rfl

theorem feed_append (c : Capture) (buffers more : BufferStream) :
    c.feed (buffers ++ more) = (c.feed buffers).feed more := List.foldl_append

/-! ## One buffer -/

variable {c : Capture} {now : Instant} {buffer : List Int16}

theorem isComplete_iff : c.isComplete = true ↔ c.remaining.toNat = 0 := by
  unfold isComplete
  rw [beq_iff_eq, ← UInt16.toNat_inj]
  rfl

theorem onBuffer_readyAt : (c.onBuffer now buffer).readyAt = c.readyAt := by
  unfold onBuffer
  split <;> rfl

theorem onBuffer_complete (h : c.isComplete = true) : c.onBuffer now buffer = c := by
  have hzero : c.remaining = 0 := by simpa [isComplete] using h
  simp [onBuffer, hzero]

theorem onBuffer_early (h : now.toNat < c.readyAt.toNat) : c.onBuffer now buffer = c := by
  have hlt : now < c.readyAt := UInt64.lt_iff_toNat_lt.mpr h
  simp [onBuffer, hlt]

theorem onBuffer_late (h : c.readyAt.toNat ≤ now.toNat) (hout : c.remaining.toNat ≠ 0) :
    c.onBuffer now buffer = { c with
      accumulator := if c.reload ≤ c.remaining then .zero else c.accumulator.mix buffer
      remaining := c.remaining - 1 } := by
  have hle : ¬now < c.readyAt := by
    rw [UInt64.lt_iff_toNat_lt]
    omega
  have hne : c.remaining ≠ 0 := fun he => hout (by rw [he]; rfl)
  simp [onBuffer, hle, hne]

theorem toNat_pred (h : c.remaining.toNat ≠ 0) :
    (c.remaining - 1).toNat = c.remaining.toNat - 1 := by
  have hle : (1 : UInt16) ≤ c.remaining := by
    rw [UInt16.le_iff_toNat_le]
    simp only [UInt16.toNat_one]
    omega
  rw [UInt16.toNat_sub_of_le _ _ hle, UInt16.toNat_one]

/-! ## Any number of buffers -/

theorem feed_complete (h : c.isComplete = true) (buffers : BufferStream) : c.feed buffers = c := by
  induction buffers with
  | nil => rfl
  | cons b buffers ih => rw [feed_cons, onBuffer_complete h, ih]

theorem feed_late (buffers : BufferStream) : ∀ c : Capture,
    c.feed buffers = c.feed (buffers.late c.readyAt.toNat) := by
  induction buffers with
  | nil => intro c; rfl
  | cons b buffers ih =>
    intro c
    rcases Nat.lt_or_ge b.1.toNat c.readyAt.toNat with hearly | hlate
    · rw [feed_cons, onBuffer_early hearly, BufferStream.late_cons_early hearly, ih]
    · rw [feed_cons, BufferStream.late_cons hlate, feed_cons, ih, onBuffer_readyAt]

/-- Past the first late buffer, late buffers are mixed in until the counter is zero. -/
theorem feed_mixing (late : BufferStream) : ∀ {c : Capture}, c.remaining < c.reload →
    (∀ b ∈ late, c.readyAt.toNat ≤ b.1.toNat) →
    (c.feed late).remaining.toNat = c.remaining.toNat - late.length ∧
      (c.feed late).accumulator = c.accumulator.mixAll (late.take c.remaining.toNat) := by
  -- On the buffers. The counter stays below the reload value, so none of them clears.
  induction late with
  | nil => intro c _ _; simp
  | cons b late ih =>
    intro c hlt hlate
    by_cases hout : c.remaining.toNat = 0
    · rw [feed_complete (isComplete_iff.mpr hout), hout]
      simp
    · obtain ⟨n, hn⟩ : ∃ n, c.remaining.toNat = n + 1 := ⟨c.remaining.toNat - 1, by omega⟩
      have hpred : (c.remaining - 1).toNat = n := by rw [toNat_pred hout, hn, Nat.add_sub_cancel]
      have hlt' : c.remaining - 1 < c.reload := by
        rw [UInt16.lt_iff_toNat_lt] at hlt ⊢
        omega
      have hnext := ih (c := { c with
        accumulator := c.accumulator.mix b.2, remaining := c.remaining - 1 }) hlt'
        fun b' hb' => hlate b' (List.mem_cons_of_mem b hb')
      rw [feed_cons, onBuffer_late (hlate b List.mem_cons_self) hout,
        if_neg (UInt16.not_le.mpr hlt), hn, List.take_succ_cons, Accumulator.mixAll_cons,
        List.length_cons, Nat.add_sub_add_right]
      simpa only [hpred] using hnext

/-- What late buffers leave in the accumulator of a capture that was armed for `count` of them:
the first clears it. -/
def heard (earlier : Accumulator) (count : Nat) : BufferStream → Accumulator
  | [] => earlier
  | _ :: rest => Accumulator.zero.mixAll (rest.take (count - 1))

theorem heard_of_ne_nil {late : BufferStream} (h : late ≠ []) (earlier earlier' : Accumulator)
    (count : Nat) : heard earlier count late = heard earlier' count late := by
  cases late with
  | nil => exact absurd rfl h
  | cons => rfl

/-- From the start, late buffers clear the accumulator and are then mixed in. -/
theorem feed_cleared (late : BufferStream) (hreload : c.reload = c.remaining)
    (hout : c.remaining.toNat ≠ 0) (hlate : ∀ b ∈ late, c.readyAt.toNat ≤ b.1.toNat) :
    (c.feed late).remaining.toNat = c.remaining.toNat - late.length ∧
      (c.feed late).accumulator = heard c.accumulator c.remaining.toNat late := by
  cases late with
  | nil => exact ⟨rfl, rfl⟩
  | cons b late =>
    have hpred := toNat_pred hout
    have hlt : c.remaining - 1 < c.reload := by
      rw [UInt16.lt_iff_toNat_lt, hreload]
      omega
    have hle : c.reload ≤ c.remaining := hreload ▸ UInt16.le_refl _
    have hnext := feed_mixing late (c := { c with
      accumulator := .zero, remaining := c.remaining - 1 }) hlt
      fun b' hb' => hlate b' (List.mem_cons_of_mem b hb')
    rw [feed_cons, onBuffer_late (hlate b List.mem_cons_self) hout, if_pos hle]
    refine ⟨?_, by rw [hnext.2, hpred, heard]⟩
    rw [hnext.1, hpred, List.length_cons]
    omega

/-! ## Arming -/

/-- `armed` is `c` armed by three stores, the counter last, with any buffers between them. -/
def ArmedFrom (c : Capture) (now : Instant) (delay : Duration) (bandwidth : UInt16)
    (armed : Capture) : Prop :=
  ∃ first second : BufferStream, armed =
    { ({ ({ c with readyAt := now + delay } : Capture).feed first with
          reload := bufferCount bandwidth } : Capture).feed second with
        remaining := bufferCount bandwidth }

/-- An idle capture ignores buffers while it is being armed. -/
theorem ArmedFrom.eq_arm {now : Instant} {delay : Duration} {bandwidth : UInt16} {armed : Capture}
    (h : c.ArmedFrom now delay bandwidth armed) (hidle : c.isComplete = true) :
    armed = c.arm now delay bandwidth := by
  obtain ⟨first, second, rfl⟩ := h
  rw [feed_complete (c := { c with readyAt := now + delay }) hidle,
    feed_complete (c := { c with readyAt := now + delay, reload := bufferCount bandwidth }) hidle]
  rfl

theorem toNat_bufferCount {bandwidth : UInt16} (h : bandwidth ≤ 65533) :
    (bufferCount bandwidth).toNat = bandwidth.toNat + 2 := by
  have hle : bandwidth.toNat ≤ 65533 := UInt16.le_iff_toNat_le.mp h
  rw [bufferCount, if_pos h, UInt16.toNat_add]
  change (bandwidth.toNat + 2) % 65536 = _
  omega

end Capture

/-! ## Waiting -/

namespace Shared

variable {N : Nat} {ε : Type} {clock : Timebase (Shared N ε)} {timeout : Duration}
  {w w' : Shared N ε}

/-- The capture was fed with buffers, whatever else changed. -/
def Fed (w w' : Shared N ε) : Prop := ∃ buffers, w'.capture = w.capture.feed buffers

instance : IsPreorder (Shared N ε) Fed where
  refl _ := ⟨[], rfl⟩
  trans _ _ _ := by
    rintro ⟨buffers, h⟩ ⟨more, h'⟩
    exact ⟨buffers ++ more, by rw [h', h, Capture.feed_append]⟩

/-- Where others only feed the capture, a wait succeeds once it is complete, and otherwise
gives it up as the buffers left it. -/
theorem awaitCapture_fed (hnow : Moves Fed clock.now) (hrelax : Moves Fed clock.relax)
    {r : Except Failure Unit} (h : awaitCapture clock timeout w = .ok (r, w')) :
    ∃ buffers,
      (r = .ok () ∧ w'.capture = w.capture.feed buffers ∧ w'.capture.isComplete = true) ∨
      (r = .error .hardwareTimeout ∧ w'.capture = (w.capture.feed buffers).abandon) := by
  unfold awaitCapture at h
  obtain ⟨seen, w₁, hwait, h₁⟩ := Run.bind_inv h
  have hmiss : ∀ ⦃s s'⦄, (do return (← get).capture.isComplete : Run (Shared N ε) Bool) s =
      .ok (false, s') → Fed s s' := by
    intro s s' hpoll
    obtain ⟨-, rfl⟩ := Run.pure_inv hpoll
    exact refl_of Fed s'
  obtain ⟨rfl, buffers, hfed⟩ | ⟨rfl, v, ⟨buffers, hfed⟩, hready⟩ :=
    waitUntil_cases hnow hrelax hmiss hwait
  · cases h₁
    refine ⟨buffers, Or.inr ⟨rfl, ?_⟩⟩
    rw [← hfed]
  · obtain ⟨rfl, rfl⟩ := Run.pure_inv h₁
    obtain ⟨hcomplete, rfl⟩ := Run.pure_inv hready
    exact ⟨buffers, Or.inl ⟨rfl, hfed, hcomplete.symm⟩⟩

/-- A clock that relaxes for a millisecond, while the next buffer of a queue arrives. -/
def queue : Timebase (Shared N (Instant × BufferStream)) where
  now := do return (← get).environment.1
  relax := modify fun w =>
    match w.environment with
    | (now, []) => { w with environment := (now + 1000, []) }
    | (now, b :: rest) =>
      { w with environment := (now + 1000, rest), capture := w.capture.onBuffer b.1 b.2 }

theorem queue_now_moves : Moves Fed (queue (N := N)).now := .bind .get fun _ => .pure _

theorem queue_relax_moves : Moves Fed (queue (N := N)).relax := by
  refine .modify fun w => ?_
  split
  · exact ⟨[], rfl⟩
  · exact ⟨[_], rfl⟩

end Shared

namespace Capture

variable {c armed : Capture} {now : Instant} {delay : Duration} {bandwidth : UInt16}

/-- What any buffers leave of an armed capture. -/
theorem feed_armed (hcode : bandwidth ≤ 65533) (hfits : now.toNat + delay.toNat < 2 ^ 64)
    (buffers : BufferStream) :
    (c.arm now delay bandwidth).feed buffers =
        (c.arm now delay bandwidth).feed (buffers.late (now.toNat + delay.toNat)) ∧
      ((c.arm now delay bandwidth).feed buffers).remaining.toNat =
        bandwidth.toNat + 2 - (buffers.late (now.toNat + delay.toNat)).length ∧
      ((c.arm now delay bandwidth).feed buffers).accumulator =
        heard c.accumulator (bandwidth.toNat + 2) (buffers.late (now.toNat + delay.toNat)) := by
  have hcount := toNat_bufferCount hcode
  have hready : (c.arm now delay bandwidth).readyAt.toNat = now.toNat + delay.toNat := by
    change (now + delay).toNat = _
    rw [UInt64.toNat_add, Nat.mod_eq_of_lt hfits]
  have hremaining : (c.arm now delay bandwidth).remaining.toNat = bandwidth.toNat + 2 := hcount
  have hlate := feed_late buffers (c.arm now delay bandwidth)
  rw [hready] at hlate
  have hleft := feed_cleared (c := c.arm now delay bandwidth)
    (buffers.late (now.toNat + delay.toNat)) rfl (by omega)
    fun b hb => hready ▸ BufferStream.le_of_mem_late hb
  rw [hremaining] at hleft
  exact ⟨hlate, by rw [hlate]; exact hleft⟩

theorem isComplete_feed_arm (hcode : bandwidth ≤ 65533)
    (hfits : now.toNat + delay.toNat < 2 ^ 64) (buffers : BufferStream) :
    ((c.arm now delay bandwidth).feed buffers).isComplete = true ↔
      bandwidth.toNat + 2 ≤ (buffers.late (now.toNat + delay.toNat)).length := by
  rw [isComplete_iff, (feed_armed hcode hfits buffers).2.1, Nat.sub_eq_zero_iff_le]

/-- After an arming, only the buffers stamped at or after the deadline count: the first clears
the accumulator, the next `bandwidth + 1` are mixed in, and then the capture is complete and
stays as it is. A wait that times out leaves the counter at zero and the accumulator as the
buffers left it, whatever arrives later. From the first late buffer on, the value is the one
that any other capture armed in the same way has. -/
theorem armed_counts (hidle : c.isComplete = true) (hcode : bandwidth ≤ 65533)
    (hfits : now.toNat + delay.toNat < 2 ^ 64) (harmed : c.ArmedFrom now delay bandwidth armed)
    (buffers : BufferStream) :
    let late := buffers.late (now.toNat + delay.toNat)
    let fed := armed.feed buffers
    fed = armed.feed late ∧
      fed.remaining.toNat = bandwidth.toNat + 2 - late.length ∧
      fed.accumulator = heard c.accumulator (bandwidth.toNat + 2) late ∧
      (fed.isComplete = true ↔ bandwidth.toNat + 2 ≤ late.length) ∧
      (fed.isComplete = true → ∀ more, fed.feed more = fed) ∧
      (fed.abandon.isComplete = true ∧ fed.abandon.accumulator = fed.accumulator ∧
        ∀ more, fed.abandon.feed more = fed.abandon) ∧
      (late ≠ [] → ∀ other armed' : Capture, other.isComplete = true →
        other.ArmedFrom now delay bandwidth armed' →
        ∀ s : Sampler, (armed'.feed buffers).value s = fed.value s) ∧
      ∀ (N : Nat) (ε : Type) (clock : Timebase (Shared N ε)) (timeout : Duration)
        (w w' : Shared N ε) (r : Except Failure Unit),
        Moves Shared.Fed clock.now → Moves Shared.Fed clock.relax → w.capture = fed →
        Shared.awaitCapture clock timeout w = .ok (r, w') →
        ∃ more,
          (r = .ok () ∧ w'.capture = armed.feed (buffers ++ more) ∧
            bandwidth.toNat + 2 ≤ ((buffers ++ more).late (now.toNat + delay.toNat)).length) ∨
          (r = .error .hardwareTimeout ∧
            w'.capture = (armed.feed (buffers ++ more)).abandon) := by
  intro late fed
  obtain rfl := harmed.eq_arm hidle
  obtain ⟨hlate, hremaining, hheard⟩ := feed_armed (c := c) hcode hfits buffers
  refine ⟨hlate, hremaining, hheard, isComplete_feed_arm hcode hfits buffers,
    fun h more => feed_complete h more,
    ⟨rfl, rfl, fun more => feed_complete rfl more⟩, ?_, ?_⟩
  · rintro hsome other armed' hidle' harmed' s
    obtain rfl := harmed'.eq_arm hidle'
    obtain ⟨-, -, hheard'⟩ := feed_armed (c := other) hcode hfits buffers
    unfold value
    rw [hheard, hheard']
    exact congrArg s.value (heard_of_ne_nil hsome _ _ _)
  · intro N ε clock timeout w w' r hnow hrelax hw h
    obtain ⟨more, hend⟩ := Shared.awaitCapture_fed hnow hrelax h
    rw [hw, ← feed_append] at hend
    refine ⟨more, hend.imp_left fun ⟨hr, hcapture, hcomplete⟩ => ⟨hr, hcapture, ?_⟩⟩
    rw [hcapture] at hcomplete
    exact (isComplete_feed_arm hcode hfits _).mp hcomplete

/-- A capture that still holds the sum of an earlier one. -/
def loaded : Capture := { accumulator := { sample := 1, reference := 1 } }

set_option maxRecDepth 4000 in
/-- A loaded capture is armed for one buffer besides the one that clears it. One buffer comes
too early and the next two count, also when the wait sees them. -/
theorem armed_counts_queued :
    ∃ armed : Capture, loaded.isComplete = true ∧ loaded.ArmedFrom 1000 100 0 armed ∧
      (armed.feed [(1099, [100, 50]), (1100, [100, 50]), (1200, [100, 25])]).isComplete = true ∧
      (armed.feed [(1099, [100, 50]), (1100, [100, 50]), (1200, [100, 25])]).accumulator =
        Accumulator.zero.mix [100, 25] ∧
      ∃ w' : Shared 0 (Instant × BufferStream),
        Shared.awaitCapture Shared.queue 5000
          { capture := armed.feed [(1099, [100, 50])]
            environment := (1100, [(1100, [100, 50]), (1200, [100, 25])]) } =
          .ok (.ok (), w') ∧
        w'.capture.isComplete = true := by
  have harmed : loaded.ArmedFrom 1000 100 0 (loaded.arm 1000 100 0) :=
    ⟨[(999, [1, 1])], [(2000, [1, 1])], rfl⟩
  have counts := armed_counts rfl (by decide) (by decide) harmed
  obtain ⟨w', hrun⟩ : ∃ w' : Shared 0 (Instant × BufferStream),
      Shared.awaitCapture Shared.queue 5000
        { capture := (loaded.arm 1000 100 0).feed [(1099, [100, 50])]
          environment := (1100, [(1100, [100, 50]), (1200, [100, 25])]) } = .ok (.ok (), w') := by
    apply Exists.intro
    rfl
  obtain ⟨-, -, hheard, hcomplete, -⟩ :=
    counts [(1099, [100, 50]), (1100, [100, 50]), (1200, [100, 25])]
  obtain ⟨-, -, -, -, -, -, -, hwait⟩ := counts [(1099, [100, 50])]
  refine ⟨_, rfl, harmed, hcomplete.mpr (by decide), hheard, w', hrun, ?_⟩
  obtain ⟨more, ⟨-, hcapture, hcounted⟩ | ⟨he, -⟩⟩ :=
    hwait 0 _ Shared.queue 5000 _ w' _ Shared.queue_now_moves Shared.queue_relax_moves rfl hrun
  · obtain ⟨-, -, -, hcomplete', -⟩ := counts ([(1099, [100, 50])] ++ more)
    rw [hcapture]
    exact hcomplete'.mpr hcounted
  · cases he

set_option maxRecDepth 4000 in
/-- A capture that is given up before its first late buffer holds what an earlier one left:
its accumulator is not what was mixed since the arming, which is nothing, and its value is not
the one of another capture armed in the same way. -/
theorem abandoned_holds_earlier :
    loaded.isComplete = true ∧ (default : Capture).isComplete = true ∧
      ∃ w' v' : Shared 0 (Instant × BufferStream),
        Shared.awaitCapture Shared.queue 5000
          { capture := loaded.arm 1000 100 0, environment := (1000, []) } =
            .ok (.error .hardwareTimeout, w') ∧
        Shared.awaitCapture Shared.queue 5000
          { capture := (default : Capture).arm 1000 100 0, environment := (1000, []) } =
            .ok (.error .hardwareTimeout, v') ∧
        w'.capture.remaining = 0 ∧ w'.capture.accumulator ≠ Accumulator.zero.mixAll [] ∧
        w'.capture.value .gamma = 1 ∧ v'.capture.value .gamma = 0 := by
  refine ⟨rfl, rfl, _, _, rfl, rfl, rfl, ?_, ?_, ?_⟩ <;> decide

end Capture

end NetworkAnalyzer
