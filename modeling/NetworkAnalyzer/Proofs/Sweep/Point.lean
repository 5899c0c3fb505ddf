import NetworkAnalyzer.Proofs.Runs
import NetworkAnalyzer.Proofs.Sweep.Settled

/-!
# What measuring a point does

`Board.Frames board R` says how the board may change the shared state between two
tunes; every statement below is about an arbitrary such `R`. A capture changes the shared state by
itself, because it is armed and abandoned there, so `R` has to allow any change of the capture.

A point is tuned to, and its captures follow in a fixed order. A capture may time out, and then the
point is given up: what was entered by then stays. If all of them complete, the values of the last
cycle stay, corrected with the terms of the point. The terms were looked up in a state between the
tune and the end, since the bands of the source may depend on it.

* `shoot_inv`: one capture timed out, or its value was entered.
* `shootAll_frame`, `shootAll_last`: captures in a row, and those of the last cycle.
* `pointShots_eq`: the shots of a point are those of earlier cycles, then the last cycle.
* `Captured`, `Retuned`: a reading that was captured between two states, and a tune between two
  others.
* `measure_frame`: a point changes nothing but its own entries, also when it fails.
* `measure_moves`: with the tunes counted in, measuring a point moves by `R`.
* `measure_ok`: a measured point holds the settled values of readings that were
  captured after the tune to it.
-/

namespace NetworkAnalyzer

variable {N : Nat} {ε : Type} {R : Shared N ε → Shared N ε → Prop}
  {board : Board (Shared N ε)}

/-- Everything the board does besides tuning moves the shared state by `R`, and so
does what the sweep does to the capture. -/
structure Board.Frames (board : Board (Shared N ε)) (R : Shared N ε → Shared N ε → Prop) :
    Prop where
  now : Moves R board.now
  relax : Moves R board.relax
  select : ∀ c, Moves R (board.select c)
  takeSettlingCycles : Moves R board.takeSettlingCycles
  inputPending : Moves R board.inputPending
  indicate : ∀ i, Moves R (board.indicate i)
  capture : ∀ w c, R w { w with capture := c }

instance : IsPreorder (Shared N ε) fun _ _ => True where
  refl _ := trivial
  trans _ _ _ _ _ := trivial

/-- Nothing need be known of a world to know what a call does to its head. -/
theorem Board.frames_true (board : Board (Shared N ε)) : board.Frames fun _ _ => True where
  now _ _ _ _ := trivial
  relax _ _ _ _ := trivial
  select _ _ _ _ _ := trivial
  takeSettlingCycles _ _ _ _ := trivial
  inputPending _ _ _ _ := trivial
  indicate _ _ _ _ _ := trivial
  capture _ _ := trivial

theorem Board.Frames.awaitCapture [IsPreorder (Shared N ε) R] (hf : board.Frames R)
    (timeout : Duration) : Moves R (Shared.awaitCapture board.toTimebase timeout) := by
  unfold Shared.awaitCapture
  refine .bind (.waitUntil hf.now hf.relax (.bind .get fun _ => .pure _)) fun seen => ?_
  cases seen with
  | true => exact .pure _
  | false => exact .bind (.modify fun w => hf.capture w _) fun _ => .pure _

namespace PointSetup

variable {p : PointSetup N}

/-! ## Captures -/

/-- The reading `m` of channel `c` was captured between `w` and `w'`: the channel was
selected, then the capture was armed, and it completed. -/
def Captured (p : PointSetup N) (R : Shared N ε → Shared N ε → Prop) (board : Board (Shared N ε))
    (c : Channel) (m : Phasor Float32) (w w' : Shared N ε) : Prop :=
  ∃ w₀ w₁ w₂ w₃ now settle, R w w₀ ∧ board.select c w₀ = .ok ((), w₁) ∧
    board.now w₁ = .ok (now, w₂) ∧
    Shared.awaitCapture board.toTimebase Parameters.captureTimeout
      { w₂ with capture := w₂.capture.arm now settle p.config.bandwidth } = .ok (.ok (), w₃) ∧
    m = w₃.capture.value p.config.sampler ∧ R w₃ w'

variable [IsPreorder (Shared N ε) R] {s s' : PointState N} {w w' : Shared N ε}

theorem Captured.mono {c : Channel} {m : Phasor Float32} {v v' : Shared N ε} (hw : R w v)
    (hw' : R v' w') (h : p.Captured R board c m v v') : p.Captured R board c m w w' := by
  obtain ⟨w₀, w₁, w₂, w₃, now, settle, h₀, hsel, hnow, hwait, hm, h₃⟩ := h
  exact ⟨w₀, w₁, w₂, w₃, now, settle, trans_of R hw h₀, hsel, hnow, hwait, hm, trans_of R h₃ hw'⟩

theorem lookUp_inv {final : Bool} (h : p.lookUp board s final w = .ok (s', w')) :
    w' = w ∧ ∃ terms, s' = { s with terms } ∧ (final = false → terms = s.terms) ∧
      ((s.terms = none → p.calibration = none) → terms = s.terms) ∧
      (final = true → s.terms = none → p.finalTerms (board.band w) = .ok terms) := by
  cases final with
  | false =>
    obtain ⟨rfl, rfl⟩ := Run.pure_inv h
    exact ⟨rfl, s'.terms, rfl, fun _ => rfl, fun _ => rfl, fun hf => by cases hf⟩
  | true =>
    unfold lookUp at h
    unfold finalTerms
    cases hterms : s.terms with
    | some t =>
      simp only [hterms] at h
      obtain ⟨rfl, rfl⟩ := Run.pure_inv h
      exact ⟨rfl, some t, by rw [← hterms], fun _ => rfl, fun _ => rfl, fun _ he => by cases he⟩
    | none =>
      cases hcal : p.calibration with
      | none =>
        simp only [hterms, hcal] at h
        obtain ⟨rfl, rfl⟩ := Run.pure_inv h
        exact ⟨rfl, none, by rw [← hterms], fun _ => rfl, fun _ => rfl, fun _ _ => rfl⟩
      | some cal =>
        simp only [hterms, hcal] at h
        rw [Run.get_bind] at h
        obtain ⟨t, w₁, hl, h₁⟩ := Run.bind_inv h
        obtain ⟨hl, rfl⟩ := Run.lift_inv hl
        obtain ⟨rfl, rfl⟩ := Run.pure_inv h₁
        refine ⟨rfl, some t, rfl, fun hf => (by cases hf), fun he => (by cases he rfl),
          fun _ _ => ?_⟩
        dsimp only
        rw [hl]
        rfl

/-- One capture: it timed out, or its value was entered. -/
theorem shoot_inv (hf : board.Frames R) {shot : Shot} {r : Except Failure Unit}
    (h : p.shoot board shot s w = .ok ((r, s'), w')) :
    ∃ s₁ v, R w v ∧ R v w' ∧ p.lookUp board s shot.final v = .ok (s₁, v) ∧
      ((∃ e, r = .error e ∧ s' = s₁) ∨
        ∃ m, r = .ok () ∧ p.Captured R board shot.channel m w w' ∧
          s' = p.enter s₁ shot.channel (p.correct s₁ shot m)) := by
  unfold shoot at h
  obtain ⟨u, w₁, hsel, h⟩ := Run.bind_inv h
  obtain ⟨now, w₂, hnow, h⟩ := Run.bind_inv h
  obtain ⟨settle, w₃, hsettle, h₁⟩ := Run.bind_inv h
  obtain ⟨-, rfl⟩ := Run.lift_inv hsettle
  rw [Run.modify_bind] at h₁
  obtain ⟨s₁, w₄, hlook, h₂⟩ := Run.bind_inv h₁
  obtain ⟨rfl, -⟩ := lookUp_inv hlook
  obtain ⟨outcome, w₅, hwait, h₃⟩ := Run.bind_inv h₂
  have hwaited := hf.awaitCapture _ hwait
  have hready := trans_of R (hf.select _ hsel)
    (trans_of R (hf.now hnow) (hf.capture _ (w₃.capture.arm now settle p.config.bandwidth)))
  cases outcome with
  | error e =>
    obtain ⟨he, rfl⟩ := Run.pure_inv h₃
    cases he
    exact ⟨_, _, hready, hwaited, hlook, Or.inl ⟨e, rfl, rfl⟩⟩
  | ok u =>
    obtain ⟨he, rfl⟩ := Run.pure_inv h₃
    cases he
    exact ⟨_, _, hready, hwaited, hlook, Or.inr ⟨_, rfl,
      ⟨w, w₁, w₃, w', now, settle, refl_of R w, hsel, hnow, hwait, rfl, refl_of R w'⟩, rfl⟩⟩

/-! ## Lists of captures -/

omit [IsPreorder (Shared N ε) R] in
theorem shootAll_cons {shot : Shot} {shots : List Shot} {r : Except Failure Unit}
    (h : p.shootAll board (shot :: shots) s w = .ok ((r, s'), w')) :
    (∃ e, r = .error e ∧ p.shoot board shot s w = .ok ((r, s'), w')) ∨
      ∃ t v, p.shoot board shot s w = .ok ((.ok (), t), v) ∧
        p.shootAll board shots t v = .ok ((r, s'), w') := by
  unfold shootAll at h
  obtain ⟨⟨r₁, t⟩, w₁, hshot, h₁⟩ := Run.bind_inv h
  cases r₁ with
  | error e =>
    obtain ⟨he, rfl⟩ := Run.pure_inv h₁
    cases he
    exact Or.inl ⟨e, rfl, hshot⟩
  | ok u => exact Or.inr ⟨t, w₁, hshot, h₁⟩

omit [IsPreorder (Shared N ε) R] in
theorem shootAll_append {ys : List Shot} : ∀ {xs : List Shot} {s s' : PointState N}
    {w w' : Shared N ε} {r : Except Failure Unit},
    p.shootAll board (xs ++ ys) s w = .ok ((r, s'), w') →
      (∃ e, r = .error e ∧ p.shootAll board xs s w = .ok ((r, s'), w')) ∨
      ∃ t v, p.shootAll board xs s w = .ok ((.ok (), t), v) ∧
        p.shootAll board ys t v = .ok ((r, s'), w') := by
  intro xs
  induction xs with
  | nil => exact fun h => Or.inr ⟨_, _, rfl, h⟩
  | cons x xs ih =>
    intro s s' w w' r h
    rcases shootAll_cons h with ⟨e, rfl, hshot⟩ | ⟨t, v, hshot, hrest⟩
    · exact Or.inl ⟨e, rfl, Run.bind_ok _ hshot⟩
    · have hstep : p.shootAll board (x :: xs) s w = p.shootAll board xs t v :=
        Run.bind_ok _ hshot
      rw [hstep]
      exact ih hrest

/-- What captures change: entries of the point, the reflection if they measure it, and
the terms in the last cycle only. -/
theorem shootAll_frame (hf : board.Frames R) {shots : List Shot} :
    ∀ {s s' : PointState N} {w w' : Shared N ε} {r : Except Failure Unit},
      (∀ shot ∈ shots, p.mask.measures shot.channel) →
      p.shootAll board shots s w = .ok ((r, s'), w') →
      R w w' ∧ p.SameOff s.traces s'.traces ∧
        (¬p.mask.measures .s11 → s'.reflection = s.reflection) ∧
        ((∀ shot ∈ shots, shot.final = false) → s'.terms = s.terms) := by
  induction shots with
  | nil =>
    intro s s' w w' r _ h
    obtain ⟨he, rfl⟩ := Run.pure_inv h
    cases he
    exact ⟨refl_of R w', SameOff.refl _, fun _ => rfl, fun _ => rfl⟩
  | cons shot shots ih =>
    intro s s' w w' r hmeasured h
    rcases shootAll_cons h with ⟨e, rfl, hshot⟩ | ⟨t, v, hshot, hrest⟩
    · obtain ⟨s₁, v, hbefore, hafter, hlook, ⟨_, -, rfl⟩ | ⟨m, he, -⟩⟩ := shoot_inv hf hshot
      · obtain ⟨-, terms, rfl, hearly, -⟩ := lookUp_inv hlook
        exact ⟨trans_of R hbefore hafter, SameOff.refl _, fun _ => rfl,
          fun hall => hearly (hall shot List.mem_cons_self)⟩
      · cases he
    · obtain ⟨s₁, _, hbefore, hafter, hlook, ⟨_, he, -⟩ | ⟨m, -, -, rfl⟩⟩ := shoot_inv hf hshot
      · cases he
      · obtain ⟨-, terms, rfl, hearly, -⟩ := lookUp_inv hlook
        have hc := hmeasured shot List.mem_cons_self
        obtain ⟨hmoved', hoff, hrefl, hterms⟩ :=
          ih (fun y hy => hmeasured y (List.mem_cons_of_mem _ hy)) hrest
        refine ⟨trans_of R (trans_of R hbefore hafter) hmoved',
          (enter_sameOff _ hc _).trans hoff, fun hno => ?_, fun hall => ?_⟩
        · rw [hrefl hno]
          cases hchannel : shot.channel with
          | s11 => exact absurd (hchannel ▸ hc) hno
          | s21 => rfl
        · rw [hterms fun y hy => hall y (List.mem_cons_of_mem _ hy)]
          exact hearly (hall shot List.mem_cons_self)

theorem shoot_final (hf : board.Frames R) {shot : Shot} (hfinal : shot.final = true)
    (h : p.shoot board shot s w = .ok ((.ok (), s'), w')) :
    ∃ m terms v, R w v ∧ R v w' ∧ p.Captured R board shot.channel m w w' ∧
      s' = p.record { s with terms } (shot.channel, m) ∧
      ((s.terms = none → p.calibration = none) → terms = s.terms) ∧
      (s.terms = none → p.finalTerms (board.band v) = .ok terms) := by
  obtain ⟨s₁, v, hbefore, hafter, hlook, ⟨_, he, -⟩ | ⟨m, -, hcaptured, rfl⟩⟩ := shoot_inv hf h
  · cases he
  · obtain ⟨-, terms, rfl, -, hsame, hfound⟩ := lookUp_inv hlook
    refine ⟨m, terms, v, hbefore, hafter, hcaptured, ?_, hsame, hfound hfinal⟩
    unfold record correct
    rw [hfinal]

theorem shootAll_final (hf : board.Frames R) : ∀ {shots : List Shot} {s s' : PointState N}
    {w w' : Shared N ε}, (∀ shot ∈ shots, shot.final = true) →
    (s.terms = none → p.calibration = none) →
    p.shootAll board shots s w = .ok ((.ok (), s'), w') →
    ∃ readings : List (Channel × Phasor Float32),
      readings.map (·.1) = shots.map (·.channel) ∧ R w w' ∧
      (∀ z ∈ readings, p.Captured R board z.1 z.2 w w') ∧ s' = readings.foldl p.record s := by
  intro shots
  induction shots with
  | nil =>
    intro s s' w w' _ _ h
    obtain ⟨he, rfl⟩ := Run.pure_inv h
    cases he
    exact ⟨[], rfl, refl_of R w', fun z hz => (by cases hz), rfl⟩
  | cons shot shots ih =>
    intro s s' w w' hfinal hterms h
    rcases shootAll_cons h with ⟨e, he, -⟩ | ⟨t, v, hshot, hrest⟩
    · cases he
    · obtain ⟨m, terms, v, hbefore, hafter, hcaptured, rfl, hsame, -⟩ :=
        shoot_final hf (hfinal shot List.mem_cons_self) hshot
      have hmoved : R w _ := trans_of R hbefore hafter
      cases hsame hterms
      obtain ⟨readings, hchannels, hmoved', hall, rfl⟩ :=
        ih (s := p.record s (shot.channel, m)) (fun y hy => hfinal y (List.mem_cons_of_mem _ hy))
          hterms hrest
      refine ⟨(shot.channel, m) :: readings, ?_, trans_of R hmoved hmoved', fun z hz => ?_, rfl⟩
      · rw [List.map_cons, List.map_cons, hchannels]
      · rcases List.mem_cons.mp hz with rfl | hz
        · exact hcaptured.mono (refl_of R w) hmoved'
        · exact (hall z hz).mono hmoved (refl_of R w')

theorem finalTerms_none {band : UInt32 → UInt32} (h : p.finalTerms band = .ok none) :
    p.calibration = none := by
  unfold finalTerms at h
  cases hcal : p.calibration with
  | none => rfl
  | some cal =>
    rw [hcal] at h
    dsimp only at h
    cases hi : cal.interpolate p.termIndex p.frequency band with
    | error e => rw [hi] at h; cases h
    | ok t => rw [hi] at h; cases h

theorem shootAll_last (hf : board.Frames R) {shots : List Shot} (hne : shots ≠ [])
    (hfinal : ∀ shot ∈ shots, shot.final = true) (hterms : s.terms = none)
    (h : p.shootAll board shots s w = .ok ((.ok (), s'), w')) :
    ∃ (readings : List (Channel × Phasor Float32)) (terms : Option (Terms Float32))
      (v : Shared N ε), readings.map (·.1) = shots.map (·.channel) ∧
      (∀ z ∈ readings, p.Captured R board z.1 z.2 w w') ∧ R w v ∧ R v w' ∧
      p.finalTerms (board.band v) = .ok terms ∧
      s' = readings.foldl p.record { s with terms } := by
  cases shots with
  | nil => exact absurd rfl hne
  | cons shot shots =>
    rcases shootAll_cons h with ⟨e, he, -⟩ | ⟨t, v, hshot, hrest⟩
    · cases he
    · obtain ⟨m, terms, b, hbefore, hafter, hcaptured, rfl, -, hfound⟩ :=
        shoot_final hf (hfinal shot List.mem_cons_self) hshot
      have hok := hfound hterms
      have hready : terms = none → p.calibration = none :=
        fun hnone => finalTerms_none (hnone ▸ hok)
      obtain ⟨readings, hchannels, hmoved', hall, rfl⟩ := shootAll_final hf
        (fun y hy => hfinal y (List.mem_cons_of_mem _ hy)) hready hrest
      refine ⟨(shot.channel, m) :: readings, terms, b, ?_, fun z hz => ?_, hbefore,
        trans_of R hafter hmoved', hok, rfl⟩
      · rw [List.map_cons, List.map_cons, hchannels]
      · rcases List.mem_cons.mp hz with rfl | hz
        · exact hcaptured.mono (refl_of R w) hmoved'
        · exact (hall z hz).mono (trans_of R hbefore hafter) (refl_of R w')

/-! ## The point -/

omit [IsPreorder (Shared N ε) R] in
theorem cycleShots_channels (channels : List Channel) (delay : Duration) (extra cycle : Nat) :
    (cycleShots channels delay extra cycle).map (·.channel) = channels := by
  unfold cycleShots
  rw [List.map_map]
  exact List.zipIdx_map_fst 0 channels

theorem cycleShots_final {channels : List Channel} {delay : Duration} {extra cycle : Nat}
    {shot : Shot} (h : shot ∈ cycleShots channels delay extra cycle) :
    shot.channel ∈ channels ∧ (shot.final = true ↔ cycle = extra) := by
  refine ⟨?_, ?_⟩
  · rw [← cycleShots_channels channels delay extra cycle]
    exact List.mem_map_of_mem h
  · unfold cycleShots at h
    obtain ⟨ci, -, rfl⟩ := List.mem_map.mp h
    exact decide_eq_true_iff

/-- The shots of a point: those of cycles whose values do not stay, then the last cycle. -/
theorem pointShots_eq (channels : List Channel) (delay : Duration) (extra : Nat) :
    pointShots channels delay extra =
      (List.range extra).flatMap (cycleShots channels delay extra) ++
        cycleShots channels delay extra extra := by
  unfold pointShots
  rw [List.range_succ, List.flatMap_append, List.flatMap_singleton]

/-- The source was tuned to the point, if the point measures anything. -/
def Retuned (p : PointSetup N) (board : Board (Shared N ε)) (w w' : Shared N ε) : Prop :=
  if p.mask.measuresAny then ∃ delay, board.tune p.frequency w = .ok (delay, w') else w' = w

theorem retune_inv (hf : board.Frames R) {delay : Duration} {extra : UInt8}
    (h : p.retune board w = .ok ((delay, extra), w')) : ∃ w₁, p.Retuned board w w₁ ∧ R w₁ w' := by
  unfold retune at h
  split at h
  · rename_i hany
    obtain ⟨d, w₁, htune, h₁⟩ := Run.bind_inv h
    obtain ⟨x, w₂, htake, h₂⟩ := Run.bind_inv h₁
    obtain ⟨-, rfl⟩ := Run.pure_inv h₂
    refine ⟨w₁, ?_, hf.takeSettlingCycles htake⟩
    unfold Retuned
    rw [if_pos hany]
    exact ⟨d, htune⟩
  · rename_i hnone
    obtain ⟨-, rfl⟩ := Run.pure_inv h
    refine ⟨w', ?_, refl_of R w'⟩
    unfold Retuned
    rw [if_neg hnone]

/-- A point measured or given up: nothing but its entries changed. -/
theorem measure_frame (hf : board.Frames R) {u u' : Traces Float32 N}
    {r : Except Failure Unit} (h : p.measure board u w = .ok ((r, u'), w')) :
    (∃ w₁, p.Retuned board w w₁ ∧ R w₁ w') ∧ p.SameOff u u' := by
  unfold measure at h
  obtain ⟨⟨delay, extra⟩, w₂, hretune, h₁⟩ := Run.bind_inv h
  obtain ⟨w₁, hretuned, hmoved⟩ := retune_inv hf hretune
  obtain ⟨⟨r₁, s⟩, w₃, hshots, h₂⟩ := Run.bind_inv h₁
  have hmeasured : ∀ shot ∈ pointShots p.mask.channels delay extra.toNat,
      p.mask.measures shot.channel := by
    intro shot hshot
    obtain ⟨cycle, -, hshot⟩ := List.mem_flatMap.mp hshot
    exact SweepMask.mem_channels.mp (cycleShots_final hshot).1
  obtain ⟨hmoved', hoff, -, -⟩ := shootAll_frame hf hmeasured hshots
  cases r₁ with
  | error e =>
    obtain ⟨he, rfl⟩ := Run.pure_inv h₂
    cases he
    exact ⟨⟨w₁, hretuned, trans_of R hmoved hmoved'⟩, hoff⟩
  | ok x =>
    obtain ⟨he, rfl⟩ := Run.pure_inv h₂
    cases he
    exact ⟨⟨w₁, hretuned, trans_of R hmoved hmoved'⟩, hoff.trans (renormalized_sameOff s)⟩

theorem Retuned.moves (htune : ∀ f, Moves R (board.tune f)) (h : p.Retuned board w w') :
    R w w' := by
  unfold Retuned at h
  split at h
  · obtain ⟨delay, h⟩ := h
    exact htune _ h
  · rw [h]
    exact refl_of R w

/-- With the tunes counted in, measuring a point moves by `R`. -/
theorem measure_moves (hf : board.Frames R) (htune : ∀ f, Moves R (board.tune f))
    {u u' : Traces Float32 N} {r : Except Failure Unit}
    (h : p.measure board u w = .ok ((r, u'), w')) : R w w' := by
  obtain ⟨⟨w₁, hretuned, hmoved⟩, -⟩ := measure_frame hf h
  exact trans_of R (hretuned.moves htune) hmoved

/-- A measured point: one reading of each selected channel, captured after the tune and
corrected with the terms of the point. -/
theorem measure_ok (hf : board.Frames R) (hany : p.mask.measuresAny) {u u' : Traces Float32 N}
    (h : p.measure board u w = .ok ((.ok (), u'), w')) :
    ∃ (readings : List (Channel × Phasor Float32)) (terms : Option (Terms Float32))
      (w₁ v : Shared N ε), p.Retuned board w w₁ ∧ R w₁ v ∧ R v w' ∧
      readings.map (·.1) = p.mask.channels ∧
      (∀ z ∈ readings, p.Captured R board z.1 z.2 w₁ w') ∧
      p.finalTerms (board.band v) = .ok terms ∧ u' = p.settled terms readings u := by
  unfold measure at h
  obtain ⟨⟨delay, extra⟩, w₂, hretune, h₁⟩ := Run.bind_inv h
  obtain ⟨w₁, hretuned, hmoved⟩ := retune_inv hf hretune
  obtain ⟨⟨r, s⟩, w₃, hshots, h₂⟩ := Run.bind_inv h₁
  cases r with
  | error e =>
    obtain ⟨he, -⟩ := Run.pure_inv h₂
    cases he
  | ok x =>
    obtain ⟨he, rfl⟩ := Run.pure_inv h₂
    cases he
    rw [pointShots_eq] at hshots
    rcases shootAll_append hshots with ⟨e, he, -⟩ | ⟨t, v, hearly, hlast⟩
    · cases he
    · have hmeasured : ∀ shot ∈ (List.range extra.toNat).flatMap
          (cycleShots p.mask.channels delay extra.toNat),
          p.mask.measures shot.channel ∧ shot.final = false := by
        intro shot hshot
        obtain ⟨cycle, hcycle, hshot⟩ := List.mem_flatMap.mp hshot
        obtain ⟨hc, hfinal⟩ := cycleShots_final hshot
        refine ⟨SweepMask.mem_channels.mp hc, ?_⟩
        rw [← Bool.not_eq_true, hfinal]
        exact Nat.ne_of_lt (List.mem_range.mp hcycle)
      obtain ⟨hmoved₁, hoff, hrefl, hterms⟩ :=
        shootAll_frame hf (fun shot hs => (hmeasured shot hs).1) hearly
      have hne : cycleShots p.mask.channels delay extra.toNat extra.toNat ≠ [] := by
        obtain ⟨c, hc⟩ := SweepMask.measuresAny_iff.mp hany
        intro hnil
        have hmem := SweepMask.mem_channels.mpr hc
        rw [← cycleShots_channels p.mask.channels delay extra.toNat extra.toNat, hnil] at hmem
        cases hmem
      obtain ⟨readings, terms, b, hchannels, hcaptured, hbefore, hafter, hfound, rfl⟩ :=
        shootAll_last hf hne (fun shot hs => (cycleShots_final hs).2.mpr rfl)
          (hterms fun shot hs => (hmeasured shot hs).2) hlast
      rw [cycleShots_channels] at hchannels
      have hmoved₂ : R w₁ v := trans_of R hmoved hmoved₁
      refine ⟨readings, terms, w₁, b, hretuned, trans_of R hmoved₂ hbefore, hafter, hchannels,
        fun z hz => (hcaptured z hz).mono hmoved₂ (refl_of R _), hfound, ?_⟩
      calc p.renormalized (readings.foldl p.record { t with terms })
          = p.settled terms readings t.traces := settled_eq hchannels t.traces hrefl
        _ = p.settled terms readings u := settled_of_sameOff hchannels hoff

end PointSetup

end NetworkAnalyzer
