import NetworkAnalyzer.Proofs.Sweep.Point

/-!
# Captures apart from their arithmetic

Measuring a point alternates between the board and the arithmetic on what the board
delivered. Here the two are taken apart. `course` tunes, takes the captures and looks the
terms up, and computes no value: it notes what was delivered, in order. `workOut` computes
the values from the notes.

The one thing that flows back is whether the terms were looked up already, since they are looked up
once for a point. This is a matter of the captures made so far and not of their values, so `gather`
carries it as a flag.

Terms are looked up while the first capture of the last cycle is under way, and before its wait. If
that capture times out, the terms are among the notes and no reading of the last cycle is.

* `measure_eq`: a point is measured by working its notes out, so no value that was computed
  reaches the board.
* `measure_outcome`: faults, the outcome and the shared state do not depend on the arithmetic.
* `gather_plain`, `gather_last`: the cycles before the last, and the last one, which looks the
  terms up.
* `course_inv`: the notes of a point are the readings of the cycles before the last, the
  terms if there are any, and the readings of the last cycle (`Course`).
* `kept_eq_settled`: of a measured point the last cycle is kept.
-/

namespace NetworkAnalyzer

variable {N : Nat} {ε : Type} {board : Board (Shared N ε)}

/-- What is delivered while a point is measured. -/
inductive Note where
  /-- The error terms of the point. -/
  | terms (t : Terms Float32)
  /-- A completed capture of `c`, in the last cycle or in an earlier one. -/
  | reading (c : Channel) (final : Bool) (m : Phasor Float32)

def Note.isTerms : Note → Bool
  | .terms _ => true
  | .reading .. => false

namespace PointSetup

variable {p : PointSetup N}

/-- The terms, if they are looked up at this capture. -/
def consult (board : Board (Shared N ε)) (p : PointSetup N) (known final : Bool) :
    Run (Shared N ε) (List Note) := do
  match final, known, p.calibration with
  | true, false, some cal =>
    let t ← cal.interpolate p.termIndex p.frequency (board.band (← get))
    return [.terms t]
  | _, _, _ => return []

/-- One capture; `known` says that the terms were looked up before. -/
def expose (board : Board (Shared N ε)) (p : PointSetup N) (shot : Shot) (known : Bool) :
    Run (Shared N ε) (Except Failure Unit × List Note) := do
  board.select shot.channel
  let now ← board.now
  let settle ← addDurations shot.settle shot.lead
  modify fun w => { w with capture := w.capture.arm now settle p.config.bandwidth }
  let found ← p.consult board known shot.final
  match ← Shared.awaitCapture board.toTimebase Parameters.captureTimeout with
  | .error e => return (.error e, found)
  | .ok () =>
    let m := (← get).capture.value p.config.sampler
    return (.ok (), found ++ [.reading shot.channel shot.final m])

/-- Captures in order, up to the first failure. -/
def gather (board : Board (Shared N ε)) (p : PointSetup N) :
    List Shot → Bool → Run (Shared N ε) (Except Failure Unit × List Note)
  | [], _ => return (.ok (), [])
  | shot :: rest, known => do
    match ← p.expose board shot known with
    | (.error e, notes) => return (.error e, notes)
    | (.ok (), notes) =>
      let (outcome, more) ← p.gather board rest (known || notes.any Note.isTerms)
      return (outcome, notes ++ more)

def workOut (p : PointSetup N) (s : PointState N) : Note → PointState N
  | .terms t => { s with terms := some t }
  | .reading c final m => p.enter s c (p.correct s ⟨c, 0, 0, final⟩ m)

/-! ## Two halves -/

theorem lookUp_eq (s : PointState N) (final : Bool) :
    p.lookUp board s final =
      (fun found => found.foldl p.workOut s) <$> p.consult board s.terms.isSome final := by
  unfold lookUp consult
  cases final with
  | false => rfl
  | true =>
    cases hs : s.terms with
    | some t => rfl
    | none =>
      cases hc : p.calibration with
      | none => rfl
      | some cal =>
        simp only [Option.isSome_none, map_bind]
        rfl

theorem shoot_eq (shot : Shot) (s : PointState N) :
    p.shoot board shot s =
      (fun y => (y.1, y.2.foldl p.workOut s)) <$> p.expose board shot s.terms.isSome := by
  unfold shoot expose
  simp only [map_bind, lookUp_eq, bind_map_left]
  refine bind_congr fun _ => bind_congr fun _ => bind_congr fun _ => bind_congr fun _ =>
    bind_congr fun found => bind_congr fun outcome => ?_
  cases outcome with
  | error e => rfl
  | ok u =>
    simp only [map_bind]
    refine bind_congr fun w => ?_
    simp only [map_pure, List.foldl_append]
    rfl

theorem foldl_workOut_terms (notes : List Note) : ∀ s : PointState N,
    (notes.foldl p.workOut s).terms.isSome = (s.terms.isSome || notes.any Note.isTerms) := by
  induction notes with
  | nil => intro s; simp
  | cons note notes ih =>
    intro s
    rw [List.foldl_cons, ih, List.any_cons, ← Bool.or_assoc]
    cases note with
    | terms t => simp [workOut, Note.isTerms]
    | reading c final m => simp [workOut, enter, Note.isTerms]

theorem shootAll_eq (shots : List Shot) : ∀ s : PointState N,
    p.shootAll board shots s =
      (fun y => (y.1, y.2.foldl p.workOut s)) <$> p.gather board shots s.terms.isSome := by
  induction shots with
  | nil => intro s; rfl
  | cons shot shots ih =>
    intro s
    unfold shootAll gather
    simp only [map_bind, shoot_eq, bind_map_left]
    refine bind_congr fun ⟨outcome, notes⟩ => ?_
    cases outcome with
    | error e => rfl
    | ok u =>
      simp only [ih, map_bind, foldl_workOut_terms, map_pure, ← List.foldl_append]
      rfl

/-- All a point notes: the source is tuned, then the captures are taken. -/
def course (board : Board (Shared N ε)) (p : PointSetup N) :
    Run (Shared N ε) (Except Failure Unit × List Note) := do
  let (delay, extra) ← p.retune board
  p.gather board (pointShots p.mask.channels delay extra.toNat) false

/-- What the notes of a point make of the traces. -/
def kept (p : PointSetup N) (u : Traces Float32 N) (outcome : Except Failure Unit)
    (notes : List Note) : Traces Float32 N :=
  let s := notes.foldl p.workOut { traces := u }
  match outcome with
  | .error _ => s.traces
  | .ok () => p.renormalized s

theorem measure_eq (u : Traces Float32 N) :
    p.measure board u = (fun y => (y.1, p.kept u y.1 y.2)) <$> p.course board := by
  unfold measure course
  simp only [map_bind, shootAll_eq, bind_map_left]
  refine bind_congr fun ⟨delay, extra⟩ => ?_
  rw [map_eq_pure_bind]
  refine bind_congr fun ⟨outcome, notes⟩ => ?_
  cases outcome <;> rfl

/-- Faults, the outcome and the shared state do not depend on the arithmetic. -/
theorem measure_outcome (u : Traces Float32 N) (w : Shared N ε) :
    (p.measure board u w).map (fun y => (y.1.1, y.2)) =
      (p.course board w).map fun y => (y.1.1, y.2) := by
  rw [measure_eq, map_eq_pure_bind]
  change Except.map _ (Except.bind (p.course board w) _) = _
  cases p.course board w <;> rfl

theorem measure_of_course {w w' : Shared N ε} {r : Except Failure Unit} {notes : List Note}
    (h : p.course board w = .ok ((r, notes), w')) (u : Traces Float32 N) :
    p.measure board u w = .ok ((r, p.kept u r notes), w') := by
  rw [measure_eq, map_eq_pure_bind]
  exact Run.bind_ok _ h

theorem measure_inv {u u' : Traces Float32 N} {w w' : Shared N ε} {r : Except Failure Unit}
    (h : p.measure board u w = .ok ((r, u'), w')) :
    ∃ notes, p.course board w = .ok ((r, notes), w') ∧ u' = p.kept u r notes := by
  rw [measure_eq, map_eq_pure_bind] at h
  obtain ⟨⟨outcome, notes⟩, w₁, hcourse, h₁⟩ := Run.bind_inv h
  obtain ⟨he, rfl⟩ := Run.pure_inv h₁
  cases he
  exact ⟨notes, hcourse, rfl⟩

/-! ## What is noted -/

def readings (final : Bool) (zs : List (Channel × Phasor Float32)) : List Note :=
  zs.map fun z => .reading z.1 final z.2

theorem mem_readings {final : Bool} {c : Channel} (m : Channel → Phasor Float32)
    (h : p.mask.measures c) : .reading c final (m c) ∈ readings final (p.cycleOf m) :=
  List.mem_map_of_mem (List.mem_map_of_mem (SweepMask.mem_channels.mpr h))

variable {w w' : Shared N ε} {r : Except Failure Unit} {notes : List Note}

/-- The terms are looked up at a capture of the last cycle, unless they were before. -/
theorem consult_inv {known final : Bool} {found : List Note}
    (h : p.consult board known final w = .ok (found, w')) :
    w' = w ∧ ∃ terms, found = (terms : Option (Terms Float32)).toList.map .terms ∧
      (final = false ∨ known = true ∨ p.calibration = none → terms = none) ∧
      (final = true → known = false → p.finalTerms (board.band w) = .ok terms) := by
  unfold consult at h
  unfold finalTerms
  cases final with
  | false =>
    obtain ⟨rfl, rfl⟩ := Run.pure_inv h
    exact ⟨rfl, none, rfl, fun _ => rfl, fun hf => by cases hf⟩
  | true =>
    cases known with
    | true =>
      obtain ⟨rfl, rfl⟩ := Run.pure_inv h
      exact ⟨rfl, none, rfl, fun _ => rfl, fun _ hk => by cases hk⟩
    | false =>
      cases hc : p.calibration with
      | none =>
        rw [hc] at h
        obtain ⟨rfl, rfl⟩ := Run.pure_inv h
        exact ⟨rfl, none, rfl, fun _ => rfl, fun _ _ => rfl⟩
      | some cal =>
        rw [hc] at h
        dsimp only at h
        rw [Run.get_bind] at h
        obtain ⟨t, w₁, hl, h₁⟩ := Run.bind_inv h
        obtain ⟨hl, rfl⟩ := Run.lift_inv hl
        obtain ⟨rfl, rfl⟩ := Run.pure_inv h₁
        refine ⟨rfl, some t, rfl, fun hq => ?_, fun _ _ => ?_⟩
        · rcases hq with hq | hq | hq <;> cases hq
        · dsimp only
          rw [hl]
          rfl

/-- One capture: the terms if it looks them up, then its reading unless it timed out. -/
theorem expose_inv {shot : Shot} {known : Bool}
    (h : p.expose board shot known w = .ok ((r, notes), w')) :
    ∃ (terms : Option (Terms Float32)) (v : Shared N ε),
      (shot.final = false ∨ known = true ∨ p.calibration = none → terms = none) ∧
      (shot.final = true → known = false → p.finalTerms (board.band v) = .ok terms) ∧
      ((∃ e, r = .error e ∧ notes = terms.toList.map .terms) ∨
        ∃ m, r = .ok () ∧
          notes = terms.toList.map .terms ++ [.reading shot.channel shot.final m]) := by
  unfold expose at h
  obtain ⟨u, w₁, -, h⟩ := Run.bind_inv h
  obtain ⟨now, w₂, -, h⟩ := Run.bind_inv h
  obtain ⟨settle, w₃, -, h⟩ := Run.bind_inv h
  rw [Run.modify_bind] at h
  obtain ⟨found, w₄, hconsult, h⟩ := Run.bind_inv h
  obtain ⟨-, terms, rfl, hnone, hfound⟩ := consult_inv hconsult
  obtain ⟨outcome, w₅, -, h⟩ := Run.bind_inv h
  refine ⟨terms, _, hnone, hfound, ?_⟩
  cases outcome with
  | error e =>
    obtain ⟨he, -⟩ := Run.pure_inv h
    cases he
    exact Or.inl ⟨e, rfl, rfl⟩
  | ok x =>
    obtain ⟨he, -⟩ := Run.pure_inv h
    cases he
    exact Or.inr ⟨_, rfl, rfl⟩

/-- The captures up to the outcome: of all channels in `all`, or of those before a failure. -/
def Through (all taken : List Channel) : Except Failure Unit → Prop
  | .ok () => taken = all
  | .error _ => ∃ c rest, taken ++ c :: rest = all

theorem Through.cons {all taken : List Channel} (c : Channel) (h : Through all taken r) :
    Through (c :: all) (c :: taken) r := by
  cases r with
  | ok u => exact congrArg (c :: ·) h
  | error e =>
    obtain ⟨d, rest, hsplit⟩ := h
    exact ⟨d, rest, congrArg (c :: ·) hsplit⟩

theorem gather_cons {shot : Shot} {shots : List Shot} {known : Bool}
    (h : p.gather board (shot :: shots) known w = .ok ((r, notes), w')) :
    (∃ e, r = .error e ∧ p.expose board shot known w = .ok ((r, notes), w')) ∨
      ∃ first more v, p.expose board shot known w = .ok ((.ok (), first), v) ∧
        p.gather board shots (known || first.any Note.isTerms) v = .ok ((r, more), w') ∧
        notes = first ++ more := by
  unfold gather at h
  obtain ⟨⟨r₁, first⟩, w₁, hshot, h₁⟩ := Run.bind_inv h
  cases r₁ with
  | error e =>
    obtain ⟨he, rfl⟩ := Run.pure_inv h₁
    cases he
    exact Or.inl ⟨e, rfl, hshot⟩
  | ok u =>
    obtain ⟨⟨r₂, more⟩, w₂, hrest, h₂⟩ := Run.bind_inv h₁
    obtain ⟨he, rfl⟩ := Run.pure_inv h₂
    cases he
    exact Or.inr ⟨first, more, w₁, hshot, hrest, rfl⟩

theorem gather_append {ys : List Shot} : ∀ {xs : List Shot} {known : Bool} {w : Shared N ε}
    {notes : List Note}, p.gather board (xs ++ ys) known w = .ok ((r, notes), w') →
      (∃ e, r = .error e ∧ p.gather board xs known w = .ok ((r, notes), w')) ∨
      ∃ first more v, p.gather board xs known w = .ok ((.ok (), first), v) ∧
        p.gather board ys (known || first.any Note.isTerms) v = .ok ((r, more), w') ∧
        notes = first ++ more := by
  intro xs
  induction xs with
  | nil =>
    intro known w notes h
    refine Or.inr ⟨[], notes, w, rfl, ?_, rfl⟩
    rw [List.any_nil, Bool.or_false]
    exact h
  | cons x xs ih =>
    intro known w notes h
    rcases gather_cons h with ⟨e, rfl, hshot⟩ | ⟨first, more, v, hshot, hrest, rfl⟩
    · exact Or.inl ⟨e, rfl, Run.bind_ok _ hshot⟩
    · have hstep : p.gather board (x :: xs) known w = (do
          let (outcome, more) ← p.gather board xs (known || first.any Note.isTerms)
          return (outcome, first ++ more)) v := Run.bind_ok _ hshot
      rw [hstep]
      rcases ih hrest with ⟨e, rfl, hxs⟩ | ⟨second, third, v', hxs, hys, rfl⟩
      · exact Or.inl ⟨e, rfl, Run.bind_ok _ hxs⟩
      · refine Or.inr ⟨first ++ second, third, v', Run.bind_ok _ hxs, ?_, ?_⟩
        · rw [List.any_append, ← Bool.or_assoc]
          exact hys
        · rw [List.append_assoc]

/-- Captures of one kind that look nothing up: a reading of each up to the first that fails. -/
theorem gather_plain {final : Bool} : ∀ {shots : List Shot} {known : Bool} {w : Shared N ε}
    {notes : List Note}, (∀ shot ∈ shots, shot.final = final) →
      final = false ∨ known = true ∨ p.calibration = none →
      p.gather board shots known w = .ok ((r, notes), w') →
      ∃ zs, notes = readings final zs ∧ Through (shots.map (·.channel)) (zs.map (·.1)) r := by
  intro shots
  induction shots with
  | nil =>
    intro known w notes _ _ h
    obtain ⟨he, -⟩ := Run.pure_inv h
    cases he
    exact ⟨[], rfl, rfl⟩
  | cons shot shots ih =>
    intro known w notes hfinal hquiet h
    have hshot_final : shot.final = final := hfinal shot List.mem_cons_self
    rcases gather_cons h with ⟨e, rfl, hshot⟩ | ⟨first, more, v, hshot, hrest, rfl⟩
    · obtain ⟨terms, _, hnone, -, ⟨_, -, rfl⟩ | ⟨m, he, -⟩⟩ := expose_inv hshot
      · cases hnone (hshot_final ▸ hquiet)
        exact ⟨[], rfl, shot.channel, _, rfl⟩
      · cases he
    · obtain ⟨terms, _, hnone, -, ⟨_, he, -⟩ | ⟨m, -, rfl⟩⟩ := expose_inv hshot
      · cases he
      · cases hnone (hshot_final ▸ hquiet)
        have hrest : p.gather board shots known v = .ok ((r, more), w') := by
          simpa [Note.isTerms] using hrest
        obtain ⟨zs, rfl, hthrough⟩ :=
          ih (fun y hy => hfinal y (List.mem_cons_of_mem _ hy)) hquiet hrest
        refine ⟨(shot.channel, m) :: zs, ?_, hthrough.cons shot.channel⟩
        rw [hshot_final]
        rfl

/-- The last cycle: the terms, looked up at its first capture, then its readings. -/
theorem gather_last {shots : List Shot} (hne : shots ≠ [])
    (hfinal : ∀ shot ∈ shots, shot.final = true)
    (h : p.gather board shots false w = .ok ((r, notes), w')) :
    ∃ (terms : Option (Terms Float32)) (zs : List (Channel × Phasor Float32)) (v : Shared N ε),
      p.finalTerms (board.band v) = .ok terms ∧
      notes = terms.toList.map .terms ++ readings true zs ∧
      Through (shots.map (·.channel)) (zs.map (·.1)) r := by
  cases shots with
  | nil => exact absurd rfl hne
  | cons shot shots =>
    have hshot_final : shot.final = true := hfinal shot List.mem_cons_self
    rcases gather_cons h with ⟨e, rfl, hshot⟩ | ⟨first, more, v, hshot, hrest, rfl⟩
    · obtain ⟨terms, v, -, hfound, ⟨_, -, rfl⟩ | ⟨m, he, -⟩⟩ := expose_inv hshot
      · exact ⟨terms, [], v, hfound hshot_final rfl, (List.append_nil _).symm, shot.channel, _, rfl⟩
      · cases he
    · obtain ⟨terms, v₁, -, hfound, ⟨_, he, -⟩ | ⟨m, -, rfl⟩⟩ := expose_inv hshot
      · cases he
      · have hterms := hfound hshot_final rfl
        -- from here on the terms are known, or there are none
        have hquiet : true = false ∨ (false || (terms.toList.map Note.terms ++
            [Note.reading shot.channel shot.final m]).any Note.isTerms) = true ∨
            p.calibration = none := by
          cases terms with
          | none => exact Or.inr (Or.inr (finalTerms_none hterms))
          | some t => exact Or.inr (Or.inl (by simp [Note.isTerms]))
        obtain ⟨zs, rfl, hthrough⟩ :=
          gather_plain (fun y hy => hfinal y (List.mem_cons_of_mem _ hy)) hquiet hrest
        refine ⟨terms, (shot.channel, m) :: zs, v₁, hterms, ?_, hthrough.cons shot.channel⟩
        rw [hshot_final, List.append_assoc]
        rfl

/-- Readings of the cycles before the last, the terms if there are any, and the readings of the
last cycle. -/
def noted (early : List (Channel × Phasor Float32)) (terms : Option (Terms Float32))
    (last : List (Channel × Phasor Float32)) : List Note :=
  readings false early ++ (terms.toList.map .terms ++ readings true last)

/-- What a point with `extra` settling cycles notes up to its outcome. -/
structure Course (p : PointSetup N) (board : Board (Shared N ε)) (extra : Nat)
    (r : Except Failure Unit) (early : List (Channel × Phasor Float32))
    (terms : Option (Terms Float32)) (last : List (Channel × Phasor Float32)) : Prop where
  measured : ∀ z ∈ early, p.mask.measures z.1
  cycles : r = .ok () → early.map (·.1) = (List.replicate extra p.mask.channels).flatten
  last : Through p.mask.channels (last.map (·.1)) r
  found : p.mask.measuresAny → r = .ok () → ∃ v, p.finalTerms (board.band v) = .ok terms

theorem cycles_channels (channels : List Channel) (delay : Duration) (extra : Nat) :
    ((List.range extra).flatMap (cycleShots channels delay extra)).map (·.channel) =
      (List.replicate extra channels).flatten := by
  rw [List.map_flatMap]
  simp only [cycleShots_channels, List.flatMap_def, List.map_const', List.length_range]

theorem measured_of_cycles {extra : Nat} {zs : List (Channel × Phasor Float32)}
    {rest : List Channel}
    (h : zs.map (·.1) ++ rest = (List.replicate extra p.mask.channels).flatten) :
    (∀ z ∈ zs, p.mask.measures z.1) ∧ ∀ c ∈ rest, c ∈ p.mask.channels := by
  have hall : ∀ c ∈ zs.map (·.1) ++ rest, c ∈ p.mask.channels := by
    intro c hc
    rw [h] at hc
    obtain ⟨cs, hcs, hc⟩ := List.mem_flatten.mp hc
    rw [← List.eq_of_mem_replicate hcs]
    exact hc
  refine ⟨fun z hz => SweepMask.mem_channels.mp ?_, fun c hc => ?_⟩
  · exact hall _ (List.mem_append_left _ (List.mem_map_of_mem hz))
  · exact hall _ (List.mem_append_right _ hc)

theorem course_inv (h : p.course board w = .ok ((r, notes), w')) :
    ∃ delay extra w₁ early terms last, p.retune board w = .ok ((delay, extra), w₁) ∧
      notes = noted early terms last ∧ p.Course board extra.toNat r early terms last := by
  unfold course at h
  obtain ⟨⟨delay, extra⟩, w₁, hretune, h₁⟩ := Run.bind_inv h
  dsimp only at h₁
  have hfinal : ∀ shot ∈ (List.range extra.toNat).flatMap
      (cycleShots p.mask.channels delay extra.toNat), shot.final = false := by
    intro shot hshot
    obtain ⟨cycle, hcycle, hshot⟩ := List.mem_flatMap.mp hshot
    rw [← Bool.not_eq_true, (cycleShots_final hshot).2]
    exact Nat.ne_of_lt (List.mem_range.mp hcycle)
  rw [pointShots_eq] at h₁
  rcases gather_append h₁ with ⟨e, rfl, hearly⟩ | ⟨first, more, v, hearly, hlast, rfl⟩
  · obtain ⟨zs, rfl, c, rest, hsplit⟩ := gather_plain hfinal (Or.inl rfl) hearly
    rw [cycles_channels] at hsplit
    obtain ⟨hmeasured, hfailed⟩ := measured_of_cycles hsplit
    obtain ⟨d, ds, hchannels⟩ :=
      List.exists_cons_of_ne_nil (List.ne_nil_of_mem (hfailed c List.mem_cons_self))
    exact ⟨delay, extra, w₁, zs, none, [], hretune, (List.append_nil _).symm, hmeasured,
      fun he => (by cases he), ⟨d, ds, hchannels.symm⟩, fun _ he => by cases he⟩
  · obtain ⟨zs, rfl, hzs⟩ := gather_plain hfinal (Or.inl rfl) hearly
    rw [cycles_channels] at hzs
    have hzs : zs.map (·.1) = (List.replicate extra.toNat p.mask.channels).flatten := hzs
    obtain ⟨hmeasured, -⟩ := measured_of_cycles ((List.append_nil _).trans hzs)
    have hknown : (false || (readings false zs).any Note.isTerms) = false := by
      simp [readings, Note.isTerms]
    have hchannels := cycleShots_channels p.mask.channels delay extra.toNat extra.toNat
    rw [hknown] at hlast
    cases hcycle : cycleShots p.mask.channels delay extra.toNat extra.toNat with
    | nil =>
      -- no channel is selected
      rw [hcycle] at hlast hchannels
      obtain ⟨he, -⟩ := Run.pure_inv hlast
      cases he
      refine ⟨delay, extra, w₁, zs, none, [], hretune, rfl, hmeasured, fun _ => hzs, hchannels,
        fun hany => ?_⟩
      obtain ⟨c, hc⟩ := SweepMask.measuresAny_iff.mp hany
      have hmem := SweepMask.mem_channels.mpr hc
      rw [← hchannels] at hmem
      cases hmem
    | cons shot shots =>
      obtain ⟨terms, last, v', hfound, rfl, hthrough⟩ := gather_last (by simp [hcycle])
        (fun shot hs => (cycleShots_final hs).2.mpr rfl) hlast
      rw [hchannels] at hthrough
      exact ⟨delay, extra, w₁, zs, terms, last, hretune, rfl, hmeasured, fun _ => hzs, hthrough,
        fun _ _ => ⟨v', hfound⟩⟩

/-! ## What is kept of it -/

/-- Readings of cycles before the last leave entries of the point and the latest reflection. -/
theorem foldl_early {zs : List (Channel × Phasor Float32)} : ∀ {s : PointState N},
    (∀ z ∈ zs, p.mask.measures z.1) →
      p.SameOff s.traces ((readings false zs).foldl p.workOut s).traces ∧
      ((readings false zs).foldl p.workOut s).terms = s.terms ∧
      (¬p.mask.measures .s11 →
        ((readings false zs).foldl p.workOut s).reflection = s.reflection) := by
  induction zs with
  | nil => exact fun _ => ⟨SameOff.refl _, rfl, fun _ => rfl⟩
  | cons z zs ih =>
    intro s hz
    have hc : p.mask.measures z.1 := hz z List.mem_cons_self
    obtain ⟨hoff, hterms, hrefl⟩ := ih (s := p.workOut s (.reading z.1 false z.2))
      fun y hy => hz y (List.mem_cons_of_mem _ hy)
    refine ⟨(enter_sameOff s hc _).trans hoff, hterms, fun hno => (hrefl hno).trans ?_⟩
    obtain ⟨c, m⟩ := z
    cases c with
    | s11 => exact absurd hc hno
    | s21 => rfl

theorem foldl_last (zs : List (Channel × Phasor Float32)) (s : PointState N) :
    (readings true zs).foldl p.workOut s = zs.foldl p.record s := by
  unfold readings
  rw [List.foldl_map]
  rfl

theorem foldl_terms (terms : Option (Terms Float32)) {s : PointState N} (hs : s.terms = none) :
    (terms.toList.map Note.terms).foldl p.workOut s = { s with terms } := by
  cases s with
  | mk traces reflection found =>
    cases hs
    cases terms <;> rfl

/-- Of a measured point the last cycle is kept. -/
theorem kept_eq_settled {early last : List (Channel × Phasor Float32)}
    {terms : Option (Terms Float32)} (hearly : ∀ z ∈ early, p.mask.measures z.1)
    (hlast : last.map (·.1) = p.mask.channels) (u : Traces Float32 N) :
    p.kept u (.ok ()) (noted early terms last) = p.settled terms last u := by
  obtain ⟨hoff, hterms, hrefl⟩ := foldl_early (p := p) (s := { traces := u }) hearly
  unfold kept noted
  rw [List.foldl_append, List.foldl_append, foldl_terms terms hterms, foldl_last]
  exact (settled_eq hlast _ hrefl).trans (settled_of_sameOff hlast hoff)

end PointSetup

end NetworkAnalyzer
