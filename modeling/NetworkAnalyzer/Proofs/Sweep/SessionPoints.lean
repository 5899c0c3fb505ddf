import NetworkAnalyzer.Proofs.Calibration.Readings
import NetworkAnalyzer.Proofs.Frequencies
import NetworkAnalyzer.Proofs.Loop.Calls
import NetworkAnalyzer.Proofs.Sweep.Slices

/-!
# Where the values of a session were taken

A session hands over values with their indices, and the plan it reports says which frequency
an index stands for. `TakenAt` says at which frequency a value was in fact taken: the source
was there, and stayed there, while the readings were captured that the value settled from.

`Board.Logs board tuned` is the assumption about the board: `tuned` lists what the source was tuned
to, and nothing but a tune adds to it. "Stayed there" is then that the list did not grow (`Dwells`).

The reported plan has the points of the traces, the head's plan may have more. Both have the same
range. If points are left out, the reported plan spreads the remaining ones over the whole range,
and a point behind the first
is in general reported at another frequency than it was taken at. That of the last one is the stop,
unless the range is so narrow that rounding hides the difference (`get_eq_stop_iff`).

* `scan_taken`: every point of a scan was taken where the plan of the head has it.
* `sweep_taken`: so was every value that a pass of a session hands over. A channel that the pass
  does not select is handed over as the buffers held it.
* `sessionPlan_eq`, `sessionPlan_get`, `sessionPlan_last`: the plan that the session reports is the
  plan of the head unless the traces are too short for it. Then it spreads fewer points over the
  same range, and its frequencies are others.
* `collect_taken`: a standard that was measured through a session.
* `session_taken`: all of it, for every pass of a session and for what a calibration collects.
* `session_mislabels`: a point that a session reports at a frequency the source never had.
-/

namespace NetworkAnalyzer

variable {N : Nat} {ε : Type} {board : Board (Shared N ε)} {tuned : Shared N ε → List UInt32}

/-! ## The course of a session -/

/-- An operation of the board, or a change of the buffers. -/
inductive Board.Event (board : Board (Shared N ε)) : Shared N ε → Shared N ε → Prop
  | op {w w' : Shared N ε} : board.Op w w' → Event board w w'
  | buffers {w : Shared N ε} (b : Buffers N) : Event board w { w with buffers := b }

/-- The second state follows the first by operations of the board and changes of the buffers. -/
abbrev Board.Course (board : Board (Shared N ε)) : Shared N ε → Shared N ε → Prop :=
  Relation.ReflTransGen board.Event

/-- The second state follows the first, and the source was not tuned in between. -/
def Board.Dwells (board : Board (Shared N ε)) (tuned : Shared N ε → List UInt32)
    (w w' : Shared N ε) : Prop :=
  board.Course w w' ∧ tuned w' = tuned w

instance : IsPreorder (Shared N ε) (board.Dwells tuned) where
  refl _ := ⟨.refl, rfl⟩
  trans _ _ _ h h' := ⟨h.1.trans h'.1, h'.2.trans h.2⟩

theorem Board.Later.course {w w' : Shared N ε} (h : board.Later w w') : board.Course w w' :=
  Relation.ReflTransGen.mono (fun _ _ => .op) _ _ h

theorem Board.Frames.mono {R S : Shared N ε → Shared N ε → Prop} (hf : board.Frames R)
    (hRS : ∀ w w', R w w' → S w w') : board.Frames S where
  now _ _ _ h := hRS _ _ (hf.now h)
  relax _ _ _ h := hRS _ _ (hf.relax h)
  select c _ _ _ h := hRS _ _ (hf.select c h)
  takeSettlingCycles _ _ _ h := hRS _ _ (hf.takeSettlingCycles h)
  inputPending _ _ _ h := hRS _ _ (hf.inputPending h)
  indicate i _ _ _ h := hRS _ _ (hf.indicate i h)
  capture w c := hRS _ _ (hf.capture w c)

theorem Board.Frames.and {R S : Shared N ε → Shared N ε → Prop} (hR : board.Frames R)
    (hS : board.Frames S) : board.Frames fun w w' => R w w' ∧ S w w' where
  now _ _ _ h := ⟨hR.now h, hS.now h⟩
  relax _ _ _ h := ⟨hR.relax h, hS.relax h⟩
  select c _ _ _ h := ⟨hR.select c h, hS.select c h⟩
  takeSettlingCycles _ _ _ h := ⟨hR.takeSettlingCycles h, hS.takeSettlingCycles h⟩
  inputPending _ _ _ h := ⟨hR.inputPending h, hS.inputPending h⟩
  indicate i _ _ _ h := ⟨hR.indicate i h, hS.indicate i h⟩
  capture w c := ⟨hR.capture w c, hS.capture w c⟩

theorem Board.frames_course (board : Board (Shared N ε)) : board.Frames board.Course :=
  board.frames_later.mono fun _ _ => Later.course

theorem Board.tune_course (board : Board (Shared N ε)) (f : UInt32) :
    Moves board.Course (board.tune f) := fun _ _ _ h => .single (.op (.tune h))

theorem Board.Logs.dwells (hlog : board.Logs tuned) : board.Frames (board.Dwells tuned) :=
  board.frames_course.and hlog.frames

theorem Board.Logs.op (hlog : board.Logs tuned) {w w' : Shared N ε} (h : board.Op w w') :
    tuned w <+: tuned w' := by
  have kept : ∀ {w w'}, Keeps tuned w w' → tuned w <+: tuned w' := fun h => h ▸ List.prefix_rfl
  cases h with
  | tune h => exact ⟨_, (hlog.tune h).symm⟩
  | now h => exact kept (hlog.frames.now h)
  | relax h => exact kept (hlog.frames.relax h)
  | select h => exact kept (hlog.frames.select _ h)
  | takeSettlingCycles h => exact kept (hlog.frames.takeSettlingCycles h)
  | inputPending h => exact kept (hlog.frames.inputPending h)
  | indicate h => exact kept (hlog.frames.indicate _ h)
  | capture c => exact kept (hlog.frames.capture _ c)

theorem Board.Logs.course (hlog : board.Logs tuned)
    (hbuffers : ∀ w b, tuned { w with buffers := b } = tuned w) {w w' : Shared N ε}
    (h : board.Course w w') : tuned w <+: tuned w' := by
  induction h with
  | refl => exact List.prefix_rfl
  | tail _ hevent ih =>
    cases hevent with
    | buffers b => exact ih.trans ⟨[], (List.append_nil _).trans (hbuffers _ b).symm⟩
    | op hop => exact ih.trans (hlog.op hop)

namespace SweepHead

/-! ## Taking a value -/

/-- What point `i` is measured with at `f`, without a calibration. -/
def pointAt (mask : SweepMask) (config : SweepConfig) (f : UInt32) (i : Nat) : PointSetup N where
  index := i.toUInt16
  frequency := f
  mask := mask
  config := config
  calibration := none
  gain := Pass.gainOf config mask

theorem pointOf_none (mask : SweepMask) (h : SweepHead) (i : Nat) :
    (Pass.pointOf none mask h i : PointSetup N) =
      pointAt mask h.config (h.plan.get i.toUInt16) i := by
  simp [Pass.pointOf, pointAt]

/-- Somewhere between `w` and `w'` the source was at `f`, and while it stayed there each selected
channel was captured for the last settling cycle of point `i`; `z` is what these readings leave
at the point on channel `c`. -/
def TakenAt (board : Board (Shared N ε)) (tuned : Shared N ε → List UInt32) (mask : SweepMask)
    (config : SweepConfig) (f : UInt32) (w w' : Shared N ε) (c : Channel) (i : Nat)
    (z : Phasor Float32) : Prop :=
  ∃ (readings : List (Channel × Phasor Float32)) (v v' : Shared N ε),
    board.Course w v ∧ (tuned v).getLast? = some f ∧ board.Dwells tuned v v' ∧
    readings.map (·.1) = mask.channels ∧
    (∀ m ∈ readings,
      (pointAt mask config f i : PointSetup N).Captured (board.Dwells tuned) board m.1 m.2 v v') ∧
    board.Course v' w' ∧
    ∀ u : Traces Float32 N,
      ((pointAt mask config f i).settled none readings u).entry c i = some z

variable {head head' : SweepHead} {mask : SweepMask} {w w' : Shared N ε} {c : Channel}

/-- A point that was measured was taken where it lies. -/
theorem measure_taken (hlog : board.Logs tuned) (hc : mask.measures c) {config : SweepConfig}
    {f : UInt32} {i : Nat} (hi : i < 65536) {u u' : Traces Float32 N} {v v' : Shared N ε}
    (hmeasure : (pointAt mask config f i).measure board u v = .ok ((.ok (), u'), v'))
    (hbefore : board.Course w v) (hafter : board.Course v' w') {z : Phasor Float32}
    (hz : u'.entry c i = some z) : TakenAt board tuned mask config f w w' c i z := by
  have hany : (pointAt mask config f i : PointSetup N).mask.measuresAny :=
    SweepMask.measuresAny_iff.mpr ⟨c, hc⟩
  have hindex : (pointAt mask config f i : PointSetup N).index.toNat = i :=
    UInt16.toNat_ofNat_of_lt' hi
  obtain ⟨readings, terms, v₁, _, hretuned, hready, hdone, hchannels, hcaptured, hterms, rfl⟩ :=
    PointSetup.measure_ok hlog.dwells hany hmeasure
  cases hterms
  refine ⟨readings, v₁, v', ?_, ?_, trans_of _ hready hdone, hchannels, hcaptured, hafter,
    fun u₁ => ?_⟩
  · exact hbefore.trans (hretuned.moves board.tune_course)
  · rw [Pass.retuned_tunes hlog hany hretuned, List.getLast?_concat]
    rfl
  · have hsettled := @PointSetup.settled_entry _ _ none _ hchannels u₁ u _ hc
    rw [hindex] at hsettled
    exact hsettled.trans hz

/-- A scan that completes measures every point where the plan of the head has it, and leaves
the other channels as the buffers held them. -/
theorem scan_taken (hlog : board.Logs tuned) {t : Traces Float32 N}
    (hscan : head.scan board none mask w = .ok ((.ok t, head'), w')) :
    head'.plan = head.plan ∧ head'.config = head.config ∧ board.Course w w' ∧
      ∀ i < (head.points N).toNat, ∀ c z, t.entry c i = some z →
        (mask.measures c →
          TakenAt board tuned mask head.config (head.plan.get i.toUInt16) w w' c i z) ∧
        (¬mask.measures c → ∃ v, board.Course w v ∧ board.Course v w' ∧
          v.buffers.traces.entry c i = some z) := by
  obtain ⟨-, ⟨e, he⟩, -⟩ | ⟨w₀, outcome, u', w₁, hw₀, -, hexecute, hr, rfl⟩ :=
    scan_inv board.frames_course hscan
  · cases he
  · obtain ⟨hplan, hconfig, ⟨hempty, -⟩ | ⟨-, n, t', w₃, hstretch, hended⟩⟩ :=
      Pass.execute_inv board.frames_course hexecute
    · cases hempty
    cases hended with
    | yielded => cases hr
    | aborted => cases hr
    | completed hstate htraces hlast =>
      cases hr
      obtain rfl : u' = t' := htraces
      have hstart := hw₀.tail (.buffers
        { w₀.buffers with role := .sweeping, points := head.points N })
      have hpass := hstretch.moves board.frames_course board.tune_course
      have hstop := hlast.tail (.buffers ({ w₁.buffers with traces := u' }.finish true))
      have hsize : (head.points N).toNat < 65536 := (head.points N).toNat_lt
      refine ⟨hplan, hconfig, hstart.trans (hpass.trans hstop), fun i hi c z hz => ⟨?_, ?_⟩⟩
      · intro hc
        obtain ⟨u₀, v₀, u₁, v₁, hmeasure, hentry, hbetween⟩ :=
          hstretch.measured board.frames_course (Nat.le_of_lt hsize) (Nat.zero_le i) hi
        obtain ⟨hbefore, hafter⟩ := hbetween board.tune_course
        rw [pointOf_none] at hmeasure
        exact measure_taken hlog hc (Nat.lt_trans hi hsize) hmeasure (hstart.trans hbefore)
          (hafter.trans hstop) ((hentry c).symm.trans hz)
      · intro hc
        refine ⟨_, hstart, hpass.trans hstop, ?_⟩
        rw [← hstretch.frame board.frames_course (Nat.le_of_lt hsize) c i fun hin => hc hin.1]
        exact hz

/-! ## Passes of a session -/

theorem TakenAt.mono {config : SweepConfig} {f : UInt32} {v v' : Shared N ε} {i : Nat}
    {z : Phasor Float32} (hbefore : board.Course w v) (hafter : board.Course v' w')
    (h : TakenAt board tuned mask config f v v' c i z) :
    TakenAt board tuned mask config f w w' c i z := by
  obtain ⟨readings, u, u', hu, hlast, hdwells, hchannels, hcaptured, hu', hz⟩ := h
  exact ⟨readings, u, u', hbefore.trans hu, hlast, hdwells, hchannels, hcaptured,
    hu'.trans hafter, hz⟩

theorem handOver_indices (h : SweepHead) (t : Traces Float32 N) (c : Channel) :
    (h.handOver t c).map (·.1) = List.range (h.points N).toNat := by
  have hN : (h.points N).toNat ≤ N := Nat.le_trans h.points_le (Nat.min_le_right _ _)
  unfold handOver
  rw [List.map_map]
  change List.map Prod.snd _ = _
  rw [List.zipIdx_map_snd, List.length_take, Vector.length_toList, Nat.min_eq_left hN,
    List.range_eq_range']

theorem entry_of_mem_handOver {h : SweepHead} {t : Traces Float32 N} {i : Nat}
    {z : Phasor Float32} (hz : (i, z) ∈ h.handOver t c) :
    i < (h.points N).toNat ∧ t.entry c i = some z := by
  obtain ⟨⟨z', i'⟩, hmem, he⟩ := List.mem_map.mp hz
  cases he
  have hget := List.mem_zipIdx_iff_getElem?.mp hmem
  rw [List.getElem?_take] at hget
  split at hget
  · rename_i hi
    exact ⟨hi, by simpa [Traces.entry] using hget⟩
  · cases hget

theorem sweep_inv {values : List (Nat × Phasor Float32)}
    (h : (sweeper board).sweep mask c (head, w) = .ok (⟨values, .ok ()⟩, (head', w'))) :
    ∃ t, head.scan board none mask w = .ok ((.ok t, head'), w') ∧ values = head'.handOver t c := by
  obtain ⟨r, hscan, ⟨e, -, he⟩ | ⟨t, rfl, he⟩⟩ := sweep_scan h
  · cases he
  · exact ⟨t, hscan, congrArg Delivery.values he⟩

/-- A pass of a session hands over its points in order, each taken where the plan of the head
has it. A channel that the pass does not select is handed over as the buffers held it. -/
theorem sweep_taken (hlog : board.Logs tuned) {values : List (Nat × Phasor Float32)}
    (h : (sweeper board).sweep mask c (head, w) = .ok (⟨values, .ok ()⟩, (head', w'))) :
    head'.plan = head.plan ∧ head'.config = head.config ∧ board.Course w w' ∧
      values.map (·.1) = List.range (head.points N).toNat ∧
      ∀ i z, (i, z) ∈ values →
        (mask.measures c →
          TakenAt board tuned mask head.config (head.plan.get i.toUInt16) w w' c i z) ∧
        (¬mask.measures c → ∃ v, board.Course w v ∧ board.Course v w' ∧
          v.buffers.traces.entry c i = some z) := by
  obtain ⟨t, hscan, rfl⟩ := sweep_inv h
  obtain ⟨hplan, hconfig, hmoved, htaken⟩ := scan_taken hlog hscan
  have hpoints : head'.points N = head.points N := points_congr hplan
  refine ⟨hplan, hconfig, hmoved, hpoints ▸ handOver_indices head' t c, fun i z hz => ?_⟩
  obtain ⟨hi, hentry⟩ := entry_of_mem_handOver hz
  exact htaken i (hpoints ▸ hi) c z hentry

/-! ## The plan that a session reports -/

/-- On traces that hold the whole plan, the session reports the plan of the head. -/
theorem sessionPlan_eq (h : head.plan.points ≤ N.toUInt16) : head.sessionPlan N = head.plan := by
  have hpoints : head.points N = head.plan.points := if_pos h
  unfold sessionPlan
  rw [hpoints]

/-- Where point `i` of a session lies, and where the session reports it: both plans spread
their points over the same range. -/
theorem sessionPlan_get (hmany : 2 ≤ (head.points N).toNat) {i : UInt16}
    (hi : i.toNat < (head.points N).toNat) :
    (head.plan.get i).toNat = head.plan.start.toNat +
        (head.plan.span.toNat * i.toNat + (head.plan.points.toNat - 1) / 2) /
          (head.plan.points.toNat - 1) ∧
      ((head.sessionPlan N).get i).toNat = head.plan.start.toNat +
        (head.plan.span.toNat * i.toNat + ((head.points N).toNat - 1) / 2) /
          ((head.points N).toNat - 1) := by
  have hle := Nat.le_trans head.points_le (Nat.min_le_left _ N)
  refine ⟨FrequencyPlan.toNat_get (by omega) (by omega) (by omega), ?_⟩
  have hsession : (head.sessionPlan N).points.toNat = (head.points N).toNat - 1 + 1 := by
    change (head.points N).toNat = _
    omega
  exact FrequencyPlan.toNat_get hsession (by omega) (by omega)

/-- The last point of a session is reported at the stop. It lies there exactly when the points
left out are so few hertz that rounding hides them. -/
theorem sessionPlan_last (hmany : 2 ≤ (head.points N).toNat)
    (hrange : head.plan.start ≤ head.plan.stop) {i : UInt16}
    (hi : i.toNat + 1 = (head.points N).toNat) :
    (head.sessionPlan N).get i = head.plan.stop ∧
      (head.plan.get i = head.plan.stop ↔
        head.plan.span.toNat * (head.plan.points.toNat - (head.points N).toNat) ≤
          (head.plan.points.toNat - 1) / 2) := by
  have hle := Nat.le_trans head.points_le (Nat.min_le_left _ N)
  exact ⟨FrequencyPlan.get_last (p := head.sessionPlan N) hmany hrange hi,
    FrequencyPlan.get_eq_stop_iff (by omega) (by omega) (by omega) hrange⟩

end SweepHead

/-! ## What a session takes -/

namespace SweepHead

variable {head head' : SweepHead} {mask : SweepMask} {w w' : Shared N ε} {c : Channel}

/-- What passes and bandwidths do to a session. -/
def Onward (board : Board (Shared N ε)) (s s' : SweepHead × Shared N ε) : Prop :=
  s'.1.plan = s.1.plan ∧ (∃ b, s'.1.config = { s.1.config with bandwidth := b }) ∧
    board.Course s.2 s'.2

instance : IsPreorder (SweepHead × Shared N ε) (Onward board) where
  refl s := ⟨rfl, ⟨s.1.config.bandwidth, rfl⟩, .refl⟩
  trans := by
    rintro s s' s'' ⟨hplan, ⟨b, hconfig⟩, hmoved⟩ ⟨hplan', ⟨b', hconfig'⟩, hmoved'⟩
    exact ⟨hplan'.trans hplan, ⟨b', by rw [hconfig', hconfig]⟩, hmoved.trans hmoved'⟩

/-- A standard that was measured through a session: the calibration is on the plan that the
session reports, and holds the mean of passes that were taken on the plan of the head, at some
bandwidth. -/
theorem collect_taken (hlog : board.Logs tuned) {s : Standard} {averaging : UInt16}
    {cal cal' : Calibration Float32 N}
    (h : head.collect board s averaging cal w = .ok ((.ok (), cal', head'), w')) :
    cal'.plan = head.sessionPlan N ∧ ∃ passes, passes ≠ [] ∧
      (∀ i < (head.points N).toNat,
        cal'.valueAt s.slot i = some (Calibration.mean i passes 0)) ∧
      ∀ pass ∈ passes, pass.map (·.1) = List.range (head.points N).toNat ∧
        ∃ b, ∀ i z, (i, z) ∈ pass →
          TakenAt board tuned (.raw s.channel) { head.config with bandwidth := b }
            (head.plan.get i.toUInt16) w w' s.channel i z := by
  obtain ⟨passes, hreading, hplan, -, -, hmean⟩ := Calibration.collect_inv (collect_inv h)
  have hsweep : ∀ {v d v'},
      (sweeper board).sweep (.raw s.channel) s.channel v = .ok (d, v') → d.outcome = .ok () →
        Onward board v v' := by
    intro v d v' hsw hok
    obtain ⟨values, outcome⟩ := d
    cases hok
    obtain ⟨hplan, hconfig, hmoved, -⟩ := sweep_taken hlog hsw
    exact ⟨hplan, ⟨v.1.config.bandwidth, hconfig⟩, hmoved⟩
  -- Between two passes the analysis sets the bandwidth, which `Onward` leaves open.
  have hset : ∀ b, Moves (Onward board) ((sweeper (N := N) board).setBandwidth b) := fun b =>
    .modify fun v => ⟨rfl, ⟨b, rfl⟩, .refl⟩
  have hall : ∀ pass ∈ passes, pass.map (·.1) = List.range (head.points N).toNat ∧
      ∃ b, ∀ i z, (i, z) ∈ pass →
        TakenAt board tuned (.raw s.channel) { head.config with bandwidth := b }
          (head.plan.get i.toUInt16) w w' s.channel i z := by
    intro pass hin
    obtain ⟨v, v', ⟨hplan, ⟨b, hconfig⟩, hbefore⟩, hsw, -, -, hafter⟩ :=
      Sweeper.reading_sweeps hset hsweep hreading pass hin
    obtain ⟨-, -, -, hindices, htaken⟩ := sweep_taken hlog hsw
    rw [points_congr hplan] at hindices
    refine ⟨hindices, b, fun i z hz => ?_⟩
    have hraw : (SweepMask.raw s.channel).measures s.channel := by
      cases s.channel <;> decide
    have := ((htaken i z hz).1 hraw).mono hbefore hafter
    rw [hplan, hconfig] at this
    exact this
  obtain ⟨hne, hvalue⟩ := hmean rfl
  refine ⟨hplan, passes, hne, fun i hi => ?_, hall⟩
  have hN : (head.points N).toNat ≤ N := Nat.le_trans head.points_le (Nat.min_le_right _ _)
  have hpoints : cal'.points = (head.points N).toNat := by
    unfold Calibration.points
    rw [hplan]
    exact Nat.min_eq_left hN
  refine hvalue i (hpoints ▸ hi) fun pass hin => ?_
  have hmem : i ∈ pass.map (·.1) := by
    rw [(hall pass hin).1]
    exact List.mem_range.mpr hi
  obtain ⟨⟨j, z⟩, hz, rfl⟩ := List.mem_map.mp hmem
  exact ⟨z, hz⟩

/-- Where the values of a session were taken, and where it reports them. Every pass hands over
the points of the reported plan, in order. A value of a channel that the pass selects was taken
where the plan of the head has its index, and so was everything that a calibration collects. The
reported plan is the plan of the head as far as the traces reach: on traces that hold all of it
the frequencies are the same, and otherwise both plans spread their points over the same range,
so that the last one is reported at the stop and was taken before it, unless the points left out
are so few hertz that rounding hides them. -/
theorem session_taken (hlog : board.Logs tuned) (head : SweepHead) (w : Shared N ε) :
    (∀ mask c values head' w',
      (sweeper board).sweep mask c (head, w) = .ok (⟨values, .ok ()⟩, (head', w')) →
      values.map (·.1) = List.range ((sweeper board).plan (head, w)).points.toNat ∧
      ∀ i z, (i, z) ∈ values →
        (mask.measures c →
          TakenAt board tuned mask head.config (head.plan.get i.toUInt16) w w' c i z) ∧
        (¬mask.measures c → ∃ v, board.Course w v ∧ board.Course v w' ∧
          v.buffers.traces.entry c i = some z)) ∧
    (∀ s averaging cal cal' head' w',
      head.collect board s averaging cal w = .ok ((.ok (), cal', head'), w') →
      cal'.plan = (sweeper board).plan (head, w) ∧ ∃ passes, passes ≠ [] ∧
        (∀ i < cal'.plan.points.toNat,
          cal'.valueAt s.slot i = some (Calibration.mean i passes 0)) ∧
        ∀ pass ∈ passes, pass.map (·.1) = List.range cal'.plan.points.toNat ∧
          ∃ b, ∀ i z, (i, z) ∈ pass →
            TakenAt board tuned (.raw s.channel) { head.config with bandwidth := b }
              (head.plan.get i.toUInt16) w w' s.channel i z) ∧
    (head.plan.points ≤ N.toUInt16 ∨ (head.points N).toNat ≤ 1 → ∀ i : UInt16,
      i.toNat < (head.points N).toNat →
        ((sweeper board).plan (head, w)).get i = head.plan.get i) ∧
    (2 ≤ (head.points N).toNat → ∀ i : UInt16, i.toNat < (head.points N).toNat →
      (head.plan.get i).toNat = head.plan.start.toNat +
        (head.plan.span.toNat * i.toNat + (head.plan.points.toNat - 1) / 2) /
          (head.plan.points.toNat - 1) ∧
      (((sweeper board).plan (head, w)).get i).toNat = head.plan.start.toNat +
        (head.plan.span.toNat * i.toNat + ((head.points N).toNat - 1) / 2) /
          ((head.points N).toNat - 1) ∧
      (i.toNat + 1 = (head.points N).toNat → head.plan.start ≤ head.plan.stop →
        ((sweeper board).plan (head, w)).get i = head.plan.stop ∧
        (head.plan.get i = head.plan.stop ↔
          head.plan.span.toNat * (head.plan.points.toNat - (head.points N).toNat) ≤
            (head.plan.points.toNat - 1) / 2))) := by
  refine ⟨fun mask c values head' w' h => ?_, fun s averaging cal cal' head' w' h => ?_, ?_, ?_⟩
  · obtain ⟨-, -, -, hindices, htaken⟩ := sweep_taken hlog h
    exact ⟨hindices, htaken⟩
  · obtain ⟨hplan, passes, hne, hmean, htaken⟩ := collect_taken hlog h
    rw [hplan]
    exact ⟨rfl, passes, hne, hmean, htaken⟩
  · rintro (hfits | hone) i hi
    · exact congrArg (·.get i) (sessionPlan_eq hfits)
    · obtain rfl : i = 0 := UInt16.toNat_inj.mp (by simp only [UInt16.toNat_zero]; omega)
      exact (head.sessionPlan N).get_zero.trans head.plan.get_zero.symm
  · intro hmany i hi
    obtain ⟨hat, hreported⟩ := sessionPlan_get hmany hi
    exact ⟨hat, hreported, fun hlast hrange => sessionPlan_last hmany hrange hlast⟩

/-! ### Four points on traces of two -/

def fourPoints : SweepHead := { plan := ⟨1000, 4000, 4⟩ }

theorem sweep_fourPoints : ∃ values head' w',
    (sweeper (N := 2) TestSet.source).sweep (.raw .s11) .s11 (fourPoints, { environment := {} }) =
      .ok (⟨values, .ok ()⟩, (head', w')) ∧ w'.environment.tuned = [1000, 2000] :=
  ⟨_, _, _, rfl, rfl⟩

theorem session_taken_fourPoints : ∃ values head' w',
    (sweeper (N := 2) TestSet.source).sweep (.raw .s11) .s11 (fourPoints, { environment := {} }) =
      .ok (⟨values, .ok ()⟩, (head', w')) ∧
    values.map (·.1) = [0, 1] ∧
    (∀ z, (1, z) ∈ values → TakenAt TestSet.source (·.environment.tuned) (.raw .s11) {} 2000
      { environment := {} } w' .s11 1 z) ∧
    (fourPoints.sessionPlan 2).get 1 = 4000 := by
  obtain ⟨values, head', w', hsweep, -⟩ := sweep_fourPoints
  obtain ⟨hpasses, -, -, hreported⟩ :=
    session_taken TestSet.logs fourPoints ({ environment := {} } : Shared 2 TestSet)
  obtain ⟨hindices, htaken⟩ := hpasses _ _ _ _ _ hsweep
  refine ⟨values, head', w', hsweep, hindices, fun z hz => (htaken 1 z hz).1 (by decide), ?_⟩
  exact ((hreported (by decide) 1 (by decide)).2.2 (by decide) (by decide)).1

/-- The session reports its second point at 4 kHz and took it at 2 kHz: the source was never
at 4 kHz. -/
theorem session_mislabels : ∃ values head' w' z,
    (sweeper (N := 2) TestSet.source).sweep (.raw .s11) .s11 (fourPoints, { environment := {} }) =
      .ok (⟨values, .ok ()⟩, (head', w')) ∧
    (1, z) ∈ values ∧
    ((sweeper (N := 2) TestSet.source).plan (fourPoints, { environment := {} })).points = 2 ∧
    ¬TakenAt TestSet.source (·.environment.tuned) (.raw .s11) {}
      (((sweeper (N := 2) TestSet.source).plan (fourPoints, { environment := {} })).get 1)
      { environment := {} } w' .s11 1 z := by
  obtain ⟨values, head', w', hsweep, htuned⟩ := sweep_fourPoints
  obtain ⟨-, -, -, hindices, -⟩ := sweep_taken TestSet.logs hsweep
  have hmem : 1 ∈ values.map (·.1) := by
    rw [hindices]
    decide
  obtain ⟨⟨i, z⟩, hz, rfl⟩ := List.mem_map.mp hmem
  refine ⟨values, head', w', z, hsweep, hz, rfl, ?_⟩
  rintro ⟨readings, v, v', -, hlast, hdwells, -, -, hafter, -⟩
  have hlogged := TestSet.logs.course (fun _ _ => rfl) (hdwells.1.trans hafter)
  have hnever : (4000 : UInt32) ∈ w'.environment.tuned :=
    hlogged.subset (List.mem_of_getLast? hlast)
  rw [htuned] at hnever
  exact absurd hnever (by decide)

end SweepHead

end NetworkAnalyzer
