import NetworkAnalyzer.Proofs.Sweep.Call

/-!
# Sliced passes

A breakable pass may yield any number of times before it is complete. `Slices` is such a
sequence of calls, up to the first that measured every point. Whatever the calls yielded
to, together they do what one call that is not breakable does.

`Board.Logs board tuned` says that `tuned` lists the frequencies the board was tuned to;
`Board.Steady` that a capture depends on its channel and on the frequency alone. The first is
enough for what is tuned to and for what is left alone. The second is needed to compare values,
since two passes are made at different times.

`Covers` is what calls in a row have in common with a single one: from point `a` to point `b`
everything was tuned to once, in order, nothing else was touched, and on a steady board the points
hold the settled responses. It composes, and it depends on the plan and the parameters of the head
only.

* `execute_tunes`: the frequencies of one call.
* `Stretch.responds`, `Responds.unique`: the values of a stretch on a steady board.
* `Covers.append`, `Slices.covers`: frequencies and entries of all calls
  together, by induction over the calls.
* `execute_failed`, `StartsOver`: a call after a failure starts over, and so does every call that
  is not breakable.
* `slices_refine_call`: a sliced pass tunes to every point once, in order, and leaves the
  traces of a single call.
* `slices_refine_call_twoPoints`: two calls of one point each, against one call of two points.
-/

namespace NetworkAnalyzer

variable {N : Nat} {ε : Type} {board : Board (Shared N ε)} {tuned : Shared N ε → List UInt32}

/-- `tuned` lists what the board was tuned to so far. -/
structure Board.Logs (board : Board (Shared N ε)) (tuned : Shared N ε → List UInt32) : Prop where
  frames : board.Frames (Keeps tuned)
  tune : ∀ {f w delay w'}, board.tune f w = .ok (delay, w') → tuned w' = tuned w ++ [f]

/-- A capture armed after the selection of `c` reads `value c f`, where `f` is what the
board was last tuned to, and the harmonic bands are fixed. -/
structure Board.Steady (board : Board (Shared N ε)) (tuned : Shared N ε → List UInt32)
    (config : SweepConfig) (bands : UInt32 → UInt32)
    (value : Channel → UInt32 → Phasor Float32) : Prop where
  band : ∀ w, board.band w = bands
  capture : ∀ {c f w w₁ w₂ w₃ now settle}, (tuned w).getLast? = some f →
    board.select c w = .ok ((), w₁) → board.now w₁ = .ok (now, w₂) →
    Shared.awaitCapture board.toTimebase Parameters.captureTimeout
      { w₂ with capture := w₂.capture.arm now settle config.bandwidth } = .ok (.ok (), w₃) →
    w₃.capture.value config.sampler = value c f

/-- The frequencies of the points from `a` to `b`. -/
def SweepHead.frequenciesFrom (h : SweepHead) (a b : Nat) : List UInt32 :=
  (List.range' a (b - a)).map fun i => h.plan.get i.toUInt16

theorem SweepHead.frequenciesFrom_append (h : SweepHead) {a b c : Nat} (hab : a ≤ b)
    (hbc : b ≤ c) :
    h.frequenciesFrom a b ++ h.frequenciesFrom b c = h.frequenciesFrom a c := by
  unfold frequenciesFrom
  rw [← List.map_append]
  congr 1
  rw [show c - a = b - a + (c - b) by omega, ← List.range'_append_1,
    show a + (b - a) = b by omega]

theorem SweepMask.not_isEmpty {m : SweepMask} (h : m.measuresAny) : m.isEmpty = false := by
  obtain ⟨c, hc⟩ := SweepMask.measuresAny_iff.mp h
  exact Flags.not_isEmpty hc

namespace Pass

variable {calibration : Option (Calibration Float32 N)} {mask : SweepMask} {h₀ : SweepHead}
  {p p' : Pass N} {u u' : Traces Float32 N} {w w' : Shared N ε} {a b : Nat}

/-! ## Frequencies -/

theorem retuned_tunes (hlog : board.Logs tuned) {point : PointSetup N}
    (hany : point.mask.measuresAny) (h : point.Retuned board w w') :
    tuned w' = tuned w ++ [point.frequency] := by
  unfold PointSetup.Retuned at h
  rw [if_pos hany] at h
  obtain ⟨delay, h⟩ := h
  exact hlog.tune h

theorem measure_tunes (hlog : board.Logs tuned) {point : PointSetup N}
    (hany : point.mask.measuresAny) {r : Except Failure Unit}
    (h : point.measure board u w = .ok ((r, u'), w')) :
    tuned w' = tuned w ++ [point.frequency] := by
  obtain ⟨⟨w₁, hretuned, hmoved⟩, -⟩ := PointSetup.measure_frame hlog.frames h
  exact Eq.trans hmoved (retuned_tunes hlog hany hretuned)

theorem Stretch.tunes (hlog : board.Logs tuned) (hany : mask.measuresAny)
    (h : Stretch (Keeps tuned) board (pointOf calibration mask h₀) a b u w u' w') :
    tuned w' = tuned w ++ h₀.frequenciesFrom a b := by
  induction h with
  | @nil a u w w' hw =>
    have hnil : h₀.frequenciesFrom a a = [] := by simp [SweepHead.frequenciesFrom]
    rw [hnil, List.append_nil]
    exact hw
  | @cons a b u u₁ u' w w₁ w₂ w' hw hmeasure hrest ih =>
    have hfirst : h₀.frequenciesFrom a (a + 1) = [h₀.plan.get a.toUInt16] := by
      simp [SweepHead.frequenciesFrom]
    have hpoint : (pointOf calibration mask h₀ a).mask.measuresAny := hany
    rw [ih, measure_tunes hlog hpoint hmeasure, show tuned w₁ = tuned w from hw, List.append_assoc,
      ← h₀.frequenciesFrom_append (Nat.le_succ a) hrest.le, hfirst]
    rfl

/-- Where a call stands that tuned to the points from `a` to `b` of `n`: at the end, before
point `b`, or nowhere because point `b - 1` failed. -/
def StandsAt (a b n : Nat) (state : PassState) : Except Failure Bool → Prop
  | .ok true => b = n
  | .ok false => b < n ∧ state = .stepping b.toUInt16
  | .error _ => a < b ∧ state = .aborted

theorem execute_tunes (hlog : board.Logs tuned) (hany : mask.measuresAny) {breakable : Bool}
    {r : Except Failure Bool}
    (h : p.execute board calibration breakable mask w = .ok ((r, p'), w')) :
    ∃ b, p.head.startPoint N breakable ≤ b ∧ b ≤ (p.head.points N).toNat ∧
      tuned w' = tuned w ++ p.head.frequenciesFrom (p.head.startPoint N breakable) b ∧
      StandsAt (p.head.startPoint N breakable) b (p.head.points N).toNat p'.head.state r := by
  obtain ⟨-, -, ⟨hempty, -⟩ | ⟨-, b, u, w₁, hstretch, hended⟩⟩ := execute_inv hlog.frames h
  · rw [SweepMask.not_isEmpty hany, Bool.and_false] at hempty
    cases hempty
  · have htuned := hstretch.tunes hlog hany
    have hle := hstretch.le
    cases hended with
    | completed hstate _ hmoved =>
      exact ⟨_, hle, Nat.le_refl _, Eq.trans hmoved htuned, rfl⟩
    | yielded hlt hstate _ hmoved =>
      exact ⟨b, hle, Nat.le_of_lt hlt, Eq.trans hmoved htuned, hlt, hstate⟩
    | @aborted _ e _ w₂ w₃ _ hlt hstate hbefore hmeasure hafter =>
      refine ⟨b + 1, Nat.le_succ_of_le hle, hlt, ?_, Nat.lt_succ_of_le hle, hstate⟩
      have hlast : p.head.frequenciesFrom b (b + 1) = [p.head.plan.get b.toUInt16] := by
        simp [SweepHead.frequenciesFrom]
      have hpoint : (pointOf calibration mask p.head b).mask.measuresAny := hany
      rw [show tuned w' = tuned w₃ from hafter, measure_tunes hlog hpoint hmeasure,
        show tuned w₂ = tuned w₁ from hbefore, htuned, List.append_assoc,
        ← p.head.frequenciesFrom_append hle (Nat.le_succ b), hlast]
      rfl

/-! ## Values -/

/-- Channel `c` holds at the point what readings of the response settle to. -/
def Responds (bands : UInt32 → UInt32) (value : Channel → UInt32 → Phasor Float32)
    (point : PointSetup N) (t : Traces Float32 N) (c : Channel) : Prop :=
  ∃ terms, point.finalTerms bands = .ok terms ∧ ∀ u, t.entry c point.index.toNat =
    (point.settled terms (point.mask.channels.map fun d => (d, value d point.frequency)) u).entry
      c point.index.toNat

theorem Responds.unique {bands : UInt32 → UInt32} {value : Channel → UInt32 → Phasor Float32}
    {point : PointSetup N} {t t' : Traces Float32 N} {c : Channel}
    (h : Responds bands value point t c) (h' : Responds bands value point t' c) :
    t.entry c point.index.toNat = t'.entry c point.index.toNat := by
  obtain ⟨terms, hterms, hentry⟩ := h
  obtain ⟨terms', hterms', hentry'⟩ := h'
  cases hterms.symm.trans hterms'
  rw [hentry t, hentry' t]

variable {bands : UInt32 → UInt32} {value : Channel → UInt32 → Phasor Float32}

theorem measure_responds (hlog : board.Logs tuned) {point : PointSetup N}
    (hsteady : board.Steady tuned point.config bands value) (hany : point.mask.measuresAny)
    (h : point.measure board u w = .ok ((.ok (), u'), w')) {c : Channel}
    (hc : point.mask.measures c) : Responds bands value point u' c := by
  obtain ⟨readings, terms, w₁, v, hretuned, -, -, hchannels, hcaptured, hterms, rfl⟩ :=
    PointSetup.measure_ok hlog.frames hany h
  have htuned := retuned_tunes hlog hany hretuned
  have hreading : ∀ z ∈ readings, z.2 = value z.1 point.frequency := by
    intro z hz
    obtain ⟨v₀, v₁, v₂, v₃, now, settle, hkept, hselect, hnow, hwait, hm, -⟩ := hcaptured z hz
    rw [hm]
    refine hsteady.capture ?_ hselect hnow hwait
    rw [show tuned v₀ = tuned w₁ from hkept, htuned, List.getLast?_concat]
  have hreadings : readings = point.mask.channels.map fun d => (d, value d point.frequency) := by
    rw [← hchannels, List.map_map]
    conv => lhs; rw [← List.map_id readings]
    refine List.map_congr_left fun z hz => ?_
    exact Prod.ext rfl (hreading z hz)
  rw [hsteady.band] at hterms
  refine ⟨terms, hterms, fun t => ?_⟩
  rw [← hreadings]
  exact PointSetup.settled_entry hchannels u t hc

theorem index_pointOf {i : Nat} (hi : i < 65536) :
    (pointOf calibration mask h₀ i).index.toNat = i :=
  UInt16.toNat_ofNat_of_lt' hi

theorem Stretch.responds (hlog : board.Logs tuned)
    (hsteady : board.Steady tuned h₀.config bands value) (hb : b ≤ 65536)
    (h : Stretch (Keeps tuned) board (pointOf calibration mask h₀) a b u w u' w') {c : Channel}
    (hc : mask.measures c) {i : Nat} (ha : a ≤ i) (hi : i < b) :
    Responds bands value (pointOf calibration mask h₀ i) u' c := by
  obtain ⟨u₀, v₀, u₁, v₁, hmeasure, hentry, -⟩ := h.measured hlog.frames hb ha hi
  have hany : (pointOf calibration mask h₀ i).mask.measuresAny :=
    SweepMask.measuresAny_iff.mpr ⟨c, hc⟩
  obtain ⟨terms, hterms, hvalue⟩ := measure_responds hlog hsteady hany hmeasure hc
  refine ⟨terms, hterms, fun t => ?_⟩
  rw [← hvalue t, index_pointOf (by omega)]
  exact hentry c

/-! ## Calls in a row -/

/-- The points from `a` to `b` tuned to and measured, and nothing else. -/
structure Covers (board : Board (Shared N ε)) (tuned : Shared N ε → List UInt32)
    (calibration : Option (Calibration Float32 N)) (mask : SweepMask) (h₀ : SweepHead)
    (a b : Nat) (u : Traces Float32 N) (w : Shared N ε) (u' : Traces Float32 N)
    (w' : Shared N ε) : Prop where
  tunes : tuned w' = tuned w ++ h₀.frequenciesFrom a b
  frame : ∀ c j, ¬(mask.measures c ∧ a ≤ j ∧ j < b) → u'.entry c j = u.entry c j
  responds : ∀ bands value, board.Steady tuned h₀.config bands value → ∀ c, mask.measures c →
    ∀ i, a ≤ i → i < b → Responds bands value (pointOf calibration mask h₀ i) u' c

theorem Stretch.covers (hlog : board.Logs tuned) (hany : mask.measuresAny) (hb : b ≤ 65536)
    (h : Stretch (Keeps tuned) board (pointOf calibration mask h₀) a b u w u' w') :
    Covers board tuned calibration mask h₀ a b u w u' w' where
  tunes := h.tunes hlog hany
  frame := h.frame hlog.frames hb
  responds _ _ hsteady _ hc _ ha hi := h.responds hlog hsteady hb hc ha hi

theorem Covers.append {k : Nat} (hab : a ≤ b) (hbk : b ≤ k) (hk : k ≤ 65536)
    {u₁ : Traces Float32 N} {w₁ w₂ : Shared N ε}
    (h : Covers board tuned calibration mask h₀ a b u w u₁ w₁) (hbetween : tuned w₂ = tuned w₁)
    (h' : Covers board tuned calibration mask h₀ b k u₁ w₂ u' w') :
    Covers board tuned calibration mask h₀ a k u w u' w' := by
  refine ⟨?_, fun d j hout => ?_, fun bands value hsteady d hd i ha hi => ?_⟩
  · rw [h'.tunes, hbetween, h.tunes, List.append_assoc, h₀.frequenciesFrom_append hab hbk]
  · exact (h'.frame d j fun hin => hout ⟨hin.1, by omega, hin.2.2⟩).trans
      (h.frame d j fun hin => hout ⟨hin.1, hin.2.1, by omega⟩)
  · by_cases hib : i < b
    · obtain ⟨terms, hterms, hvalue⟩ := h.responds _ _ hsteady d hd i ha hib
      refine ⟨terms, hterms, fun t => (?_ : u'.entry d _ = u₁.entry d _).trans (hvalue t)⟩
      refine h'.frame d _ fun hin => ?_
      rw [index_pointOf (by omega)] at hin
      omega
    · exact h'.responds _ _ hsteady d hd i (by omega) hi

/-- What a call does depends on the plan and the parameters of the head. -/
theorem Covers.congr {h₁ : SweepHead} (hplan : h₁.plan = h₀.plan) (hconfig : h₁.config = h₀.config)
    (h : Covers board tuned calibration mask h₁ a b u w u' w') :
    Covers board tuned calibration mask h₀ a b u w u' w' := by
  have hpoint : ∀ i, pointOf calibration mask h₁ i = pointOf calibration mask h₀ i := by
    intro i
    unfold pointOf
    rw [hplan, hconfig]
  refine ⟨?_, h.frame, fun bands value hsteady c hc i ha hi => ?_⟩
  · rw [h.tunes]
    unfold SweepHead.frequenciesFrom
    rw [hplan]
  · rw [← hpoint]
    exact h.responds _ _ (hconfig ▸ hsteady) c hc i ha hi

theorem execute_covers (hlog : board.Logs tuned) (hany : mask.measuresAny) {breakable all : Bool}
    (h : p.execute board calibration breakable mask w = .ok ((.ok all, p'), w')) :
    p'.head.plan = p.head.plan ∧ p'.head.config = p.head.config ∧
      ∃ b, p.head.startPoint N breakable ≤ b ∧ b ≤ (p.head.points N).toNat ∧
        Covers board tuned calibration mask p.head (p.head.startPoint N breakable) b
          p.traces w p'.traces w' ∧
        (all = true → b = (p.head.points N).toNat) ∧
        (all = false → b < (p.head.points N).toNat ∧ p'.head.state = .stepping b.toUInt16) := by
  obtain ⟨hplan, hconfig, ⟨hempty, -⟩ | ⟨-, b, u, w₁, hstretch, hended⟩⟩ :=
    execute_inv hlog.frames h
  · rw [SweepMask.not_isEmpty hany, Bool.and_false] at hempty
    cases hempty
  · have hn : (p.head.points N).toNat < UInt16.size := (p.head.points N).toNat_lt
    refine ⟨hplan, hconfig, ?_⟩
    cases hended with
    | completed _ htraces hmoved =>
      have hcovers := hstretch.covers hlog hany (Nat.le_of_lt hn)
      refine ⟨_, hstretch.le, Nat.le_refl _, ⟨Eq.trans hmoved hcovers.tunes, ?_, ?_⟩,
        fun _ => rfl, fun hall => by cases hall⟩
      · exact htraces ▸ hcovers.frame
      · exact htraces ▸ hcovers.responds
    | yielded hlt hstate htraces hmoved =>
      have hcovers := hstretch.covers hlog hany (Nat.le_of_lt (Nat.lt_trans hlt hn))
      refine ⟨b, hstretch.le, Nat.le_of_lt hlt, ⟨Eq.trans hmoved hcovers.tunes, ?_, ?_⟩,
        fun hall => (by cases hall), fun _ => ⟨hlt, hstate⟩⟩
      · exact htraces ▸ hcovers.frame
      · exact htraces ▸ hcovers.responds

/-- Breakable calls that yielded, and a last one that measured every point. Nothing else
tunes the board between them. -/
inductive Slices (board : Board (Shared N ε)) (tuned : Shared N ε → List UInt32)
    (calibration : Option (Calibration Float32 N)) (mask : SweepMask) :
    Pass N → Shared N ε → Pass N → Shared N ε → Prop
  | last {p p' : Pass N} {w w' : Shared N ε} :
      p.execute board calibration true mask w = .ok ((.ok true, p'), w') →
      Slices board tuned calibration mask p w p' w'
  | yield {p p₁ p' : Pass N} {w w₁ w₂ w' : Shared N ε} :
      p.execute board calibration true mask w = .ok ((.ok false, p₁), w₁) →
      tuned w₂ = tuned w₁ → Slices board tuned calibration mask p₁ w₂ p' w' →
      Slices board tuned calibration mask p w p' w'

theorem Slices.covers (hlog : board.Logs tuned) (hany : mask.measuresAny)
    (h : Slices board tuned calibration mask p w p' w') :
    Covers board tuned calibration mask p.head (p.head.startPoint N true)
      (p.head.points N).toNat p.traces w p'.traces w' := by
  induction h with
  | last h =>
    obtain ⟨-, -, b, -, -, hcovers, hall, -⟩ := execute_covers hlog hany h
    rw [← hall rfl]
    exact hcovers
  | @yield p p₁ p' w w₁ w₂ w' h hbetween hrest ih =>
    obtain ⟨hplan, hconfig, b, hab, hbn, hcovers, -, hyielded⟩ := execute_covers hlog hany h
    obtain ⟨hlt, hstate⟩ := hyielded rfl
    have hpoints : p₁.head.points N = p.head.points N := SweepHead.points_congr hplan
    rw [SweepHead.startPoint_of_yielded (hpoints ▸ hlt) hstate, hpoints] at ih
    exact hcovers.append hab hbn (Nat.le_of_lt (p.head.points N).toNat_lt) hbetween
      (ih.congr hplan hconfig)

/-! ## Starting over -/

/-- The next call starts at point 0: it tunes to the first points of the plan. -/
def StartsOver (board : Board (Shared N ε)) (tuned : Shared N ε → List UInt32)
    (breakable : Bool) (p : Pass N) : Prop :=
  ∀ {calibration mask r p' w w'}, mask.measuresAny →
    p.execute board calibration breakable mask w = .ok ((r, p'), w') →
    ∃ b ≤ (p.head.points N).toNat, tuned w' = tuned w ++ p.head.frequenciesFrom 0 b ∧
      StandsAt 0 b (p.head.points N).toNat p'.head.state r

theorem startsOver_of_startPoint (hlog : board.Logs tuned) {breakable : Bool}
    (h : p.head.startPoint N breakable = 0) : StartsOver board tuned breakable p := by
  intro calibration mask r p' w w' hany hexecute
  obtain ⟨b, -, hb, htunes, hend⟩ := execute_tunes hlog hany hexecute
  rw [h] at htunes hend
  exact ⟨b, hb, htunes, hend⟩

theorem execute_failed (hlog : board.Logs tuned) {breakable : Bool} {e : Failure}
    (h : p.execute board calibration breakable mask w = .ok ((.error e, p'), w')) :
    p'.head.state = .aborted := by
  obtain ⟨-, -, ⟨-, he, -⟩ | ⟨-, b, u, w₁, -, hended⟩⟩ := execute_inv hlog.frames h
  · cases he
  · cases hended with
    | aborted _ hstate => exact hstate

/-- A sliced pass does what one call does: it tunes to every point once and in order, it
leaves the traces of a call that is not breakable, and it touches nothing else. A call after
a failure starts over, and so does every call that is not breakable. -/
theorem slices_refine_call (hlog : board.Logs tuned) (hany : mask.measuresAny)
    (hstart : ∀ k, p.head.state ≠ .stepping k)
    (h : Slices board tuned calibration mask p w p' w') :
    tuned w' = tuned w ++
      (List.range (p.head.points N).toNat).map (fun i => p.head.plan.get i.toUInt16) ∧
    (∀ bands value, board.Steady tuned p.head.config bands value →
      ∀ {q q' : Pass N} {all v v'}, q.head.plan = p.head.plan → q.head.config = p.head.config →
        q.traces = p.traces →
        q.execute board calibration false mask v = .ok ((.ok all, q'), v') →
        p'.traces = q'.traces) ∧
    (∀ c j, ¬mask.measures c ∨ (p.head.points N).toNat ≤ j →
      p'.traces.entry c j = p.traces.entry c j) ∧
    (∀ {q q' : Pass N} {other breakable m e v v'},
      q.execute board other breakable m v = .ok ((.error e, q'), v') →
      ∀ next, StartsOver board tuned next q') ∧
    ∀ q : Pass N, StartsOver board tuned false q := by
  have hcovers := h.covers hlog hany
  rw [SweepHead.startPoint_of_not_stepping hstart] at hcovers
  refine ⟨?_, ?_, ?_, ?_, ?_⟩
  · rw [hcovers.tunes, List.range_eq_range']
    rfl
  · intro bands value hsteady q q' all v v' hplan hconfig htraces hexecute
    obtain ⟨-, -, b, -, -, hsingle, hall, -⟩ := execute_covers hlog hany hexecute
    have hall' : all = true := by
      cases all with
      | true => rfl
      | false => exact absurd rfl (execute_unbreakable hexecute)
    have hpoints : q.head.points N = p.head.points N := SweepHead.points_congr hplan
    rw [hall hall', SweepHead.startPoint_unbreakable, hpoints] at hsingle
    have hsingle := hsingle.congr hplan hconfig
    -- entries of measured points are settled responses, all others are those of `p`
    refine Traces.ext_entry fun c j => ?_
    by_cases hin : mask.measures c ∧ 0 ≤ j ∧ j < (p.head.points N).toNat
    · have hn : (p.head.points N).toNat < UInt16.size := (p.head.points N).toNat_lt
      have hunique := (hcovers.responds _ _ hsteady c hin.1 j (Nat.zero_le _) hin.2.2).unique
        (hsingle.responds _ _ hsteady c hin.1 j (Nat.zero_le _) hin.2.2)
      rw [index_pointOf (Nat.lt_trans hin.2.2 hn)] at hunique
      exact hunique
    · rw [hcovers.frame c j hin, hsingle.frame c j hin, htraces]
  · intro c j hout
    refine hcovers.frame c j fun hin => ?_
    rcases hout with hc | hj
    · exact hc hin.1
    · omega
  · intro q q' other breakable m e v v' hexecute next
    refine startsOver_of_startPoint hlog (SweepHead.startPoint_of_not_stepping (fun k => ?_) next)
    rw [execute_failed hlog hexecute]
    exact fun hk => by cases hk
  · exact fun q => startsOver_of_startPoint hlog (SweepHead.startPoint_unbreakable _)

end Pass

/-! ## A board that meets the assumptions -/

structure TestSet where
  tuned : List UInt32 := []
  channel : Channel := .s11

namespace TestSet

/-- What a capture of channel `c` holds at frequency `f`. -/
def reading (c : Channel) (f : UInt32) : Accumulator :=
  ⟨⟨f.toFloat32, Scalar.ofNat c.index⟩, ⟨1, 0⟩⟩

/-- The test set as a board: every capture completes at the next interrupt, and user input
is always waiting. -/
def source : Board (Shared N TestSet) where
  now := pure 0
  relax := modify fun w =>
    let accumulator := reading w.environment.channel (w.environment.tuned.getLast?.getD 0)
    { w with capture := { w.capture with remaining := 0, accumulator } }
  tune f := do
    modify fun w => { w with environment.tuned := w.environment.tuned ++ [f] }
    return 0
  band _ _ := 0
  select c := modify fun w => { w with environment.channel := c }
  inputPending := pure true

/-- Between two tunes the test set changes its capture and its channel. -/
theorem source_frames {γ : Type} {g : Shared N TestSet → γ}
    (hcapture : ∀ w c, g { w with capture := c } = g w)
    (hselect : ∀ w c, g { w with environment.channel := c } = g w) :
    (source : Board (Shared N TestSet)).Frames (Keeps g) where
  now := .pure _
  relax := .modify fun w => hcapture w _
  select c := .modify fun w => hselect w c
  takeSettlingCycles := .pure _
  inputPending := .pure _
  indicate _ := .pure _
  capture := hcapture

theorem logs : (source : Board (Shared N TestSet)).Logs (·.environment.tuned) where
  frames := source_frames (fun _ _ => rfl) fun _ _ => rfl
  tune h := by cases h; rfl

theorem steady : (source : Board (Shared N TestSet)).Steady (·.environment.tuned) {} (fun _ => 0)
    (fun c f => Sampler.gamma.value (reading c f)) where
  band _ := rfl
  capture := by
    intro c f w w₁ w₂ w₃ now settle hlast hselect hnow hwait
    cases hselect
    cases hnow
    cases hwait
    simp only [Capture.value, hlast]
    rfl

def twoPoints : Pass 2 := { head := { plan := ⟨1000, 2000, 2⟩ }, traces := .zero }

/-- Two calls of one point each, against one call of two points. -/
theorem slices_refine_call_twoPoints : ∃ p' w' q' v',
    Pass.Slices source (·.environment.tuned) none (.raw .s11) twoPoints
      { environment := {} } p' w' ∧
    twoPoints.execute source none false (.raw .s11) { environment := {} } =
      .ok ((.ok true, q'), v') ∧
    w'.environment.tuned = [1000, 2000] ∧ p'.traces = q'.traces := by
  have hslices : ∃ p' w', Pass.Slices source (·.environment.tuned) none (.raw .s11) twoPoints
      { environment := {} } p' w' := ⟨_, _, .yield rfl rfl (.last rfl)⟩
  have hsingle : ∃ q' v', twoPoints.execute source none false (.raw .s11) { environment := {} } =
      .ok ((.ok true, q'), v') := ⟨_, _, rfl⟩
  obtain ⟨p', w', hslices⟩ := hslices
  obtain ⟨q', v', hsingle⟩ := hsingle
  obtain ⟨htunes, htraces, -⟩ :=
    Pass.slices_refine_call logs (by decide) (fun k hk => by cases hk) hslices
  exact ⟨p', w', q', v', hslices, hsingle, htunes, htraces _ _ steady rfl rfl rfl hsingle⟩

end TestSet

end NetworkAnalyzer
