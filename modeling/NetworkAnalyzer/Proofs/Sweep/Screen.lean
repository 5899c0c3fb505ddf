import NetworkAnalyzer.Proofs.Sweep.Signals

/-!
# The bar on the screen

The screen holds what the indications of a bar painted and did not clear again (`painted`).
`View.Shows d` is the invariant: the pixels below `drawn` are painted, and from pixel `d` on no
other is.

**Painting.** A bar advances with the points. A single new pixel is held back (`pending`), and
painted with the next ones or at the end, just before everything is cleared. So what is painted is
exactly what is counted as drawn, at every moment between two indications.

**Clearing.** Ending the indications clears all pixels the bar has drawn or holds back, so pixels of
another pass are left over in one way only: a pass is given up between two calls, and the next call
begins a new bar over the old one (`SweepHead.overdrawn`). Beginning a bar forgets the pixels but
does not clear them. They are cleared when a pass is completed with its bar shown, because its bar
is full by then (`Measured.full`).

`d` goes along with a course of calls and is defined by the heads alone: it grows when a bar is
begun over pixels, and returns to zero when a bar is full.

**Results.**
* `update_cases`, `Shows.painted_finish`: what progress steps do to the screen.
* `Called.shows`: a call keeps the invariant; one that ends its pass has nothing drawn.
* `screen_shows_bar`: the screen shows the bar, and nothing after a pass has ended, but for pixels
  of a bar that a pass was begun over.
* `Panel.bar_left_over`: such pixels stay when the pass after it has been completed.
-/

namespace NetworkAnalyzer

open Parameters

/-! ## Pixels -/

/-- What a signal makes of the pixels, each painted or not. -/
def Signal.paint (screen : Nat → Bool) : Signal → Nat → Bool
  | .shown (.bar x width filled), i =>
    if x.toNat ≤ i ∧ i < x.toNat + width.toNat then filled else screen i
  | _, i => screen i

/-- Whether pixel `i` is painted after what was seen, on a screen that was blank at first. -/
def painted (seen : List Signal) : Nat → Bool := seen.foldl Signal.paint fun _ => false

theorem painted_bar (seen : List Signal) (x width : UInt16) (filled : Bool) (i : Nat) :
    painted (seen ++ [.shown (.bar x width filled)]) i =
      if x.toNat ≤ i ∧ i < x.toNat + width.toNat then filled else painted seen i := by
  rw [painted, List.foldl_append]
  rfl

theorem painted_activity (seen : List Signal) (on : Bool) :
    painted (seen ++ [.shown (.activity on)]) = painted seen := by
  rw [painted, List.foldl_append]
  rfl

/-! ## Progress steps -/

namespace Progress

theorem pixels_last {point points : UInt16} (hlast : point.toNat + 1 = points.toNat)
    (hpoint : 0 < point.toNat) : pixels point points = progressWidth := by
  have hp : point.toNat < 65536 := point.toNat_lt
  have hrow : (points.toUInt32 - 1).toNat = point.toNat := by
    rw [UInt32.toNat_sub_of_le _ _ (by rw [UInt32.le_iff_toNat_le]; simp; omega),
      UInt16.toNat_toUInt32, ← hlast]
    exact Nat.add_sub_cancel _ 1
  have hwhole : point.toUInt32 * progressWidth.toUInt32 / (points.toUInt32 - 1) =
      progressWidth.toUInt32 := by
    rw [← UInt32.toNat_inj, UInt32.toNat_div, hrow, UInt32.toNat_mul, UInt16.toNat_toUInt32,
      show progressWidth.toUInt32.toNat = 320 from rfl, Nat.mod_eq_of_lt (by omega),
      Nat.mul_div_cancel_left _ hpoint]
  unfold pixels
  rw [hwhole]
  rfl

theorem pixels_le (point points : UInt16) : (pixels point points).toNat ≤ progressWidth.toNat := by
  unfold pixels
  dsimp only
  split
  · rename_i hle
    rw [UInt32.le_iff_toNat_le] at hle
    rw [UInt32.toNat_toUInt16]
    exact Nat.le_trans (Nat.mod_le _ _) hle
  · exact Nat.le_refl _

/-- Where an advance takes the bar: nowhere, on to a pixel that is painted at once, or on to one
that is held back. -/
theorem update_cases (p : Progress) (point points : UInt16) :
    p.update point points = (p, []) ∨
      p.bar = true ∧ ∃ target : UInt16,
        p.drawn.toNat < target.toNat ∧ target.toNat ≤ progressWidth.toNat ∧
        (p.update point points =
            ({ p with drawn := target, pending := 0 }, [.bar p.drawn (target - p.drawn) true]) ∨
          p.update point points = ({ p with pending := target - p.drawn }, [])) := by
  unfold update
  split
  · exact Or.inl rfl
  · rename_i hshown
    dsimp only
    split
    · exact Or.inl rfl
    · rename_i hahead
      rw [UInt16.not_le, UInt16.lt_iff_toNat_lt] at hahead
      refine Or.inr ⟨?_, _, hahead, pixels_le _ _, ?_⟩
      · cases hbar : p.bar with
        | true => rfl
        | false => simp [hbar] at hshown
      · split
        · exact Or.inl rfl
        · exact Or.inr rfl

/-- A bar that is shown covers the whole width, drawn or held back. -/
def Full (p : Progress) : Prop :=
  p.bar = true → progressWidth.toNat ≤ p.drawn.toNat + p.pending.toNat

theorem update_bar (p : Progress) (point points : UInt16) :
    (p.update point points).1.bar = p.bar := by
  obtain hstep | ⟨-, target, -, -, hstep | hstep⟩ := p.update_cases point points
  all_goals rw [hstep]

theorem update_full (p : Progress) {point points : UInt16}
    (hlast : point.toNat + 1 = points.toNat) (hpoint : 0 < point.toNat) :
    (p.update point points).1.Full := by
  intro hbar
  have hmany : ¬ points < 2 := by
    rw [UInt16.lt_iff_toNat_lt, ← hlast]
    exact Nat.not_lt.mpr (Nat.succ_le_succ hpoint)
  rw [update_bar] at hbar
  unfold update
  rw [pixels_last hlast hpoint, hbar, Bool.not_true, Bool.false_or, decide_eq_false hmany,
    if_neg Bool.false_ne_true]
  dsimp only
  split
  · rename_i hfull
    exact Nat.le_trans (UInt16.le_iff_toNat_le.mp hfull) (Nat.le_add_right _ _)
  · rw [if_pos (by simp)]
    exact Nat.le_refl _

end Progress

theorem painted_bars (seen : List Signal) (x width : UInt16) (filled : Bool) {c : Prop}
    [Decidable c] (i : Nat) :
    painted (seen ++ (if c then [.bar x width filled] else []).map .shown) i =
      if c ∧ x.toNat ≤ i ∧ i < x.toNat + width.toNat then filled else painted seen i := by
  by_cases hc : c
  · simp only [hc, if_true, true_and]
    exact painted_bar seen x width filled i
  · simp only [hc, if_false, false_and]
    exact congrFun (congrArg painted (List.append_nil seen)) i

theorem painted_dark (seen : List Signal) (light : Bool) :
    painted (seen ++ (if light then [.activity false] else []).map .shown) = painted seen := by
  cases light with
  | true => exact painted_activity seen false
  | false => exact congrArg painted (List.append_nil seen)

theorem painted_tuned (v : View) (h : SweepHead) (mask : SweepMask) (i : Nat) :
    painted (v.tuned h mask i).signals = painted v.signals := by
  unfold View.tuned painted
  rw [List.foldl_append]
  split
  · rfl
  · rfl

namespace View

/-- The invariant of a screen on which pixels below `d` may be left over. -/
structure Shows (d : Nat) (v : View) : Prop where
  left_le : d ≤ progressWidth.toNat
  fits : v.progress.drawn.toNat + v.progress.pending.toNat ≤ progressWidth.toNat
  hidden : v.progress.bar = false → v.progress.drawn = 0 ∧ v.progress.pending = 0
  drawn : ∀ i, i < v.progress.drawn.toNat → painted v.signals i = true
  beyond : ∀ i, d ≤ i → v.progress.drawn.toNat ≤ i → painted v.signals i = false

variable {d d' : Nat} {v v' : View}

theorem Shows.mono (h : v.Shows d) (hd : d ≤ d') (hd' : d' ≤ progressWidth.toNat) : v.Shows d' :=
  { h with left_le := hd', beyond := fun i hi => h.beyond i (Nat.le_trans hd hi) }

/-- Ending the indications clears what the bar has drawn or holds back, and nothing else. -/
theorem Shows.painted_finish (h : v.Shows d) (i : Nat) :
    painted (v.draw Progress.finish).signals i =
      if i < v.progress.drawn.toNat + v.progress.pending.toNat then false
      else painted v.signals i := by
  have hfits : v.progress.drawn.toNat + v.progress.pending.toNat ≤ 320 := h.fits
  have hreach : (if 0 < v.progress.pending then v.progress.drawn + v.progress.pending
      else v.progress.drawn).toNat = v.progress.drawn.toNat + v.progress.pending.toNat := by
    split
    · rw [UInt16.toNat_add, Nat.mod_eq_of_lt (by omega)]
    · rename_i hnone
      rw [UInt16.not_lt, UInt16.le_iff_toNat_le, UInt16.toNat_zero] at hnone
      omega
  unfold draw Progress.finish
  simp only [List.map_append, ← List.append_assoc, painted_dark, painted_bars]
  cases hbar : v.progress.bar with
  | false =>
    obtain ⟨hdrawn, hpending⟩ := h.hidden hbar
    simp [hdrawn, hpending]
  | true =>
    simp only [Bool.true_and, decide_eq_true_eq, UInt16.lt_iff_toNat_lt, UInt16.toNat_zero,
      Nat.zero_add, Nat.zero_le, true_and] at hreach ⊢
    rw [hreach]
    by_cases hi : i < v.progress.drawn.toNat + v.progress.pending.toNat
    · rw [if_pos ⟨by omega, hi⟩, if_pos hi]
    · rw [if_neg (fun h => hi h.2), if_neg (fun h => hi h.2.2), if_neg hi]

theorem Shows.drawn_finish (h : v.Shows d) :
    (v.draw Progress.finish).progress.drawn = 0 ∧
      (v.draw Progress.finish).progress.pending = 0 := by
  unfold draw Progress.finish
  cases hbar : v.progress.bar with
  | false => exact h.hidden hbar
  | true => exact ⟨rfl, rfl⟩

/-- What ending the indications leaves over is beyond the bar. -/
theorem Shows.finish_of (h : v.Shows d) (hd' : d' ≤ progressWidth.toNat)
    (hleft : ∀ i, d' ≤ i → v.progress.drawn.toNat + v.progress.pending.toNat ≤ i → d ≤ i) :
    (v.draw Progress.finish).Shows d' := by
  obtain ⟨hdrawn, hpending⟩ := h.drawn_finish
  refine ⟨hd', ?_, fun _ => ⟨hdrawn, hpending⟩, fun i hi => ?_, fun i hi _ => ?_⟩
  · rw [hdrawn, hpending]
    exact Nat.zero_le _
  · rw [hdrawn] at hi
    exact absurd hi (Nat.not_lt_zero i)
  · rw [h.painted_finish]
    split
    · rfl
    · exact h.beyond i (hleft i hi (by omega)) (by omega)

theorem Shows.finish (h : v.Shows d) : (v.draw Progress.finish).Shows d :=
  h.finish_of h.left_le fun _ hi _ => hi

theorem Shows.finish_full (h : v.Shows d) (hbar : v.progress.bar = true)
    (hfull : v.progress.Full) : (v.draw Progress.finish).Shows 0 :=
  h.finish_of (Nat.zero_le _) fun _ _ hi =>
    Nat.le_trans h.left_le (Nat.le_trans (hfull hbar) hi)

/-- A fresh bar begins at the left edge, whatever is painted there. -/
theorem Shows.begin (h : v.Shows d) (shown : Bool) :
    (v.draw fun p => p.begin shown).Shows (max d v.progress.drawn.toNat) := by
  have hsame : painted (v.draw fun p => p.begin shown).signals = painted v.signals := by
    change painted (v.signals ++
      (if v.progress.light then [] else [.activity true]).map .shown) = painted v.signals
    cases v.progress.light with
    | true => exact congrArg painted (List.append_nil v.signals)
    | false => exact painted_activity v.signals true
  refine ⟨Nat.max_le.mpr ⟨h.left_le, Nat.le_trans (Nat.le_add_right _ _) h.fits⟩, Nat.zero_le _,
    fun _ => ⟨rfl, rfl⟩, fun i hi => absurd hi (Nat.not_lt_zero i), fun i hi _ => ?_⟩
  rw [hsame]
  exact h.beyond i (by omega) (by omega)

theorem Shows.update (h : v.Shows d) (point points : UInt16) :
    (v.draw fun p => p.update point points).Shows d := by
  obtain hsame | ⟨hbar, target, hahead, hfits, hstep⟩ := v.progress.update_cases point points
  · rw [draw_eq hsame, List.map_nil, List.append_nil]
    exact h
  have hend : v.progress.drawn.toNat + (target - v.progress.drawn).toNat = target.toNat := by
    rw [UInt16.toNat_sub_of_le _ _ (UInt16.le_iff_toNat_le.mpr (Nat.le_of_lt hahead)),
      Nat.add_sub_of_le (Nat.le_of_lt hahead)]
  have hshown : v.progress.bar ≠ false := by
    rw [hbar]
    exact Bool.noConfusion
  obtain hpaint | hhold := hstep
  · rw [draw_eq hpaint, List.map_singleton]
    refine ⟨h.left_le, hfits, fun hno => absurd hno hshown, fun i (hi : i < target.toNat) => ?_,
      fun i hi (hout : target.toNat ≤ i) => ?_⟩
    · rw [painted_bar, hend]
      split
      · rfl
      · exact h.drawn i (by omega)
    · rw [painted_bar, hend, if_neg fun hnew => absurd hnew.2 (Nat.not_lt.mpr hout)]
      exact h.beyond i hi (by omega)
  · rw [draw_eq hhold, List.map_nil, List.append_nil]
    exact ⟨h.left_le, Nat.le_trans (Nat.le_of_eq hend) hfits, fun hno => absurd hno hshown,
      h.drawn, h.beyond⟩

variable {h : SweepHead} {mask : SweepMask} {points : UInt16} {a b : Nat}

theorem Shows.tuned (hv : v.Shows d) (h : SweepHead) (mask : SweepMask) (i : Nat) :
    (v.tuned h mask i).Shows d := by
  refine ⟨hv.left_le, hv.fits, hv.hidden, ?_, ?_⟩
  · rw [painted_tuned]
    exact hv.drawn
  · rw [painted_tuned]
    exact hv.beyond

theorem Shows.measured (hv : v.Shows d) (hm : Measured h mask points a b v v') :
    v'.Shows d ∧ v'.progress.bar = v.progress.bar := by
  induction hm with
  | done => exact ⟨hv, rfl⟩
  | @next a _ v _ _ ih =>
    obtain ⟨hshows, hbar⟩ := ih ((hv.tuned h mask a).update a.toUInt16 points)
    exact ⟨hshows, hbar.trans (v.progress.update_bar a.toUInt16 points)⟩

theorem Measured.full (hm : Measured h mask points a b v v') (hpoints : 2 ≤ points.toNat)
    (hb : b = points.toNat) (hv : a = b → v.progress.Full) : v'.progress.Full := by
  induction hm with
  | done => exact hv rfl
  | @next a _ v _ _ ih =>
    refine ih hb fun hlast => ?_
    have hindex : a.toUInt16.toNat = a := UInt16.toNat_ofNat_of_lt' <| by
      have hsize := points.toNat_lt
      change a < 65536
      omega
    exact v.progress.update_full (by omega) (by omega)

/-- Where points are measured to the last one with the bar shown, nothing is left over. -/
theorem Ends.shows {r : Except Failure Bool} (hends : Ends h mask points a v r v')
    (hv : v.Shows d) :
    v'.Shows d ∧ (r ≠ .ok false → v'.progress.drawn = 0) ∧
      (r = .ok true → v.progress.bar = true → 2 ≤ points.toNat → a < points.toNat →
        v'.Shows 0) := by
  cases hends with
  | yielded hm => exact ⟨(hv.measured hm).1, fun hr => absurd rfl hr, fun hr => by cases hr⟩
  | @aborted b _ _ hm =>
    have hshows := (hv.measured hm).1.tuned h mask b
    exact ⟨hshows.finish, fun _ => hshows.drawn_finish.1, fun hr => by cases hr⟩
  | @completed u hm =>
    obtain ⟨hshows, hbar⟩ := hv.measured hm
    refine ⟨hshows.finish, fun _ => hshows.drawn_finish.1, fun _ hshown hpoints ha => ?_⟩
    have hfull : u.progress.Full := hm.full hpoints rfl fun hnone => absurd hnone (Nat.ne_of_lt ha)
    exact hshows.finish_full (hbar.trans hshown) hfull

end View

/-! ## Calls -/

namespace SweepHead

/-- Painted pixels that a call begins a new bar over: it starts a pass, and nothing has ended the
pass before. -/
def overdrawn (h : SweepHead) (N : Nat) (breakable : Bool) (mask : SweepMask) : Nat :=
  if breakable && !mask.isEmpty && h.nextPoint N == 0 && 0 < h.points N then
    h.progress.drawn.toNat
  else 0

/-- Whether a call shows a bar: it begins one, or goes on with the one it finds. -/
def barIn (h : SweepHead) (N : Nat) (breakable : Bool) : Bool :=
  if h.startPoint N breakable = 0 then Parameters.bandwidth100 ≤ h.config.bandwidth
  else h.progress.bar

/-- How far pixels may be left over after a call, if they were up to `d` before: a pass that is
completed with its bar shown clears them. -/
def leftOver (N : Nat) (h : SweepHead) (breakable : Bool) (mask : SweepMask)
    (r : Except Failure Bool) (d : Nat) : Nat :=
  match r with
  | .ok true =>
    if h.barIn N breakable && 2 ≤ h.points N then 0 else max d (h.overdrawn N breakable mask)
  | _ => max d (h.overdrawn N breakable mask)

end SweepHead

namespace View

variable {N d : Nat} {h : SweepHead} {v v' : View} {breakable : Bool} {mask : SweepMask}
  {r : Except Failure Bool}

theorem Shows.leftOver_le (hv : v.Shows d) (hprogress : v.progress = h.progress)
    (breakable : Bool) (mask : SweepMask) :
    max d (h.overdrawn N breakable mask) ≤ progressWidth.toNat := by
  refine Nat.max_le.mpr ⟨hv.left_le, ?_⟩
  unfold SweepHead.overdrawn
  split
  · rw [← hprogress]
    exact Nat.le_trans (Nat.le_add_right _ _) hv.fits
  · exact Nat.zero_le _

/-- Where points are measured, only pixels that a new bar was begun over are left over. -/
theorem Shows.announced (hv : v.Shows d) (hprogress : v.progress = h.progress)
    (hselected : (breakable && mask.isEmpty) = false) :
    ((v.rewound N h breakable).announced N h breakable).Shows
        (max d (h.overdrawn N breakable mask)) ∧
      ((v.rewound N h breakable).announced N h breakable).progress.bar = h.barIn N breakable := by
  have hle := hv.leftOver_le (N := N) hprogress breakable mask
  unfold View.announced SweepHead.barIn
  by_cases hover : (!breakable || h.points N ≤ h.nextPoint N) = true
  · have hstart : h.startPoint N breakable = 0 := if_pos hover
    rw [rewound, if_pos hover, if_pos hstart, if_pos hstart]
    refine ⟨(hv.finish.begin _).mono ?_ hle, rfl⟩
    rw [hv.drawn_finish.1, UInt16.toNat_zero, Nat.max_zero]
    exact Nat.le_max_left _ _
  · rw [rewound, if_neg hover]
    split
    · rename_i hstart
      refine ⟨(hv.begin _).mono (Nat.le_of_eq (congrArg (max d) ?_)) hle, rfl⟩
      rw [hprogress]
      unfold SweepHead.startPoint at hstart
      rw [if_neg hover] at hstart
      have hnext : h.nextPoint N = 0 := UInt16.toNat_inj.mp hstart
      rw [Bool.or_eq_true, not_or, Bool.not_eq_true, Bool.not_eq_false', decide_eq_true_iff,
        UInt16.not_le, hnext] at hover
      rw [hover.1, Bool.true_and] at hselected
      rw [SweepHead.overdrawn, if_pos]
      simp [hover.1, hselected, hnext, hover.2]
    · exact ⟨hv.mono (Nat.le_max_left _ _) hle, by rw [hprogress]⟩

/-- A call shows its bar, and one that ends its pass has nothing drawn. -/
theorem Called.shows (hcalled : Called N h breakable mask v r v') (hv : v.Shows d)
    (hprogress : v.progress = h.progress) :
    v'.Shows (h.leftOver N breakable mask r d) ∧ (r ≠ .ok false → v'.progress.drawn = 0) := by
  cases hcalled with
  | idle _ =>
    have hrewound : (v.rewound N h breakable).Shows d := by
      unfold rewound
      split
      · exact hv.finish
      · exact hv
    exact ⟨hrewound.finish.mono (Nat.le_max_left _ _) (hv.leftOver_le hprogress _ _),
      fun hr => absurd rfl hr⟩
  | measured hselected hends =>
    obtain ⟨hannounced, hbar⟩ := hv.announced hprogress hselected
    obtain ⟨hshows, hblank, hcleared⟩ := hends.shows hannounced
    refine ⟨?_, hblank⟩
    unfold SweepHead.leftOver
    split
    · split
      · rename_i hclears
        rw [Bool.and_eq_true, decide_eq_true_iff, UInt16.le_iff_toNat_le] at hclears
        obtain ⟨hshown, hpoints⟩ := hclears
        exact hcleared rfl (hbar.trans hshown) hpoints
          (SweepHead.startPoint_lt (Nat.lt_of_lt_of_le Nat.zero_lt_two hpoints) breakable)
      · exact hshows
    · exact hshows

end View

/-! ## Courses of calls -/

namespace Pass

variable {N : Nat} {ε : Type} {board : Board (Shared N ε)} {signals : Shared N ε → List Signal}
  {p p' : Pass N} {w w' : Shared N ε}

theorem Operated.shows (hs : board.Signals signals) {d : Nat}
    (h : Operated board signals (SweepHead.leftOver N) 0 d p w) : (p.view signals w).Shows d := by
  induction h with
  | fresh _ hprogress hblank =>
    unfold view
    rw [hprogress, hblank]
    exact ⟨Nat.zero_le _, Nat.zero_le _, fun _ => ⟨rfl, rfl⟩,
      fun i hi => absurd hi (Nat.not_lt_zero i), fun _ _ _ => rfl⟩
  | call _ hcall ih => exact ((execute_view hs hcall).shows ih rfl).1
  | setPlan plan _ ih =>
    unfold view
    rw [SweepHead.setPlan_progress]
    exact ih
  | restart _ ih => exact ih
  | configure _ _ ih => exact ih
  | meanwhile _ _ hkept ih =>
    unfold view
    rw [hkept]
    exact ih

/-- The screen shows the bar: below `drawn` every pixel is painted, and from pixel `d` on no other
one, where `d` is the longest bar that a pass was begun over since one was last completed with its
bar shown. After a call that completed or failed, no pixel from there on is painted at all. If no
pass was begun over a bar, `d` is 0. -/
theorem screen_shows_bar (hs : board.Signals signals) {d : Nat}
    (h : Operated board signals (SweepHead.leftOver N) 0 d p w) :
    p.head.progress.drawn ≤ progressWidth ∧
    (∀ i, i < p.head.progress.drawn.toNat → painted (signals w) i = true) ∧
    (∀ i, d ≤ i → (painted (signals w) i = true ↔ i < p.head.progress.drawn.toNat)) ∧
    ∀ {calibration breakable mask r p' w'},
      p.execute board calibration breakable mask w = .ok ((r, p'), w') → r ≠ .ok false →
      ∀ i, p.head.leftOver N breakable mask r d ≤ i → painted (signals w') i = false := by
  have hshows := h.shows hs
  refine ⟨?_, hshows.drawn, fun i hi => ⟨fun hpainted => ?_, hshows.drawn i⟩, ?_⟩
  · rw [UInt16.le_iff_toNat_le]
    exact Nat.le_trans (Nat.le_add_right _ _) hshows.fits
  · refine Nat.lt_of_not_le fun hout => ?_
    cases hpainted.symm.trans (hshows.beyond i hi hout)
  · intro calibration breakable mask r p' w' hcall hr i hi
    obtain ⟨hafter, hblank⟩ := (execute_view hs hcall).shows hshows rfl
    refine hafter.beyond i hi ?_
    rw [hblank hr]
    exact Nat.zero_le i

end Pass

/-! ## A pass given up -/

namespace Panel

open Pass

/-- Two calls of one point each leave half of the bar painted. -/
theorem narrow_halfway : Operated face (·.environment.seen) (SweepHead.leftOver 3) 0 0
    (narrow (.stepping 2) { drawn := 160, bar := true, light := true })
    (showing [.shown (.activity true), .tuned 1000, .tuned 2000, .shown (.bar 0 160 true)]) := by
  have hsecond : Calls (.raw .s11) (narrow (.stepping 1) { bar := true, light := true })
      [.shown (.activity true), .tuned 1000] (.ok false)
      (narrow (.stepping 2) { drawn := 160, bar := true, light := true })
      [.shown (.activity true), .tuned 1000, .tuned 2000, .shown (.bar 0 160 true)] :=
    ⟨_, _, rfl, rfl, rfl⟩
  exact hsecond.operated (narrow_first.operated (.fresh rfl rfl rfl))

/-- Half of a bar is on the screen, and the call that completes the pass clears it. -/
theorem screen_shows_bar_halfway : ∃ (p p' : Pass 3) (w w' : Shared 3 Panel),
    Operated face (·.environment.seen) (SweepHead.leftOver 3) 0 0 p w ∧
    (∀ i, painted w.environment.seen i = true ↔ i < 160) ∧
    p.execute face none true (.raw .s11) w = .ok ((.ok true, p'), w') ∧
    ∀ i, painted w'.environment.seen i = false := by
  have hlast : ∃ p' w', (narrow (.stepping 2) { drawn := 160, bar := true, light := true }).execute
      face none true (.raw .s11)
      (showing [.shown (.activity true), .tuned 1000, .tuned 2000, .shown (.bar 0 160 true)]) =
      .ok ((.ok true, p'), w') := ⟨_, _, rfl⟩
  obtain ⟨p', w', hlast⟩ := hlast
  obtain ⟨-, -, hbar, hend⟩ := screen_shows_bar face_signals narrow_halfway
  exact ⟨_, p', _, w', narrow_halfway, fun i => hbar i (Nat.zero_le i), hlast,
    fun i => hend hlast (fun h => by cases h) i (Nat.zero_le i)⟩

/-- The pass is given up for one of a single point, which draws no bar. When it is completed,
nothing counts as drawn, and half of the old bar is still on the screen. -/
theorem bar_left_over : ∃ (p p' : Pass 3) (w w' : Shared 3 Panel),
    Operated face (·.environment.seen) (SweepHead.leftOver 3) 0 0 p w ∧
    p.execute face none true (.raw .s11) w = .ok ((.ok true, p'), w') ∧
    p'.head.progress.drawn = 0 ∧ painted w'.environment.seen 0 = true :=
  ⟨_, _, _, _, narrow_halfway.setPlan ⟨1000, 1000, 1⟩, rfl, rfl, rfl⟩

end Panel

end NetworkAnalyzer
