import NetworkAnalyzer.Proofs.Sweep.Point

/-!
# What one call of a pass does

A call measures a stretch of points: from its start point on, in order, each of them
once (`Stretch`). It ends in one of three ways (`Ended`): every point is measured, it
yielded before a point, or a point failed. `execute_inv` says that of every call; all
that is proved of passes is derived from it.

**Where it starts.** `startPoint` is point 0 for a call that is not breakable and for a head
outside of any pass, and otherwise the point the head stands before, if the plan has it. Plan and
parameters of the head stay what they are; its position moves.

**Where it ends.** A call that completes leaves its head at the end, and one that fails leaves it
aborted, so the next call starts over. A call that yields leaves it before the point that was not
measured. With an empty mask a breakable call yields without having measured anything.

**The world.** Each point is tuned to and measured while the board moves the shared state by some
`R`. `Stretch R` lists the points with the states between them, so it can be read for entries, for
tunes, for time, or for what a listener hears, by choosing `R`.

* `startPoint_unbreakable`, `startPoint_of_not_stepping`, `startPoint_of_yielded`: where a call
  starts.
* `Stretch.frame`, `Stretch.measured`: what a stretch leaves in the traces, on its points and
  elsewhere.
* `advance_inv`, `execute_inv`: a call measures a stretch and ends.
* `execute_unbreakable`: a call that is not breakable never yields.
-/

namespace NetworkAnalyzer

variable {N : Nat} {ε : Type} {R : Shared N ε → Shared N ε → Prop}
  {board : Board (Shared N ε)}

/-! ## Where a call starts -/

namespace SweepHead

def startPoint (h : SweepHead) (N : Nat) (breakable : Bool) : Nat :=
  if !breakable || h.points N ≤ h.nextPoint N then 0 else (h.nextPoint N).toNat

theorem points_congr {h h' : SweepHead} (hplan : h'.plan = h.plan) : h'.points N = h.points N := by
  unfold points
  rw [hplan]

theorem points_le (h : SweepHead) : (h.points N).toNat ≤ min h.plan.points.toNat N := by
  have hsize : N.toUInt16.toNat ≤ N := by
    rw [Nat.toUInt16_eq, UInt16.toNat_ofNat']
    exact Nat.mod_le _ _
  change (if h.plan.points ≤ N.toUInt16 then h.plan.points else N.toUInt16).toNat ≤ _
  split
  · rename_i hle
    exact Nat.le_min.mpr ⟨Nat.le_refl _, Nat.le_trans (UInt16.le_iff_toNat_le.mp hle) hsize⟩
  · rename_i hlt
    rw [UInt16.not_le] at hlt
    exact Nat.le_min.mpr ⟨Nat.le_of_lt (UInt16.lt_iff_toNat_lt.mp hlt), hsize⟩

theorem nextPoint_congr {h h' : SweepHead} (hstate : h'.state = h.state)
    (hplan : h'.plan = h.plan) : h'.nextPoint N = h.nextPoint N := by
  unfold nextPoint
  rw [hstate, points_congr hplan]

theorem startPoint_congr {h h' : SweepHead} (hstate : h'.state = h.state)
    (hplan : h'.plan = h.plan) (breakable : Bool) :
    h'.startPoint N breakable = h.startPoint N breakable := by
  unfold startPoint
  rw [nextPoint_congr hstate hplan, points_congr hplan]

theorem startPoint_unbreakable (h : SweepHead) : h.startPoint N false = 0 := rfl

theorem startPoint_lt {h : SweepHead} (hpoints : 0 < (h.points N).toNat) (breakable : Bool) :
    h.startPoint N breakable < (h.points N).toNat := by
  unfold startPoint
  split
  · exact hpoints
  · rename_i hlt
    rw [Bool.or_eq_true, not_or, decide_eq_true_iff, UInt16.not_le] at hlt
    exact UInt16.lt_iff_toNat_lt.mp hlt.2

theorem startPoint_le (h : SweepHead) (breakable : Bool) :
    h.startPoint N breakable ≤ (h.points N).toNat := by
  obtain hnone | hpoints := Nat.eq_zero_or_pos (h.points N).toNat
  · have hover : h.points N ≤ h.nextPoint N := by
      rw [UInt16.le_iff_toNat_le, hnone]
      exact Nat.zero_le _
    unfold startPoint
    rw [if_pos (by rw [decide_eq_true hover, Bool.or_true])]
    exact Nat.zero_le _
  · exact Nat.le_of_lt (startPoint_lt hpoints breakable)

theorem startPoint_of_not_stepping {h : SweepHead} (hs : ∀ k, h.state ≠ .stepping k)
    (breakable : Bool) : h.startPoint N breakable = 0 := by
  have hnext : h.nextPoint N = 0 ∨ h.nextPoint N = h.points N := by
    unfold nextPoint
    cases hstate : h.state with
    | stepping k => exact absurd hstate (hs k)
    | completed => exact Or.inr rfl
    | idle => exact Or.inl rfl
    | aborted => exact Or.inl rfl
  unfold startPoint
  rcases hnext with he | he
  · rw [he]
    split <;> rfl
  · rw [he, if_pos]
    simp

/-- The call after a yield resumes at the point the yield stands before. -/
theorem startPoint_of_yielded {h : SweepHead} {b : Nat} (hlt : b < (h.points N).toNat)
    (hstate : h.state = .stepping b.toUInt16) : h.startPoint N true = b := by
  have hn : (h.points N).toNat < UInt16.size := (h.points N).toNat_lt
  have hb : b.toUInt16.toNat = b := UInt16.toNat_ofNat_of_lt' (Nat.lt_trans hlt hn)
  have hnext : h.nextPoint N = b.toUInt16 := by
    unfold nextPoint
    rw [hstate]
  unfold startPoint
  rw [hnext, if_neg, hb]
  rw [Bool.not_true, Bool.false_or, decide_eq_true_iff, UInt16.not_le, UInt16.lt_iff_toNat_lt, hb]
  exact hlt

/-- A call that measured nothing leaves the next breakable call where it started. -/
theorem startPoint_of_nextPoint {h h' : SweepHead} {breakable : Bool} (hplan : h'.plan = h.plan)
    (hnext : (h'.nextPoint N).toNat = h.startPoint N breakable) :
    h'.startPoint N true = (h'.nextPoint N).toNat := by
  have hpoints : h'.points N = h.points N := points_congr hplan
  unfold startPoint
  split
  · rename_i hover
    rw [Bool.not_true, Bool.false_or, decide_eq_true_iff, UInt16.le_iff_toNat_le, hnext,
      hpoints] at hover
    -- a start point beyond the last point is point 0
    rw [hnext]
    unfold startPoint at hover ⊢
    split at hover
    · rename_i hrestart
      rw [if_pos hrestart]
    · rename_i hresume
      rw [Bool.or_eq_true, not_or, decide_eq_true_iff, UInt16.le_iff_toNat_le] at hresume
      exact absurd hover hresume.2
  · rfl

end SweepHead

/-! ## Indications -/

theorem Board.Frames.indicateAll [IsPreorder (Shared N ε) R] (hf : board.Frames R) :
    ∀ shown : List Indication, Moves R (board.indicateAll shown)
  | [] => .pure ()
  | i :: shown => .bind (hf.indicate i) fun _ => hf.indicateAll shown

namespace Pass

structure Redrawn (p p' : Pass N) : Prop where
  traces : p'.traces = p.traces
  plan : p'.head.plan = p.head.plan
  config : p'.head.config = p.head.config
  state : p'.head.state = p.head.state

theorem Redrawn.refl (p : Pass N) : Redrawn p p := ⟨rfl, rfl, rfl, rfl⟩

variable [IsPreorder (Shared N ε) R] {p p' : Pass N} {w w' : Shared N ε}

theorem showProgress_inv (hf : board.Frames R) {step : Progress × List Indication}
    (h : p.showProgress board step w = .ok (p', w')) : R w w' ∧ Redrawn p p' := by
  unfold showProgress at h
  obtain ⟨u, w₁, hshow, h₁⟩ := Run.bind_inv h
  obtain ⟨rfl, rfl⟩ := Run.pure_inv h₁
  exact ⟨hf.indicateAll _ hshow, rfl, rfl, rfl, rfl⟩

theorem darken_inv (hf : board.Frames R) (h : p.darken board w = .ok (p', w')) :
    R w w' ∧ Redrawn p p' :=
  showProgress_inv hf h

theorem announce_inv (hf : board.Frames R) (h : p.announce board w = .ok (p', w')) :
    R w w' ∧ Redrawn p p' := by
  unfold announce at h
  split at h
  · exact showProgress_inv hf h
  · obtain ⟨rfl, rfl⟩ := Run.pure_inv h
    exact ⟨refl_of R w', Redrawn.refl p'⟩

/-! ## Stretches of points -/

def pointOf (calibration : Option (Calibration Float32 N)) (mask : SweepMask) (h : SweepHead)
    (i : Nat) : PointSetup N where
  index := i.toUInt16
  frequency := h.plan.get i.toUInt16
  mask := mask
  config := h.config
  calibration := if mask.has .calibrate then calibration else none
  gain := gainOf h.config mask

/-- The points from `a` to `b` measured in order, each of them once. -/
inductive Stretch (R : Shared N ε → Shared N ε → Prop) (board : Board (Shared N ε))
    (point : Nat → PointSetup N) :
    Nat → Nat → Traces Float32 N → Shared N ε → Traces Float32 N → Shared N ε → Prop
  | nil {a : Nat} {u : Traces Float32 N} {w w' : Shared N ε} : R w w' →
      Stretch R board point a a u w u w'
  | cons {a b : Nat} {u u₁ u' : Traces Float32 N} {w w₁ w₂ w' : Shared N ε} : R w w₁ →
      (point a).measure board u w₁ = .ok ((.ok (), u₁), w₂) →
      Stretch R board point (a + 1) b u₁ w₂ u' w' → Stretch R board point a b u w u' w'

/-- How a call ends that stands before point `b` of `n`. -/
inductive Ended (R : Shared N ε → Shared N ε → Prop) (board : Board (Shared N ε))
    (point : Nat → PointSetup N) (n : Nat) (u : Traces Float32 N) (w : Shared N ε) :
    Nat → Except Failure Bool → Pass N → Shared N ε → Prop
  | completed {p' : Pass N} {w' : Shared N ε} : p'.head.state = .completed → p'.traces = u →
      R w w' → Ended R board point n u w n (.ok true) p' w'
  | yielded {b : Nat} {p' : Pass N} {w' : Shared N ε} : b < n →
      p'.head.state = .stepping b.toUInt16 → p'.traces = u → R w w' →
      Ended R board point n u w b (.ok false) p' w'
  | aborted {b : Nat} {e : Failure} {p' : Pass N} {w₁ w₂ w' : Shared N ε} : b < n →
      p'.head.state = .aborted → R w w₁ →
      (point b).measure board u w₁ = .ok ((.error e, p'.traces), w₂) → R w₂ w' →
      Ended R board point n u w b (.error e) p' w'

omit [IsPreorder (Shared N ε) R] in
theorem Stretch.le {point : Nat → PointSetup N} {a b : Nat} {u u' : Traces Float32 N}
    (h : Stretch R board point a b u w u' w') : a ≤ b := by
  induction h with
  | nil => exact Nat.le_refl _
  | cons _ _ _ ih => omega

theorem Stretch.after {point : Nat → PointSetup N} {a b : Nat} {u u' : Traces Float32 N}
    {v : Shared N ε} (hv : R v w) (h : Stretch R board point a b u w u' w') :
    Stretch R board point a b u v u' w' := by
  cases h with
  | nil hw => exact .nil (trans_of R hv hw)
  | cons hw hm hrest => exact .cons (trans_of R hv hw) hm hrest

theorem Stretch.before {point : Nat → PointSetup N} {a b : Nat} {u u' : Traces Float32 N}
    {v : Shared N ε} (hv : R w' v) (h : Stretch R board point a b u w u' w') :
    Stretch R board point a b u w u' v := by
  induction h with
  | nil hw => exact .nil (trans_of R hw hv)
  | cons hw hm _ ih => exact .cons hw hm (ih hv)

/-! ## What a stretch leaves -/

section Stretch

variable {calibration : Option (Calibration Float32 N)} {mask : SweepMask} {h₀ : SweepHead}
  {a b : Nat} {u u' : Traces Float32 N}

theorem measure_pointOf_sameOff (hf : board.Frames R) (ha : a < 65536) {r : Except Failure Unit}
    (h : (pointOf calibration mask h₀ a).measure board u w = .ok ((r, u'), w')) (c : Channel)
    (j : Nat) (hout : ¬(mask.measures c ∧ j = a)) : u'.entry c j = u.entry c j := by
  refine (PointSetup.measure_frame hf h).2 c j fun hin => hout ⟨hin.1, hin.2.trans ?_⟩
  exact UInt16.toNat_ofNat_of_lt' ha

/-- A stretch changes the entries of its points on the selected channels only. -/
theorem Stretch.frame (hf : board.Frames R) (hb : b ≤ 65536)
    (h : Stretch R board (pointOf calibration mask h₀) a b u w u' w') (c : Channel) (j : Nat)
    (hout : ¬(mask.measures c ∧ a ≤ j ∧ j < b)) : u'.entry c j = u.entry c j := by
  induction h with
  | nil => rfl
  | cons _ hmeasure hrest ih =>
    have hle := hrest.le
    refine (ih hb fun hin => hout ⟨hin.1, by omega, hin.2.2⟩).trans ?_
    exact measure_pointOf_sameOff hf (by omega) hmeasure c j
      fun hin => hout ⟨hin.1, by omega, by omega⟩

/-- With the tunes counted in, a stretch moves by `R`. -/
theorem Stretch.moves (hf : board.Frames R) (htune : ∀ f, Moves R (board.tune f))
    {point : Nat → PointSetup N} (h : Stretch R board point a b u w u' w') : R w w' := by
  induction h with
  | nil hw => exact hw
  | cons hw hmeasure _ ih =>
    exact trans_of R (trans_of R hw (PointSetup.measure_moves hf htune hmeasure)) ih

/-- The entries of a point of the stretch are those that measuring this point left. -/
theorem Stretch.measured (hf : board.Frames R) (hb : b ≤ 65536)
    (h : Stretch R board (pointOf calibration mask h₀) a b u w u' w') {i : Nat} (ha : a ≤ i)
    (hi : i < b) : ∃ u₀ v₀ u₁ v₁,
      (pointOf calibration mask h₀ i).measure board u₀ v₀ = .ok ((.ok (), u₁), v₁) ∧
      (∀ c, u'.entry c i = u₁.entry c i) ∧
      ((∀ f, Moves R (board.tune f)) → R w v₀ ∧ R v₁ w') := by
  induction h with
  | nil => omega
  | @cons a b u u₁ u' w v₀ v₁ w' hw hmeasure hrest ih =>
    by_cases hia : i = a
    · subst hia
      exact ⟨u, v₀, u₁, v₁, hmeasure, fun c => hrest.frame hf hb c i fun hin => by omega,
        fun htune => ⟨hw, hrest.moves hf htune⟩⟩
    · obtain ⟨u₀, y₀, u₂, y₁, hpoint, hentry, hbetween⟩ := ih hb (by omega) hi
      refine ⟨u₀, y₀, u₂, y₁, hpoint, hentry, fun htune => ?_⟩
      obtain ⟨hbefore, hafter⟩ := hbetween htune
      have hmeasured := PointSetup.measure_moves hf htune hmeasure
      exact ⟨trans_of R (trans_of R hw hmeasured) hbefore, hafter⟩

end Stretch

/-! ## Calls -/

theorem mustYield_moves (hf : board.Frames R) (c : Setup N) (processed : Nat) :
    Moves R (mustYield board c processed) := by
  unfold mustYield
  refine .ite (.pure _) (.ite (.pure _) ?_)
  have hslice : Moves R (do
      return decide (Parameters.timeSlice ≤ (← elapsed (← board.now) c.sliceStart)) :
      Run (Shared N ε) Bool) :=
    .bind hf.now fun _ => .bind (.lift _) fun _ => .pure _
  exact .ite (.bind hf.inputPending fun _ => .ite (.pure _) hslice) hslice

theorem index_eq {points : UInt16} {a left : Nat} (h : a + (left + 1) = points.toNat) :
    points - (left + 1).toUInt16 = a.toUInt16 := by
  have hlt : points.toNat < UInt16.size := points.toNat_lt
  have hleft : (left + 1).toUInt16.toNat = left + 1 := UInt16.toNat_ofNat_of_lt' (by omega)
  have hle : (left + 1).toUInt16 ≤ points := by
    rw [UInt16.le_iff_toNat_le, hleft]
    omega
  rw [← UInt16.toNat_inj, UInt16.toNat_sub_of_le _ _ hle, hleft,
    UInt16.toNat_ofNat_of_lt' (show a < UInt16.size by omega)]
  omega

variable {calibration : Option (Calibration Float32 N)} {mask : SweepMask} {h₀ : SweepHead}

omit [IsPreorder (Shared N ε) R] in
theorem pointSetup_eq {c : Setup N} {h : SweepHead} (hcal : c.calibration = calibration)
    (hmask : c.mask = mask) (hgain : c.gain = gainOf h₀.config mask) (hplan : h.plan = h₀.plan)
    (hconfig : h.config = h₀.config) (i : Nat) :
    pointSetup c h i.toUInt16 = pointOf calibration mask h₀ i := by
  unfold pointSetup pointOf
  rw [hcal, hmask, hgain, hplan, hconfig]

theorem advance_inv (hf : board.Frames R) {c : Setup N} (hcal : c.calibration = calibration)
    (hmask : c.mask = mask) (hgain : c.gain = gainOf h₀.config mask) :
    ∀ {left a processed : Nat} {p p' : Pass N} {r : Except Failure Bool} {w w' : Shared N ε},
      a + left = c.points.toNat → p.head.plan = h₀.plan → p.head.config = h₀.config →
      p.head.state = .stepping a.toUInt16 →
      p.advance board c left processed w = .ok ((r, p'), w') →
      p'.head.plan = h₀.plan ∧ p'.head.config = h₀.config ∧ ∃ b u w₁,
        Stretch R board (pointOf calibration mask h₀) a b p.traces w u w₁ ∧
        Ended R board (pointOf calibration mask h₀) c.points.toNat u w₁ b r p' w' := by
  intro left
  induction left with
  | zero =>
    intro a processed p p' r w w' ha hplan hconfig _ h
    unfold advance at h
    obtain ⟨p₁, w₁, hdark, h₁⟩ := Run.bind_inv h
    obtain ⟨he, rfl⟩ := Run.pure_inv h₁
    cases he
    obtain ⟨hmoved, hsame⟩ := darken_inv hf hdark
    rw [Nat.add_zero] at ha
    subst ha
    exact ⟨hsame.plan.trans hplan, hsame.config.trans hconfig, _, p.traces, w,
      .nil (refl_of R w), .completed hsame.state hsame.traces hmoved⟩
  | succ left ih =>
    intro a processed p p' r w w' ha hplan hconfig hstate h
    unfold advance at h
    obtain ⟨yields, w₁, hyield, h₁⟩ := Run.bind_inv h
    have hmoved := mustYield_moves hf c processed hyield
    cases yields with
    | true =>
      obtain ⟨he, rfl⟩ := Run.pure_inv h₁
      cases he
      exact ⟨hplan, hconfig, a, p.traces, w, .nil (refl_of R w),
        .yielded (by omega) hstate rfl hmoved⟩
    | false =>
      dsimp only at h₁
      rw [index_eq ha, pointSetup_eq hcal hmask hgain hplan hconfig] at h₁
      obtain ⟨⟨outcome, u⟩, w₂, hmeasure, h₂⟩ := Run.bind_inv h₁
      cases outcome with
      | error e =>
        obtain ⟨p₁, w₃, hdark, h₃⟩ := Run.bind_inv h₂
        obtain ⟨he, rfl⟩ := Run.pure_inv h₃
        cases he
        obtain ⟨hmoved', hsame⟩ := darken_inv hf hdark
        refine ⟨hsame.plan.trans hplan, hsame.config.trans hconfig, a, p.traces, w,
          .nil (refl_of R w), .aborted (by omega) hsame.state hmoved ?_ hmoved'⟩
        rw [hsame.traces]
        exact hmeasure
      | ok x =>
        obtain ⟨p₁, w₃, hdraw, h₃⟩ := Run.bind_inv h₂
        obtain ⟨hmoved', hsame⟩ := showProgress_inv hf hdraw
        have hnext : (p₁.withState (.stepping (a.toUInt16 + 1))).head.state =
            .stepping (a + 1).toUInt16 :=
          congrArg PassState.stepping (UInt16.ofNat_add a 1).symm
        obtain ⟨hplan', hconfig', b, u', w₄, hstretch, hended⟩ :=
          ih (a := a + 1) (p := p₁.withState (.stepping (a.toUInt16 + 1))) (by omega)
            (hsame.plan.trans hplan) (hsame.config.trans hconfig) hnext h₃
        have hstretch' := hstretch.after hmoved'
        refine ⟨hplan', hconfig', b, u', w₄, .cons hmoved hmeasure ?_, hended⟩
        rw [← show p₁.traces = u from hsame.traces]
        exact hstretch'

theorem rewind_inv (hf : board.Frames R) {breakable : Bool}
    (h : p.rewind board breakable w = .ok (p', w')) :
    R w w' ∧ p'.traces = p.traces ∧ p'.head.plan = p.head.plan ∧
      p'.head.config = p.head.config ∧
      (p'.head.nextPoint N).toNat = p.head.startPoint N breakable := by
  unfold rewind at h
  unfold SweepHead.startPoint
  split at h
  · rename_i hover
    obtain ⟨hmoved, hsame⟩ := darken_inv hf h
    have hidle : p'.head.state = .idle := hsame.state
    refine ⟨hmoved, hsame.traces, hsame.plan, hsame.config, ?_⟩
    rw [if_pos hover]
    unfold SweepHead.nextPoint
    rw [hidle]
    rfl
  · rename_i hresume
    obtain ⟨rfl, rfl⟩ := Run.pure_inv h
    rw [if_neg hresume]
    exact ⟨refl_of R w', rfl, rfl, rfl, rfl⟩

theorem callBudget_moves (hf : board.Frames R) (breakable : Bool) :
    Moves R (callBudget board breakable) := by
  unfold callBudget
  exact .ite (.pure _) (.bind hf.inputPending fun _ => .ite (.pure _) (.pure _))

/-- Rewound and announced, a pass stands at the start point of the call. -/
theorem announce_start (hf : board.Frames R) {breakable : Bool} {p₁ p₂ : Pass N}
    {w₁ w₂ w₃ : Shared N ε} (hrewind : p.rewind board breakable w = .ok (p₁, w₁))
    (hannounce : p₁.announce board w₂ = .ok (p₂, w₃)) :
    p₂.head.plan = p.head.plan ∧ p₂.head.config = p.head.config ∧
      p₂.head.points N = p.head.points N ∧
      (p₂.head.nextPoint N).toNat = p.head.startPoint N breakable ∧
      (p₂.head.nextPoint N).toNat + ((p₂.head.points N).toNat - (p₂.head.nextPoint N).toNat) =
        (p₂.head.points N).toNat := by
  obtain ⟨-, -, hplan₁, hconfig₁, hnext₁⟩ := rewind_inv hf hrewind
  obtain ⟨-, hsame⟩ := announce_inv hf hannounce
  have hplan : p₂.head.plan = p.head.plan := hsame.plan.trans hplan₁
  have hpoints : p₂.head.points N = p.head.points N := SweepHead.points_congr hplan
  have hstart : (p₂.head.nextPoint N).toNat = p.head.startPoint N breakable := by
    rw [← hnext₁, SweepHead.nextPoint_congr hsame.state hsame.plan]
  refine ⟨hplan, hsame.config.trans hconfig₁, hpoints, hstart, Nat.add_sub_of_le ?_⟩
  rw [hstart, hpoints]
  exact SweepHead.startPoint_le _ _

/-- A call: with nothing selected it does nothing; otherwise it measures a stretch from its
start point on and ends. -/
theorem execute_inv (hf : board.Frames R) {breakable : Bool} {r : Except Failure Bool}
    (h : p.execute board calibration breakable mask w = .ok ((r, p'), w')) :
    p'.head.plan = p.head.plan ∧ p'.head.config = p.head.config ∧
      (((breakable && mask.isEmpty) = true ∧ r = .ok false ∧ p'.traces = p.traces ∧
          (p'.head.nextPoint N).toNat = p.head.startPoint N breakable ∧ R w w') ∨
        ((breakable && mask.isEmpty) = false ∧ ∃ b u w₁,
          Stretch R board (pointOf calibration mask p.head) (p.head.startPoint N breakable) b
            p.traces w u w₁ ∧
          Ended R board (pointOf calibration mask p.head) (p.head.points N).toNat u w₁ b r
            p' w')) := by
  unfold execute at h
  obtain ⟨p₁, w₁, hrewind, h₁⟩ := Run.bind_inv h
  obtain ⟨hmoved₁, htraces₁, hplan₁, hconfig₁, hnext₁⟩ := rewind_inv hf hrewind
  split at h₁
  · rename_i hempty
    obtain ⟨p₂, w₂, hdark, h₂⟩ := Run.bind_inv h₁
    obtain ⟨he, rfl⟩ := Run.pure_inv h₂
    cases he
    obtain ⟨hmoved₂, hsame⟩ := darken_inv hf hdark
    refine ⟨hsame.plan.trans hplan₁, hsame.config.trans hconfig₁, Or.inl ⟨hempty, rfl,
      hsame.traces.trans htraces₁, ?_, trans_of R hmoved₁ hmoved₂⟩⟩
    rw [← hnext₁, SweepHead.nextPoint_congr hsame.state hsame.plan]
  · rename_i hselected
    obtain ⟨budget, w₂, hbudget, h₂⟩ := Run.bind_inv h₁
    obtain ⟨p₂, w₃, hannounce, h₃⟩ := Run.bind_inv h₂
    obtain ⟨sliceStart, w₄, hnow, h₄⟩ := Run.bind_inv h₃
    obtain ⟨hmoved₃, hsame⟩ := announce_inv hf hannounce
    have hmoved : R w w₄ := trans_of R (trans_of R hmoved₁ (callBudget_moves hf _ hbudget))
      (trans_of R hmoved₃ (hf.now hnow))
    obtain ⟨hplan, hconfig, hpoints, hstart, hleft⟩ := announce_start hf hrewind hannounce
    have hgain : gainOf p₂.head.config mask = gainOf p.head.config mask := by rw [hconfig]
    have hstate : (p₂.withState (.stepping (p₂.head.nextPoint N))).head.state =
        .stepping (p₂.head.nextPoint N).toNat.toUInt16 :=
      congrArg PassState.stepping UInt16.ofNat_toNat.symm
    obtain ⟨hplan', hconfig', b, u, w₅, hstretch, hended⟩ :=
      advance_inv hf (p := p₂.withState (.stepping (p₂.head.nextPoint N))) rfl rfl hgain
        hleft hplan hconfig hstate h₄
    refine ⟨hplan', hconfig', Or.inr ⟨Bool.not_eq_true _ ▸ hselected, b, u, w₅, ?_, ?_⟩⟩
    · rw [← hstart, ← htraces₁, ← hsame.traces]
      exact hstretch.after hmoved
    · rw [← hpoints]
      exact hended

/-! ## Calls that are not breakable -/

omit [IsPreorder (Shared N ε) R] in
theorem mustYield_unbreakable {c : Setup N} (hc : c.breakable = false) {processed : Nat}
    (hbudget : processed < c.budget) (w : Shared N ε) :
    mustYield board c processed w = .ok (false, w) := by
  unfold mustYield
  rw [if_neg (Nat.not_le.mpr hbudget), hc]
  rfl

omit [IsPreorder (Shared N ε) R] in
theorem advance_unbreakable {c : Setup N} (hc : c.breakable = false) :
    ∀ {left processed : Nat} {p p' : Pass N} {r : Except Failure Bool} {w w' : Shared N ε},
      processed + left ≤ c.budget → p.advance board c left processed w = .ok ((r, p'), w') →
      r ≠ .ok false := by
  intro left
  induction left with
  | zero =>
    intro processed p p' r w w' _ h
    unfold advance at h
    obtain ⟨p₁, w₁, -, h₁⟩ := Run.bind_inv h
    obtain ⟨he, -⟩ := Run.pure_inv h₁
    cases he
    exact fun hr => by cases hr
  | succ left ih =>
    intro processed p p' r w w' hbudget h
    unfold advance at h
    rw [Run.bind_ok _ (mustYield_unbreakable hc (show processed < c.budget by omega) w)] at h
    obtain ⟨⟨outcome, u⟩, w₂, -, h₂⟩ := Run.bind_inv h
    cases outcome with
    | error e =>
      obtain ⟨p₁, w₃, -, h₃⟩ := Run.bind_inv h₂
      obtain ⟨he, -⟩ := Run.pure_inv h₃
      cases he
      exact fun hr => by cases hr
    | ok x =>
      obtain ⟨p₁, w₃, -, h₃⟩ := Run.bind_inv h₂
      exact ih (by omega) h₃

omit [IsPreorder (Shared N ε) R] in
theorem execute_unbreakable {r : Except Failure Bool}
    (h : p.execute board calibration false mask w = .ok ((r, p'), w')) : r ≠ .ok false := by
  unfold execute at h
  obtain ⟨p₁, w₁, -, h₁⟩ := Run.bind_inv h
  have hbudget : callBudget board false w₁ = .ok (65535, w₁) := rfl
  rw [Bool.false_and, if_neg Bool.false_ne_true, Run.bind_ok _ hbudget] at h₁
  obtain ⟨p₂, w₂, -, h₂⟩ := Run.bind_inv h₁
  obtain ⟨sliceStart, w₃, -, h₃⟩ := Run.bind_inv h₂
  have hpoints : (p₂.head.points N).toNat < 65536 := (p₂.head.points N).toNat_lt
  refine advance_unbreakable rfl ?_ h₃
  dsimp only
  omega

end Pass

end NetworkAnalyzer
