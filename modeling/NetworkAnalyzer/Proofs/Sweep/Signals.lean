import NetworkAnalyzer.Proofs.Sweep.Call

/-!
# What a pass lets a bystander see

A bystander sees the source being tuned and the indications, nothing else. `Board.Signals board
signals` says that `signals` lists all that was seen so far. A pass keeps its own account of bar
and light (`Progress`); a `View` is that account together with what was seen.

A call changes its view by progress steps and tunes only (`Called`): it ends the indications of a
pass that it does not resume, begins those of a pass that it starts, advances the bar point by
point, and ends them when it does not yield. What is proved of bar and light is derived from this
description alone.

That measuring a point shows nothing is stated with a board whose indicators fault (`Board.muted`):
measuring on it is measuring on the board itself.

`Operated` is any course of calls, changes of plan and parameters, and restarts. A ghost goes along
with it: some `γ` that each call changes by a function of its head, its break flag, its mask and
its outcome. The bar and the light each bring their own.

* `measure_muted`, `measure_signals`: a point is tuned to and shows nothing.
* `Measured`, `Ends`, `Called`: the views of a stretch of points, of the rest of a call, and of a
  call.
* `execute_view`: what a call lets see.
* `Operated`: where a pass may have got to since it was set up.
-/

namespace NetworkAnalyzer

/-- What can be seen of a board. -/
inductive Signal where
  /-- The source is tuned to measure a point. -/
  | tuned (frequency : UInt32)
  | shown (i : Indication)
  deriving DecidableEq, Repr

variable {N : Nat} {ε : Type} {board : Board (Shared N ε)} {signals : Shared N ε → List Signal}

/-- `signals` lists what was seen of the board so far. -/
structure Board.Signals (board : Board (Shared N ε)) (signals : Shared N ε → List Signal) :
    Prop where
  now : Moves (Keeps signals) board.now
  relax : Moves (Keeps signals) board.relax
  select : ∀ c, Moves (Keeps signals) (board.select c)
  takeSettlingCycles : Moves (Keeps signals) board.takeSettlingCycles
  inputPending : Moves (Keeps signals) board.inputPending
  capture : ∀ w c, Keeps signals w { w with capture := c }
  tune : ∀ {f w delay w'}, board.tune f w = .ok (delay, w') →
    signals w' = signals w ++ [.tuned f]
  indicate : ∀ {i w u w'}, board.indicate i w = .ok (u, w') →
    signals w' = signals w ++ [.shown i]

def Board.muted (board : Board (Shared N ε)) : Board (Shared N ε) :=
  { board with indicate := fun _ => pure () }

/-- Between a tune and an indication nothing is seen. -/
theorem Board.Signals.frames (hs : board.Signals signals) :
    board.muted.Frames (Keeps signals) where
  now := hs.now
  relax := hs.relax
  select := hs.select
  takeSettlingCycles := hs.takeSettlingCycles
  inputPending := hs.inputPending
  indicate _ := .pure _
  capture := hs.capture

theorem Board.Signals.indicateAll (hs : board.Signals signals) :
    ∀ {shown : List Indication} {w w' : Shared N ε} {u : Unit},
      board.indicateAll shown w = .ok (u, w') → signals w' = signals w ++ shown.map .shown
  | [], w, w', u, h => by
    obtain ⟨-, rfl⟩ := Run.pure_inv h
    rw [List.map_nil, List.append_nil]
  | i :: shown, w, w', u, h => by
    obtain ⟨u, w₁, hfirst, hrest⟩ := Run.bind_inv h
    rw [hs.indicateAll hrest, hs.indicate hfirst, List.append_assoc]
    rfl

/-! ## A point -/

namespace PointSetup

variable {p : PointSetup N}

theorem shootAll_muted (shots : List Shot) (s : PointState N) :
    p.shootAll board.muted shots s = p.shootAll board shots s := by
  induction shots generalizing s with
  | nil => rfl
  | cons shot shots ih =>
    have hfirst : p.shoot board.muted shot s = p.shoot board shot s := rfl
    unfold shootAll
    rw [hfirst]
    refine congrArg _ (funext fun outcome => ?_)
    obtain ⟨r, s⟩ := outcome
    cases r with
    | error e => rfl
    | ok u => exact ih s

theorem measure_muted (u : Traces Float32 N) : p.measure board.muted u = p.measure board u := by
  unfold measure
  simp only [shootAll_muted]
  rfl

/-- A point is tuned to, if it measures anything, and shows nothing. -/
theorem measure_signals (hs : board.Signals signals)
    {u u' : Traces Float32 N} {w w' : Shared N ε} {r : Except Failure Unit}
    (h : p.measure board u w = .ok ((r, u'), w')) :
    signals w' = signals w ++ if p.mask.measuresAny then [.tuned p.frequency] else [] := by
  rw [← measure_muted] at h
  obtain ⟨⟨w₁, hretuned, hkept⟩, -⟩ := measure_frame hs.frames h
  refine Eq.trans hkept ?_
  unfold Retuned at hretuned
  split at hretuned
  · rename_i hany
    obtain ⟨delay, htune⟩ := hretuned
    rw [if_pos hany]
    exact hs.tune htune
  · rename_i hnone
    rw [if_neg hnone, List.append_nil, hretuned]

end PointSetup

/-! ## Views -/

/-- Bar and light as a pass has them on record, and what was seen so far. -/
structure View where
  progress : Progress
  signals : List Signal

namespace View

def draw (v : View) (step : Progress → Progress × List Indication) : View where
  progress := (step v.progress).1
  signals := v.signals ++ (step v.progress).2.map .shown

theorem draw_eq {v : View} {step : Progress → Progress × List Indication} {progress : Progress}
    {shown : List Indication} (h : step v.progress = (progress, shown)) :
    v.draw step = ⟨progress, v.signals ++ shown.map .shown⟩ := by
  unfold draw
  rw [h]

/-- The view once a call has ended the indications of a pass it does not resume. -/
def rewound (v : View) (N : Nat) (h : SweepHead) (breakable : Bool) : View :=
  if !breakable || h.points N ≤ h.nextPoint N then v.draw Progress.finish else v

/-- The view once a call has begun the indications of a pass it starts. -/
def announced (v : View) (N : Nat) (h : SweepHead) (breakable : Bool) : View :=
  if h.startPoint N breakable = 0 then
    v.draw fun p => p.begin (Parameters.bandwidth100 ≤ h.config.bandwidth)
  else v

/-- The view after point `i` was tuned to. -/
def tuned (v : View) (h : SweepHead) (mask : SweepMask) (i : Nat) : View :=
  { v with
    signals := v.signals ++
      if mask.measuresAny then [.tuned (h.plan.get i.toUInt16)] else [] }

/-- The points from `a` to `b` measured in order: each is tuned to, then the bar advances. -/
inductive Measured (h : SweepHead) (mask : SweepMask) (points : UInt16) :
    Nat → Nat → View → View → Prop
  | done {a : Nat} {v : View} : Measured h mask points a a v v
  | next {a b : Nat} {v v' : View} :
      Measured h mask points (a + 1) b
        ((v.tuned h mask a).draw fun p => p.update a.toUInt16 points) v' →
      Measured h mask points a b v v'

/-- What is seen of the points from `a` on, up to the end of the call. -/
inductive Ends (h : SweepHead) (mask : SweepMask) (points : UInt16) (a : Nat) (v : View) :
    Except Failure Bool → View → Prop
  | yielded {b : Nat} {v' : View} : Measured h mask points a b v v' →
      Ends h mask points a v (.ok false) v'
  | completed {v' : View} : Measured h mask points a points.toNat v v' →
      Ends h mask points a v (.ok true) (v'.draw Progress.finish)
  | aborted {b : Nat} {v' : View} {e : Failure} : Measured h mask points a b v v' →
      Ends h mask points a v (.error e) ((v'.tuned h mask b).draw Progress.finish)

theorem Ends.next {h : SweepHead} {mask : SweepMask} {points : UInt16} {a : Nat} {v v' : View}
    {r : Except Failure Bool}
    (hends : Ends h mask points (a + 1)
      ((v.tuned h mask a).draw fun p => p.update a.toUInt16 points) r v') :
    Ends h mask points a v r v' := by
  cases hends with
  | yielded hm => exact .yielded (.next hm)
  | completed hm => exact .completed (.next hm)
  | aborted hm => exact .aborted (.next hm)

/-- What is seen of a call of a pass with head `h`. -/
inductive Called (N : Nat) (h : SweepHead) (breakable : Bool) (mask : SweepMask) (v : View) :
    Except Failure Bool → View → Prop
  | idle : (breakable && mask.isEmpty) = true →
      Called N h breakable mask v (.ok false) ((v.rewound N h breakable).draw Progress.finish)
  | measured {r : Except Failure Bool} {v' : View} : (breakable && mask.isEmpty) = false →
      Ends h mask (h.points N) (h.startPoint N breakable)
        ((v.rewound N h breakable).announced N h breakable) r v' →
      Called N h breakable mask v r v'

end View

/-! ## Calls -/

theorem SweepHead.setPlan_progress (h : SweepHead) (plan : FrequencyPlan) :
    (h.setPlan plan).progress = h.progress := by
  unfold setPlan
  split
  · rfl
  · rfl

namespace Pass

variable {p p' : Pass N} {w w' : Shared N ε}

/-- What a pass in a state of the board lets see. -/
def view (p : Pass N) (signals : Shared N ε → List Signal) (w : Shared N ε) : View :=
  ⟨p.head.progress, signals w⟩

theorem showProgress_view (hs : board.Signals signals)
    {step : Progress → Progress × List Indication}
    (h : p.showProgress board (step p.head.progress) w = .ok (p', w')) :
    p'.view signals w' = (p.view signals w).draw step := by
  unfold showProgress at h
  obtain ⟨u, w₁, hshow, h₁⟩ := Run.bind_inv h
  obtain ⟨rfl, rfl⟩ := Run.pure_inv h₁
  exact congrArg (View.mk _) (hs.indicateAll hshow)

theorem darken_view (hs : board.Signals signals) (h : p.darken board w = .ok (p', w')) :
    p'.view signals w' = (p.view signals w).draw Progress.finish :=
  showProgress_view hs h

theorem rewind_view (hs : board.Signals signals) {breakable : Bool}
    (h : p.rewind board breakable w = .ok (p', w')) :
    p'.view signals w' = (p.view signals w).rewound N p.head breakable := by
  unfold rewind at h
  unfold View.rewound
  split at h
  · rename_i hover
    rw [if_pos hover]
    exact darken_view (p := { p with head := p.head.restart }) hs h
  · rename_i hresume
    obtain ⟨rfl, rfl⟩ := Run.pure_inv h
    rw [if_neg hresume]

theorem announce_view (hs : board.Signals signals) {h₀ : SweepHead} {breakable : Bool}
    (hnext : (p.head.nextPoint N).toNat = h₀.startPoint N breakable)
    (hconfig : p.head.config = h₀.config) (h : p.announce board w = .ok (p', w')) :
    p'.view signals w' = (p.view signals w).announced N h₀ breakable := by
  unfold announce at h
  unfold View.announced
  rw [← hnext, ← hconfig]
  have hfirst : (p.head.nextPoint N).toNat = 0 ↔ p.head.nextPoint N = 0 :=
    UInt16.toNat_inj (b := 0)
  split at h
  · rename_i hzero
    rw [if_pos (hfirst.mpr hzero)]
    exact showProgress_view hs h
  · rename_i hlater
    obtain ⟨rfl, rfl⟩ := Run.pure_inv h
    rw [if_neg (mt hfirst.mp hlater)]

theorem advance_view (hs : board.Signals signals) (c : Setup N) (h₀ : SweepHead) :
    ∀ {left a processed : Nat} {p p' : Pass N} {r : Except Failure Bool} {w w' : Shared N ε},
      a + left = c.points.toNat → p.head.plan = h₀.plan →
      p.advance board c left processed w = .ok ((r, p'), w') →
      View.Ends h₀ c.mask c.points a (p.view signals w) r (p'.view signals w') := by
  intro left
  induction left with
  | zero =>
    intro a processed p p' r w w' ha _ h
    unfold advance at h
    obtain ⟨p₁, w₁, hdark, h₁⟩ := Run.bind_inv h
    obtain ⟨he, rfl⟩ := Run.pure_inv h₁
    cases he
    have hview : p'.view signals w' = (p.view signals w).draw Progress.finish :=
      darken_view (p := p.withState .completed) hs hdark
    rw [Nat.add_zero] at ha
    rw [hview]
    exact .completed (ha ▸ .done)
  | succ left ih =>
    intro a processed p p' r w w' ha hplan h
    unfold advance at h
    obtain ⟨yields, w₁, hyield, h₁⟩ := Run.bind_inv h
    have hkept : signals w₁ = signals w := mustYield_moves hs.frames c processed hyield
    cases yields with
    | true =>
      obtain ⟨he, rfl⟩ := Run.pure_inv h₁
      cases he
      have hview : p.view signals w' = p.view signals w := congrArg (View.mk _) hkept
      rw [hview]
      exact .yielded .done
    | false =>
      dsimp only at h₁
      rw [index_eq ha] at h₁
      obtain ⟨⟨outcome, u⟩, w₂, hmeasure, h₂⟩ := Run.bind_inv h₁
      have htuned : View.mk p.head.progress (signals w₂) =
          (p.view signals w).tuned h₀ c.mask a := by
        rw [PointSetup.measure_signals hs hmeasure, hkept, View.tuned, ← hplan]
        rfl
      cases outcome with
      | error e =>
        obtain ⟨p₁, w₃, hdark, h₃⟩ := Run.bind_inv h₂
        obtain ⟨he, rfl⟩ := Run.pure_inv h₃
        cases he
        have hview : p'.view signals w' =
            (View.mk p.head.progress (signals w₂)).draw Progress.finish :=
          darken_view (p := { p with traces := u }.withState .aborted) hs hdark
        rw [hview, htuned]
        exact .aborted .done
      | ok x =>
        obtain ⟨p₁, w₃, hdraw, h₃⟩ := Run.bind_inv h₂
        have hview : p₁.view signals w₃ = (View.mk p.head.progress (signals w₂)).draw
            fun q => q.update a.toUInt16 c.points :=
          showProgress_view (p := { p with traces := u }) hs hdraw
        have hplan₁ : (p₁.withState (.stepping (a.toUInt16 + 1))).head.plan = h₀.plan :=
          (showProgress_inv board.frames_true hdraw).2.plan.trans hplan
        have hrest := ih (by omega : a + 1 + left = c.points.toNat) hplan₁ h₃
        rw [show (p₁.withState (.stepping (a.toUInt16 + 1))).view signals w₃ =
          p₁.view signals w₃ from rfl, hview, htuned] at hrest
        exact hrest.next

/-- What is seen of a call follows from where it starts and how it ends. -/
theorem execute_view (hs : board.Signals signals)
    {calibration : Option (Calibration Float32 N)} {breakable : Bool} {mask : SweepMask}
    {r : Except Failure Bool}
    (h : p.execute board calibration breakable mask w = .ok ((r, p'), w')) :
    View.Called N p.head breakable mask (p.view signals w) r (p'.view signals w') := by
  unfold execute at h
  obtain ⟨p₁, w₁, hrewind, h₁⟩ := Run.bind_inv h
  have hrewound := rewind_view hs hrewind
  obtain ⟨-, -, -, hconfig₁, hnext₁⟩ := rewind_inv board.frames_true hrewind
  split at h₁
  · rename_i hempty
    obtain ⟨p₂, w₂, hdark, h₂⟩ := Run.bind_inv h₁
    obtain ⟨he, rfl⟩ := Run.pure_inv h₂
    cases he
    rw [darken_view hs hdark, hrewound]
    exact .idle hempty
  · rename_i hselected
    obtain ⟨budget, w₂, hbudget, h₂⟩ := Run.bind_inv h₁
    obtain ⟨p₂, w₃, hannounce, h₃⟩ := Run.bind_inv h₂
    obtain ⟨sliceStart, w₄, hnow, h₄⟩ := Run.bind_inv h₃
    have hannounced := announce_view hs hnext₁ hconfig₁ hannounce
    obtain ⟨hplan, -, hpoints, hstart, hleft⟩ :=
      announce_start board.frames_true hrewind hannounce
    have hkept₂ : signals w₂ = signals w₁ := callBudget_moves hs.frames breakable hbudget
    have hkept₄ : signals w₄ = signals w₃ := hs.now hnow
    have hends := advance_view (p := p₂.withState (.stepping (p₂.head.nextPoint N))) hs _ p.head
      hleft hplan h₄
    rw [show (p₂.withState (.stepping (p₂.head.nextPoint N))).view signals w₄ =
      p₂.view signals w₃ from congrArg (View.mk _) hkept₄, hannounced,
      show p₁.view signals w₂ = p₁.view signals w₁ from congrArg (View.mk _) hkept₂,
      hrewound] at hends
    dsimp only at hends
    rw [hstart, hpoints] at hends
    exact .measured (Bool.not_eq_true _ ▸ hselected) hends

/-! ## Courses of calls -/

/-- Where a pass may have got to since it was set up: by calls, other plans and parameters, and
restarts, in any order. In between, traces and board may change, as long as nothing is seen of it.
`note` keeps an account of the calls, beginning with `g₀`. -/
inductive Operated {γ : Type} (board : Board (Shared N ε)) (signals : Shared N ε → List Signal)
    (note : SweepHead → Bool → SweepMask → Except Failure Bool → γ → γ) (g₀ : γ) :
    γ → Pass N → Shared N ε → Prop
  | fresh {p : Pass N} {w : Shared N ε} : p.head.state = .idle → p.head.progress = {} →
      signals w = [] → Operated board signals note g₀ g₀ p w
  | call {g : γ} {p p' : Pass N} {w w' : Shared N ε}
      {calibration : Option (Calibration Float32 N)} {breakable : Bool} {mask : SweepMask}
      {r : Except Failure Bool} : Operated board signals note g₀ g p w →
      p.execute board calibration breakable mask w = .ok ((r, p'), w') →
      Operated board signals note g₀ (note p.head breakable mask r g) p' w'
  | setPlan {g : γ} {p : Pass N} {w : Shared N ε} (plan : FrequencyPlan) :
      Operated board signals note g₀ g p w →
      Operated board signals note g₀ g { p with head := p.head.setPlan plan } w
  | restart {g : γ} {p : Pass N} {w : Shared N ε} : Operated board signals note g₀ g p w →
      Operated board signals note g₀ g { p with head := p.head.restart } w
  | configure {g : γ} {p : Pass N} {w : Shared N ε} (config : SweepConfig) :
      Operated board signals note g₀ g p w →
      Operated board signals note g₀ g { p with head := { p.head with config } } w
  | meanwhile {g : γ} {p : Pass N} {w w' : Shared N ε} (traces : Traces Float32 N) :
      Operated board signals note g₀ g p w → signals w' = signals w →
      Operated board signals note g₀ g { p with traces } w'

end Pass

/-! ## A board to look at -/

structure Panel where
  seen : List Signal := []

namespace Panel

/-- The panel as a board: captures complete at the next interrupt, and user input is always
waiting, so that a breakable call measures one point. -/
def face : Board (Shared N Panel) where
  now := pure 0
  relax := modify fun w => { w with capture := { w.capture with remaining := 0 } }
  tune f := do
    modify fun w => { w with environment.seen := w.environment.seen ++ [.tuned f] }
    return 0
  band _ _ := 0
  select _ := pure ()
  inputPending := pure true
  indicate i := modify fun w => { w with environment.seen := w.environment.seen ++ [.shown i] }

theorem face_signals : (face : Board (Shared N Panel)).Signals (·.environment.seen) where
  now := .pure _
  relax := .modify fun _ => rfl
  select _ := .pure _
  takeSettlingCycles := .pure _
  inputPending := .pure _
  capture _ _ := rfl
  tune h := by cases h; rfl
  indicate h := by cases h; rfl

def showing (seen : List Signal) : Shared N Panel := { environment := ⟨seen⟩ }

/-- A breakable call at the panel takes the head of `p` to that of `q`. -/
def Calls (mask : SweepMask) (p : Pass N) (seen : List Signal) (r : Except Failure Bool)
    (q : Pass N) (seen' : List Signal) : Prop :=
  ∃ p' w', p.execute face none true mask (showing seen) = .ok ((r, p'), w') ∧
    p'.head = q.head ∧ w'.environment.seen = seen'

/-- With other traces and another capture the course goes on after the call. -/
theorem Calls.operated {γ : Type}
    {note : SweepHead → Bool → SweepMask → Except Failure Bool → γ → γ} {g₀ g : γ}
    {p q : Pass N} {seen seen' : List Signal} {mask : SweepMask} {r : Except Failure Bool}
    (hcall : Calls mask p seen r q seen')
    (h : Pass.Operated face (·.environment.seen) note g₀ g p (showing seen)) :
    Pass.Operated face (·.environment.seen) note g₀ (note p.head true mask r g) q
      (showing seen') := by
  obtain ⟨p', w', hexecute, hhead, hseen⟩ := hcall
  have hafter : Pass.Operated face (·.environment.seen) note g₀ (note p.head true mask r g)
      { p' with traces := q.traces } (showing seen') :=
    (h.call hexecute).meanwhile q.traces hseen.symm
  rw [hhead] at hafter
  exact hafter

/-- A pass of three points, at a bandwidth narrow enough for a bar. -/
def narrow (state : PassState) (progress : Progress) : Pass 3 where
  head :=
    { plan := ⟨1000, 3000, 3⟩, config := { bandwidth := Parameters.bandwidth100 }, state, progress }
  traces := .zero

theorem narrow_first : Calls (.raw .s11) (narrow .idle {}) [] (.ok false)
    (narrow (.stepping 1) { bar := true, light := true })
    [.shown (.activity true), .tuned 1000] :=
  ⟨_, _, rfl, rfl, rfl⟩

end Panel

end NetworkAnalyzer
