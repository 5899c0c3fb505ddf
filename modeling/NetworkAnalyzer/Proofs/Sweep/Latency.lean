import NetworkAnalyzer.Proofs.Loop.Calls
import NetworkAnalyzer.Proofs.Sweep.Slices

/-!
# When a breakable call starts points

Before each point a breakable call checks whether it has to yield: its budget may be spent, user
input may be waiting, or its time slice may be over. `Paced` is a call with these checks: the
points it started, and for each of them where its check began and where the check let it
through.

**Input.** Nothing is assumed of when input arrives or of how fast the clock runs. Input that waits
is a predicate of the shared state that lasts once it holds and makes the board say so (`Waits`).
The first point of a call is started without asking for input, so that a call makes progress even
while the user is busy; if input waits at the beginning, the budget is that one point.

**Time.** The slice begins after the pass was announced. It is checked with a reading of the clock
before every point, so a call that exceeds it does so while it measures its last one.

**Returning.** A call returns if every operation of the board does and the clock does not go back
(`Answers`). That it makes progress also takes a first check that is not late already (`Prompt`). A
row of such calls is a pass: each starts a point that the one before did not.

**Results.**
* `mustYield_start`: what a check that let a point through had found.
* `advance_paced`, `execute_paced`: every call is paced.
* `Paced.latency`: of two points of one call, the first was started before input waited.
* `execute_answers`: a call returns if the board answers and its clock does not go back.
* `Row.advances`, `Row.completes`: prompt calls that do not fail complete the pass.
* `execute_timely`: the points a call starts, where it stands after them, and that calls which
  are let through once complete the pass.
-/

namespace NetworkAnalyzer

variable {N : Nat} {ε : Type} {board : Board (Shared N ε)}

/-- Once it holds it lasts, and while it holds user input is waiting. -/
structure Board.Waits (board : Board (Shared N ε)) (waiting : Shared N ε → Prop) : Prop where
  lasts : ∀ {w w'}, board.Later w w' → waiting w → waiting w'
  pending : ∀ {w b w'}, waiting w → board.inputPending w = .ok (b, w') → b = true

namespace Pass

structure Start (N : Nat) (ε : Type) where
  point : Nat
  /-- Where the check before the point began. -/
  looked : Shared N ε
  /-- Where it let the point through. -/
  began : Shared N ε

/-- The check before the point was made when the slice had lasted for less than its time. -/
def Start.InTime (board : Board (Shared N ε)) (sliceStart : Instant) (s : Start N ε) : Prop :=
  ∃ v t spent, board.Later s.looked v ∧ board.now v = .ok (t, s.began) ∧
    elapsed t sliceStart = .ok spent ∧ spent < Parameters.timeSlice

def Start.Idle (board : Board (Shared N ε)) (s : Start N ε) : Prop :=
  ∃ v, board.inputPending s.looked = .ok (false, v)

variable {c : Setup N} {point : Nat → PointSetup N} {n a k : Nat} {w w' : Shared N ε}
  {starts : List (Start N ε)} {r : Except Failure Bool}

/-! ## Checks -/

/-- A check ends with a reading of the clock, unless the budget is spent or input waits. -/
theorem mustYield_inv {yields : Bool} (hc : c.breakable = true)
    (h : mustYield board c k w = .ok (yields, w')) :
    (yields = true ∧ (c.budget ≤ k ∨ 0 < k ∧ board.inputPending w = .ok (true, w'))) ∨
      k < c.budget ∧ ∃ v t spent,
        ((k = 0 ∧ v = w) ∨ (0 < k ∧ board.inputPending w = .ok (false, v))) ∧
        board.now v = .ok (t, w') ∧ elapsed t c.sliceStart = .ok spent ∧
        yields = decide (Parameters.timeSlice ≤ spent) := by
  have hslice : ∀ {v : Shared N ε}, (do
      return decide (Parameters.timeSlice ≤ (← elapsed (← board.now) c.sliceStart)) :
      Run (Shared N ε) Bool) v = .ok (yields, w') → ∃ t spent, board.now v = .ok (t, w') ∧
        elapsed t c.sliceStart = .ok spent ∧ yields = decide (Parameters.timeSlice ≤ spent) := by
    intro v h
    obtain ⟨t, v₁, hnow, h₁⟩ := Run.bind_inv h
    obtain ⟨spent, v₂, hread, h₂⟩ := Run.bind_inv h₁
    obtain ⟨hspent, rfl⟩ := Run.lift_inv hread
    obtain ⟨rfl, rfl⟩ := Run.pure_inv h₂
    exact ⟨t, spent, hnow, hspent, rfl⟩
  unfold mustYield at h
  rw [hc] at h
  split at h
  · rename_i hbudget
    exact Or.inl ⟨(Run.pure_inv h).1, Or.inl hbudget⟩
  · rename_i hbudget
    have hlt : k < c.budget := Nat.not_le.mp hbudget
    rw [if_neg (by decide)] at h
    split at h
    · rename_i hk
      obtain ⟨pending, v, hask, h₁⟩ := Run.bind_inv h
      cases pending with
      | true =>
        obtain ⟨hy, rfl⟩ := Run.pure_inv h₁
        exact Or.inl ⟨hy, Or.inr ⟨hk, hask⟩⟩
      | false =>
        obtain ⟨t, spent, hnow⟩ := hslice h₁
        exact Or.inr ⟨hlt, v, t, spent, Or.inr ⟨hk, hask⟩, hnow⟩
    · rename_i hk
      obtain ⟨t, spent, hnow⟩ := hslice h
      exact Or.inr ⟨hlt, w, t, spent, Or.inl ⟨by omega, rfl⟩, hnow⟩

theorem mustYield_start {v : Shared N ε} (hc : c.breakable = true)
    (h : mustYield board c k w = .ok (false, v)) :
    Start.InTime board c.sliceStart ⟨a, w, v⟩ ∧ (0 < k → Start.Idle board ⟨a, w, v⟩) := by
  rcases mustYield_inv hc h with ⟨he, -⟩ | ⟨-, x, t, spent, hasked, hnow, hspent, hin⟩
  · cases he
  · have hlt : spent < Parameters.timeSlice := by
      rw [← UInt64.not_le, ← decide_eq_false_iff_not]
      exact hin.symm
    rcases hasked with ⟨rfl, rfl⟩ | ⟨-, hidle⟩
    · exact ⟨⟨x, t, spent, .refl, hnow, hspent, hlt⟩, fun hk => absurd hk (Nat.lt_irrefl 0)⟩
    · exact ⟨⟨x, t, spent, .single (.inputPending hidle), hnow, hspent, hlt⟩, fun _ => ⟨x, hidle⟩⟩

/-! ## Calls with their checks -/

/-- The rest of a call that stands before point `a` of `n` and has measured `k` points. -/
inductive Paced (board : Board (Shared N ε)) (c : Setup N) (point : Nat → PointSetup N)
    (n : Nat) : Nat → Nat → Shared N ε → List (Start N ε) → Except Failure Bool → Prop
  | completed {k : Nat} {w : Shared N ε} : Paced board c point n n k w [] (.ok true)
  | yielded {a k : Nat} {w w' : Shared N ε} : a < n →
      mustYield board c k w = .ok (true, w') → Paced board c point n a k w [] (.ok false)
  | failed {a k : Nat} {w v v' : Shared N ε} {u u' : Traces Float32 N} {e : Failure} : a < n →
      mustYield board c k w = .ok (false, v) →
      (point a).measure board u v = .ok ((.error e, u'), v') →
      Paced board c point n a k w [⟨a, w, v⟩] (.error e)
  | measured {a k : Nat} {w v v' w₁ : Shared N ε} {u u' : Traces Float32 N}
      {starts : List (Start N ε)} {r : Except Failure Bool} : a < n →
      mustYield board c k w = .ok (false, v) →
      (point a).measure board u v = .ok ((.ok (), u'), v') → board.Later v' w₁ →
      Paced board c point n (a + 1) (k + 1) w₁ starts r →
      Paced board c point n a k w (⟨a, w, v⟩ :: starts) r

namespace Paced

theorem points (h : Paced board c point n a k w starts r) :
    starts.map (·.point) = List.range' a starts.length := by
  induction h with
  | completed => rfl
  | yielded => rfl
  | failed => rfl
  | measured _ _ _ _ _ ih => rw [List.map_cons, ih, List.length_cons, List.range'_succ]

theorem bounds (h : Paced board c point n a k w starts r) :
    a + starts.length ≤ n ∧ (r = .ok true → a + starts.length = n) ∧
      (r = .ok false → a + starts.length < n) ∧ ∀ e, r = .error e → starts ≠ [] := by
  induction h with
  | completed => simp
  | yielded hlt => simp; omega
  | failed hlt => simp; omega
  | @measured a k w v v' w₁ u u' starts r hlt _ _ _ _ ih =>
    obtain ⟨hle, hall, hyield, -⟩ := ih
    rw [List.length_cons]
    refine ⟨by omega, fun hr => ?_, fun hr => ?_, fun _ _ => List.cons_ne_nil _ _⟩
    · have := hall hr
      omega
    · have := hyield hr
      omega

theorem yields (h : Paced board c point n a k w starts (.ok false)) :
    ∃ v v', board.Later w v ∧ mustYield board c (k + starts.length) v = .ok (true, v') := by
  generalize hr : (Except.ok false : Except Failure Bool) = r at h
  induction h with
  | completed => cases hr
  | @yielded _ _ w w' _ hlook => exact ⟨w, w', .refl, hlook⟩
  | failed => cases hr
  | measured _ hlook hmeasure hshown _ ih =>
    obtain ⟨v, v', hlater, hyield⟩ := ih hr
    have hmeasured := PointSetup.measure_moves board.frames_later board.tune_later hmeasure
    have hpassed := mustYield_moves board.frames_later c _ hlook
    refine ⟨v, v', hpassed.trans (hmeasured.trans (hshown.trans hlater)), ?_⟩
    rw [List.length_cons, Nat.add_comm _ 1, ← Nat.add_assoc]
    exact hyield

/-- Every point that a call started was measured, but for the last one of a call that failed. -/
theorem measuredAll (h : Paced board c point n a k w starts r) :
    ∀ s ∈ starts, ∃ o u u' v', (point s.point).measure board u s.began = .ok ((o, u'), v') ∧
      ∀ e, o = .error e → r = .error e ∧ starts.getLast? = some s := by
  induction h with
  | completed => exact fun s hs => by cases hs
  | yielded => exact fun s hs => by cases hs
  | @failed _ _ _ _ _ u u' e _ _ hmeasure =>
    intro s hs
    rw [List.mem_singleton.mp hs]
    exact ⟨_, u, u', _, hmeasure, fun e' he => ⟨by cases he; rfl, rfl⟩⟩
  | @measured _ _ _ _ _ _ u u' starts r _ _ hmeasure _ _ ih =>
    intro s hs
    rcases List.mem_cons.mp hs with rfl | hs
    · exact ⟨_, u, u', _, hmeasure, fun e he => by cases he⟩
    · obtain ⟨o, u₁, u₂, v', hs', hfailed⟩ := ih s hs
      refine ⟨o, u₁, u₂, v', hs', fun e he => ⟨(hfailed e he).1, ?_⟩⟩
      rw [List.getLast?_cons, (hfailed e he).2]
      rfl

/-- Every point that a call started was let through by a check of its own. -/
theorem looked (h : Paced board c point n a k w starts r) :
    ∀ s ∈ starts, ∃ m, k ≤ m ∧ mustYield board c m s.looked = .ok (false, s.began) := by
  induction h with
  | completed => exact fun s hs => by cases hs
  | yielded => exact fun s hs => by cases hs
  | failed _ hlook _ =>
    intro s hs
    rw [List.mem_singleton.mp hs]
    exact ⟨_, Nat.le_refl _, hlook⟩
  | measured _ hlook _ _ _ ih =>
    intro s hs
    rcases List.mem_cons.mp hs with rfl | hs
    · exact ⟨_, Nat.le_refl _, hlook⟩
    · obtain ⟨m, hm, hlook'⟩ := ih s hs
      exact ⟨m, Nat.le_of_succ_le hm, hlook'⟩

theorem inTime (hc : c.breakable = true) (h : Paced board c point n a k w starts r) :
    ∀ s ∈ starts, s.InTime board c.sliceStart := by
  intro s hs
  obtain ⟨m, -, hlook⟩ := h.looked s hs
  exact (mustYield_start hc hlook).1

/-- Every point of a call that had measured one was started when no input waited. -/
theorem idle (hc : c.breakable = true) (h : Paced board c point n a k w starts r) (hk : 0 < k) :
    ∀ s ∈ starts, s.Idle board := by
  intro s hs
  obtain ⟨m, hm, hlook⟩ := h.looked s hs
  exact (mustYield_start hc hlook).2 (Nat.lt_of_lt_of_le hk hm)

/-- The checks of a call follow each other, each after the point before it was started. -/
theorem ordered (h : Paced board c point n a k w starts r) :
    (∀ s ∈ starts, board.Later w s.looked) ∧
      starts.Pairwise fun s s' => board.Later s.began s'.looked := by
  induction h with
  | completed => exact ⟨fun s hs => (by cases hs), .nil⟩
  | yielded => exact ⟨fun s hs => (by cases hs), .nil⟩
  | failed =>
    refine ⟨fun s hs => ?_, List.pairwise_singleton _ _⟩
    rw [List.mem_singleton.mp hs]
  | measured _ hlook hmeasure hshown _ ih =>
    obtain ⟨hfirst, hrest⟩ := ih
    have hmeasured := PointSetup.measure_moves board.frames_later board.tune_later hmeasure
    have hpassed := mustYield_moves board.frames_later c _ hlook
    refine ⟨fun s hs => ?_, List.pairwise_cons.mpr ⟨fun s hs => ?_, hrest⟩⟩
    · rcases List.mem_cons.mp hs with rfl | hs
      · exact .refl
      · exact hpassed.trans (hmeasured.trans (hshown.trans (hfirst s hs)))
    · exact hmeasured.trans (hshown.trans (hfirst s hs))

theorem idle_tail (hc : c.breakable = true) (h : Paced board c point n a k w starts r) :
    ∀ s ∈ starts.tail, s.Idle board := by
  cases h with
  | completed => exact fun s hs => by cases hs
  | yielded => exact fun s hs => by cases hs
  | failed => exact fun s hs => by cases hs
  | measured _ _ _ _ hrest => exact hrest.idle hc (Nat.succ_pos _)

/-- Of two points of one call, the first was started before input waited. -/
theorem latency (hc : c.breakable = true) (h : Paced board c point n a k w starts r)
    {waiting : Shared N ε → Prop} (hwaits : board.Waits waiting) {m : Shared N ε}
    (hm : waiting m) {s s' : Start N ε} (hs : [s, s'].Sublist starts) :
    ¬board.Later m s.began := by
  intro hlater
  have hmem : s' ∈ starts.tail := by
    cases hs with
    | cons x hs => exact hs.subset (List.mem_cons_of_mem _ List.mem_cons_self)
    | cons_cons x hs => exact hs.subset List.mem_cons_self
  obtain ⟨v, hidle⟩ := h.idle_tail hc s' hmem
  have hbetween : board.Later s.began s'.looked :=
    (List.pairwise_cons.mp (h.ordered.2.sublist hs)).1 s' List.mem_cons_self
  cases hwaits.pending (hwaits.lasts (hlater.trans hbetween) hm) hidle

theorem late (hc : c.breakable = true) (hbudget : 0 < c.budget)
    (h : Paced board c point n a 0 w [] (.ok false)) : ∃ t spent v, board.now w = .ok (t, v) ∧
      elapsed t c.sliceStart = .ok spent ∧ Parameters.timeSlice ≤ spent := by
  cases h with
  | @yielded _ _ _ w' _ hlook =>
    obtain ⟨-, hspent | ⟨hk, -⟩⟩ | ⟨-, v, t, spent, hv, hread, hspent, hlate⟩ :=
      mustYield_inv hc hlook
    · exact absurd hspent (Nat.not_le.mpr hbudget)
    · exact absurd hk (Nat.lt_irrefl 0)
    · obtain ⟨-, rfl⟩ | ⟨hk, -⟩ := hv
      · exact ⟨t, spent, w', hread, hspent, of_decide_eq_true hlate.symm⟩
      · exact absurd hk (Nat.lt_irrefl 0)

end Paced

/-- Where a call stands that ended before point `b`. -/
def standing (b : Nat) : Except Failure Bool → PassState
  | .ok true => .completed
  | .ok false => .stepping b.toUInt16
  | .error _ => .aborted

variable {calibration : Option (Calibration Float32 N)} {mask : SweepMask} {h₀ : SweepHead}
  {p p' : Pass N}

theorem advance_paced (hcal : c.calibration = calibration) (hmask : c.mask = mask)
    (hgain : c.gain = gainOf h₀.config mask) :
    ∀ {left a k : Nat} {p p' : Pass N} {r : Except Failure Bool} {w w' : Shared N ε},
      a + left = c.points.toNat → p.head.plan = h₀.plan → p.head.config = h₀.config →
      p.head.state = .stepping a.toUInt16 → p.advance board c left k w = .ok ((r, p'), w') →
      ∃ starts, Paced board c (pointOf calibration mask h₀) c.points.toNat a k w starts r ∧
        p'.head.plan = h₀.plan ∧ p'.head.state = standing (a + starts.length) r := by
  have hf := board.frames_later
  intro left
  induction left with
  | zero =>
    intro a k p p' r w w' ha hplan _ _ h
    unfold advance at h
    obtain ⟨p₁, w₁, hdark, h₁⟩ := Run.bind_inv h
    obtain ⟨he, rfl⟩ := Run.pure_inv h₁
    cases he
    obtain ⟨-, hsame⟩ := darken_inv hf hdark
    rw [Nat.add_zero] at ha
    subst ha
    exact ⟨[], .completed, hsame.plan.trans hplan, hsame.state⟩
  | succ left ih =>
    intro a k p p' r w w' ha hplan hconfig hstate h
    unfold advance at h
    obtain ⟨yields, w₁, hyield, h₁⟩ := Run.bind_inv h
    have hlt : a < c.points.toNat := by omega
    cases yields with
    | true =>
      obtain ⟨he, rfl⟩ := Run.pure_inv h₁
      cases he
      exact ⟨[], .yielded hlt hyield, hplan, hstate⟩
    | false =>
      dsimp only at h₁
      rw [index_eq ha, pointSetup_eq hcal hmask hgain hplan hconfig] at h₁
      obtain ⟨⟨outcome, u⟩, w₂, hmeasure, h₂⟩ := Run.bind_inv h₁
      cases outcome with
      | error e =>
        obtain ⟨p₁, w₃, hdark, h₃⟩ := Run.bind_inv h₂
        obtain ⟨he, rfl⟩ := Run.pure_inv h₃
        cases he
        obtain ⟨-, hsame⟩ := darken_inv hf hdark
        exact ⟨_, .failed hlt hyield hmeasure, hsame.plan.trans hplan, hsame.state⟩
      | ok x =>
        obtain ⟨p₁, w₃, hdraw, h₃⟩ := Run.bind_inv h₂
        obtain ⟨hshown, hsame⟩ := showProgress_inv hf hdraw
        have hnext : (p₁.withState (.stepping (a.toUInt16 + 1))).head.state =
            .stepping (a + 1).toUInt16 :=
          congrArg PassState.stepping (UInt16.ofNat_add a 1).symm
        obtain ⟨starts, hpaced, hplan', hstate'⟩ :=
          ih (a := a + 1) (p := p₁.withState (.stepping (a.toUInt16 + 1))) (by omega)
            (hsame.plan.trans hplan) (hsame.config.trans hconfig) hnext h₃
        refine ⟨_, .measured hlt hyield hmeasure hshown hpaced, hplan', hstate'.trans ?_⟩
        rw [List.length_cons, show a + 1 + starts.length = a + (starts.length + 1) by omega]

/-- What the first check of a breakable call reads. -/
def firstLook (board : Board (Shared N ε)) (p : Pass N) : Run (Shared N ε) Duration := do
  let p ← p.rewind board true
  let _ ← callBudget board true
  let _ ← p.announce board
  let sliceStart ← board.now
  elapsed (← board.now) sliceStart

theorem callBudget_pos {budget : Nat} (h : callBudget board true w = .ok (budget, w')) :
    0 < budget := by
  unfold callBudget at h
  rw [if_neg (by decide)] at h
  obtain ⟨pending, v, -, h₁⟩ := Run.bind_inv h
  cases pending with
  | true =>
    obtain ⟨rfl, -⟩ := Run.pure_inv h₁
    exact Nat.one_pos
  | false =>
    obtain ⟨rfl, -⟩ := Run.pure_inv h₁
    decide

/-- A breakable call with something selected is paced. A call that started no point and yielded
had a first check that came too late. -/
theorem execute_paced (hselected : mask.isEmpty = false)
    (h : p.execute board calibration true mask w = .ok ((r, p'), w')) :
    ∃ (c : Setup N) (v₀ v₁ : Shared N ε) (starts : List (Start N ε)), c.breakable = true ∧
      (∃ v v', board.Later w v ∧ callBudget board true v = .ok (c.budget, v')) ∧
      board.Later w v₀ ∧ board.now v₀ = .ok (c.sliceStart, v₁) ∧
      Paced board c (pointOf calibration mask p.head) (p.head.points N).toNat
        (p.head.startPoint N true) 0 v₁ starts r ∧
      p'.head.plan = p.head.plan ∧
      p'.head.state = standing (p.head.startPoint N true + starts.length) r ∧
      (r = .ok false → starts = [] → ∃ spent v, p.firstLook board w = .ok (spent, v) ∧
        Parameters.timeSlice ≤ spent) := by
  have hf := board.frames_later
  unfold execute at h
  obtain ⟨p₁, w₁, hrewind, h₁⟩ := Run.bind_inv h
  rw [hselected, if_neg (by decide)] at h₁
  obtain ⟨budget, w₂, hbudget, h₂⟩ := Run.bind_inv h₁
  obtain ⟨p₂, w₃, hannounce, h₃⟩ := Run.bind_inv h₂
  obtain ⟨sliceStart, w₄, hnow, h₄⟩ := Run.bind_inv h₃
  obtain ⟨hplan, hconfig, hpoints, hstart, hleft⟩ := announce_start hf hrewind hannounce
  obtain ⟨hmoved₁, -⟩ := rewind_inv hf hrewind
  have hmoved : board.Later w w₃ :=
    (hmoved₁.trans (callBudget_moves hf _ hbudget)).trans (announce_inv hf hannounce).1
  have hgain : gainOf p₂.head.config mask = gainOf p.head.config mask := by rw [hconfig]
  have hstate : (p₂.withState (.stepping (p₂.head.nextPoint N))).head.state =
      .stepping (p₂.head.nextPoint N).toNat.toUInt16 :=
    congrArg PassState.stepping UInt16.ofNat_toNat.symm
  obtain ⟨starts, hpaced, hplan', hstate'⟩ :=
    advance_paced (p := p₂.withState (.stepping (p₂.head.nextPoint N))) rfl rfl hgain
      hleft hplan hconfig hstate h₄
  rw [hstart] at hpaced hstate'
  dsimp only at hpaced
  rw [hpoints] at hpaced
  refine ⟨_, w₃, w₄, starts, rfl, ⟨w₁, w₂, hmoved₁, hbudget⟩, hmoved, hnow, hpaced, hplan',
    hstate', fun hr hnil => ?_⟩
  subst hr hnil
  obtain ⟨t, spent, v, hread, hspent, hlate⟩ := hpaced.late rfl (callBudget_pos hbudget)
  refine ⟨spent, v, ?_, hlate⟩
  unfold firstLook
  rw [Run.bind_ok _ hrewind, Run.bind_ok _ hbudget, Run.bind_ok _ hannounce, Run.bind_ok _ hnow,
    Run.bind_ok _ hread]
  rw [show elapsed t sliceStart = .ok spent from hspent]
  rfl

/-! ## Calls return -/

/-- From `w` on every operation of the board returns, the clock does not go back, and every
measurement of one of `n` points ends. -/
structure Answers (board : Board (Shared N ε)) (point : Nat → PointSetup N) (n : Nat)
    (w : Shared N ε) : Prop where
  now : ∀ {v}, board.Later w v → ∃ t v', board.now v = .ok (t, v')
  inputPending : ∀ {v}, board.Later w v → ∃ b v', board.inputPending v = .ok (b, v')
  indicate : ∀ {v} i, board.Later w v → ∃ v', board.indicate i v = .ok ((), v')
  measure : ∀ {v i} u, i < n → board.Later w v →
    ∃ r v', (point i).measure board u v = .ok (r, v')
  clock : ∀ {v t v' x t' x'}, board.Later w v → board.now v = .ok (t, v') → board.Later v' x →
    board.now x = .ok (t', x') → t' - t ≤ 0x7fffffffffffffff

namespace Answers

variable {v : Shared N ε}

theorem indicateAll (hans : Answers board point n w) : ∀ (shown : List Indication)
    {v : Shared N ε}, board.Later w v → ∃ v', board.indicateAll shown v = .ok ((), v') := by
  intro shown
  induction shown with
  | nil => exact fun {v} _ => ⟨v, rfl⟩
  | cons i shown ih =>
    intro v hv
    obtain ⟨v₁, hi⟩ := hans.indicate i hv
    obtain ⟨v₂, hrest⟩ := ih (hv.tail (.indicate hi))
    exact ⟨v₂, (Run.bind_ok _ hi).trans hrest⟩

theorem showProgress (hans : Answers board point n w) (p : Pass N)
    (step : Progress × List Indication) (hv : board.Later w v) :
    ∃ p' v', p.showProgress board step v = .ok (p', v') := by
  obtain ⟨v', hshown⟩ := hans.indicateAll step.2 hv
  exact ⟨_, v', Run.bind_ok _ hshown⟩

theorem mustYield (hans : Answers board point n w) (k : Nat) {v₀ v₁ : Shared N ε}
    (hslice : board.Later w v₀) (hnow : board.now v₀ = .ok (c.sliceStart, v₁))
    (hv : board.Later v₁ v) : ∃ b v', Pass.mustYield board c k v = .ok (b, v') := by
  have hstart : board.Later w v₁ := hslice.tail (.now hnow)
  have hread : ∀ {x : Shared N ε}, board.Later v₁ x → ∃ b v', (do
      return decide (Parameters.timeSlice ≤ (← elapsed (← board.now) c.sliceStart)) :
      Run (Shared N ε) Bool) x = .ok (b, v') := by
    intro x hx
    obtain ⟨t, x', ht⟩ := hans.now (hstart.trans hx)
    have hspent : elapsed t c.sliceStart = .ok (t - c.sliceStart) :=
      if_pos (hans.clock hslice hnow hx ht)
    rw [Run.bind_ok _ ht, hspent]
    exact ⟨_, x', rfl⟩
  unfold Pass.mustYield
  split
  · exact ⟨true, v, rfl⟩
  split
  · exact ⟨false, v, rfl⟩
  split
  · obtain ⟨b, x, hask⟩ := hans.inputPending (hstart.trans hv)
    rw [Run.bind_ok _ hask]
    cases b with
    | true => exact ⟨true, x, rfl⟩
    | false => exact hread (hv.tail (.inputPending hask))
  · exact hread hv

theorem advance (hans : Answers board (pointOf calibration mask h₀) n w) (hn : c.points.toNat = n)
    (hcal : c.calibration = calibration) (hmask : c.mask = mask)
    (hgain : c.gain = gainOf h₀.config mask) {v₀ v₁ : Shared N ε} (hslice : board.Later w v₀)
    (hnow : board.now v₀ = .ok (c.sliceStart, v₁)) :
    ∀ {left a k : Nat} {p : Pass N} {v : Shared N ε}, a + left = c.points.toNat →
      p.head.plan = h₀.plan → p.head.config = h₀.config → board.Later v₁ v →
      ∃ r v', p.advance board c left k v = .ok (r, v') := by
  have hf := board.frames_later
  have hstart : board.Later w v₁ := hslice.tail (.now hnow)
  intro left
  induction left with
  | zero =>
    intro a k p v _ _ _ hv
    obtain ⟨p', v', hdark⟩ := hans.showProgress (p.withState .completed)
      (p.withState .completed).head.progress.finish (hstart.trans hv)
    exact ⟨_, v', Run.bind_ok _ hdark⟩
  | succ left ih =>
    intro a k p v ha hplan hconfig hv
    obtain ⟨yields, x, hyield⟩ := hans.mustYield k hslice hnow hv
    have hx : board.Later v₁ x := hv.trans (mustYield_moves hf c k hyield)
    unfold Pass.advance
    rw [Run.bind_ok _ hyield]
    cases yields with
    | true => exact ⟨_, x, rfl⟩
    | false =>
      dsimp only
      rw [index_eq ha, pointSetup_eq hcal hmask hgain hplan hconfig]
      have ha' : a < n := by omega
      obtain ⟨⟨outcome, u⟩, y, hmeasure⟩ := hans.measure p.traces ha' (hstart.trans hx)
      have hy : board.Later v₁ y :=
        hx.trans (PointSetup.measure_moves hf board.tune_later hmeasure)
      rw [if_neg (by decide), Run.bind_ok _ hmeasure]
      cases outcome with
      | error e =>
        let q : Pass N := { p with traces := u }
        obtain ⟨p', v', hdark⟩ := hans.showProgress (q.withState .aborted)
          (q.withState .aborted).head.progress.finish (hstart.trans hy)
        exact ⟨_, v', Run.bind_ok _ hdark⟩
      | ok o =>
        let q : Pass N := { p with traces := u }
        obtain ⟨p', v', hdraw⟩ := hans.showProgress q
          (q.head.progress.update a.toUInt16 c.points) (hstart.trans hy)
        obtain ⟨hmoved, hsame⟩ := showProgress_inv hf hdraw
        dsimp only
        rw [Run.bind_ok _ hdraw]
        exact ih (a := a + 1) (by omega) (hsame.plan.trans hplan) (hsame.config.trans hconfig)
          (hy.trans hmoved)

end Answers

theorem execute_answers
    (hans : Answers board (pointOf calibration mask p.head) (p.head.points N).toNat w) :
    ∃ r v, p.execute board calibration true mask w = .ok (r, v) := by
  have hf := board.frames_later
  have hrewind : ∃ p₁ w₁, p.rewind board true w = .ok (p₁, w₁) := by
    unfold rewind
    split
    · exact hans.showProgress _ _ .refl
    · exact ⟨p, w, rfl⟩
  obtain ⟨p₁, w₁, hrewind⟩ := hrewind
  have hw₁ : board.Later w w₁ := (rewind_inv hf hrewind).1
  unfold execute
  rw [Run.bind_ok _ hrewind]
  split
  · obtain ⟨p₂, w₂, hdark⟩ := hans.showProgress p₁ p₁.head.progress.finish hw₁
    exact ⟨_, w₂, Run.bind_ok _ hdark⟩
  · obtain ⟨pending, w₂, hask⟩ := hans.inputPending hw₁
    have hbudget : ∃ budget, callBudget board true w₁ = .ok (budget, w₂) := by
      unfold callBudget
      rw [if_neg (by decide), Run.bind_ok _ hask]
      cases pending with
      | true => exact ⟨1, rfl⟩
      | false => exact ⟨Parameters.pointsMax, rfl⟩
    obtain ⟨budget, hbudget⟩ := hbudget
    have hw₂ : board.Later w w₂ := hw₁.tail (.inputPending hask)
    have hannounce : ∃ p₂ w₃, p₁.announce board w₂ = .ok (p₂, w₃) := by
      unfold announce
      split
      · exact hans.showProgress _ _ hw₂
      · exact ⟨p₁, w₂, rfl⟩
    obtain ⟨p₂, w₃, hannounce⟩ := hannounce
    have hw₃ : board.Later w w₃ := hw₂.trans (announce_inv hf hannounce).1
    obtain ⟨sliceStart, w₄, hnow⟩ := hans.now hw₃
    obtain ⟨hplan, hconfig, hpoints, -, hleft⟩ := announce_start hf hrewind hannounce
    rw [Run.bind_ok _ hbudget, Run.bind_ok _ hannounce, Run.bind_ok _ hnow]
    refine hans.advance (congrArg UInt16.toNat hpoints) rfl rfl ?_ hw₃ hnow hleft hplan hconfig
      .refl
    rw [hconfig]

/-! ## Calls in time -/

/-- The first check of the call comes before its time slice is over. -/
def Prompt (board : Board (Shared N ε)) (p : Pass N) (w : Shared N ε) : Prop :=
  ∃ spent v, p.firstLook board w = .ok (spent, v) ∧ spent < Parameters.timeSlice

/-- What a breakable call from `w` on does: the points it started, its outcome, and the state
it left the pass in. -/
structure Timely (board : Board (Shared N ε)) (point : Nat → PointSetup N) (p : Pass N)
    (w : Shared N ε) (starts : List (Start N ε)) (r : Except Failure Bool)
    (state : PassState) : Prop where
  points : starts.map (·.point) = List.range' (p.head.startPoint N true) starts.length
  measured : ∀ s ∈ starts, ∃ o u u' v',
    (point s.point).measure board u s.began = .ok ((o, u'), v') ∧
      ∀ e, o = .error e → r = .error e ∧ starts.getLast? = some s
  /-- No point is started once a check read that the slice is over. -/
  inTime : ∃ v₀ sliceStart v₁, board.Later w v₀ ∧ board.now v₀ = .ok (sliceStart, v₁) ∧
    ∀ s ∈ starts, board.Later v₁ s.looked ∧ s.InTime board sliceStart
  ordered : starts.Pairwise fun s s' => board.Later s.began s'.looked
  /-- Of two points started one after the other, the first was before input waited. -/
  latency : ∀ waiting, board.Waits waiting → ∀ m, waiting m → ∀ s s',
    [s, s'].Sublist starts → ¬board.Later m s.began
  stands : state = standing (p.head.startPoint N true + starts.length) r
  all : r = .ok true → p.head.startPoint N true + starts.length = (p.head.points N).toNat
  early : r = .ok false → p.head.startPoint N true + starts.length < (p.head.points N).toNat
  failed : ∀ e, r = .error e → starts ≠ []
  /-- A call with a prompt first check starts a point, unless there is none. -/
  progress : p.Prompt board w → starts = [] → r = .ok true ∧ (p.head.points N).toNat = 0

/-- Breakable calls in a row that did not fail: `done i` says whether call `i` measured every
point that was left. Traces, parameters and the shared state may change between two calls, the
plan and where the pass stands may not. -/
structure Row (board : Board (Shared N ε)) (count : Nat) (q : Nat → Pass N)
    (x : Nat → Shared N ε) (done : Nat → Bool) : Prop where
  call : ∀ i < count, ∃ calibration mask p' w', (mask : SweepMask).isEmpty = false ∧
    (q i).execute board calibration true mask (x i) = .ok ((.ok (done i), p'), w') ∧
    (q (i + 1)).head.plan = p'.head.plan ∧ (q (i + 1)).head.state = p'.head.state

theorem timely_of_execute (hselected : mask.isEmpty = false)
    (h : p.execute board calibration true mask w = .ok ((r, p'), w')) :
    ∃ starts, Timely board (pointOf calibration mask p.head) p w starts r p'.head.state ∧
      p'.head.plan = p.head.plan := by
  obtain ⟨c, v₀, v₁, starts, hc, -, hslice, hnow, hpaced, hplan, hstate, hlate⟩ :=
    execute_paced hselected h
  obtain ⟨-, hall, hearly, hfailed⟩ := hpaced.bounds
  refine ⟨starts, ⟨hpaced.points, hpaced.measuredAll, ⟨v₀, c.sliceStart, v₁, hslice, hnow,
    fun s hs => ⟨hpaced.ordered.1 s hs, hpaced.inTime hc s hs⟩⟩, hpaced.ordered.2,
    fun waiting hwaits m hm s s' hs => hpaced.latency hc hwaits hm hs, hstate, hall, hearly,
    hfailed, ?_⟩, hplan⟩
  rintro ⟨spent, v, hlook, hprompt⟩ hnil
  cases r with
  | error e => exact absurd hnil (hfailed e rfl)
  | ok all =>
    cases all with
    | false =>
      obtain ⟨spent', v', hlook', hover⟩ := hlate rfl hnil
      rw [hlook] at hlook'
      cases hlook'
      exact absurd hover (UInt64.not_le.mpr hprompt)
    | true =>
      refine ⟨rfl, Nat.eq_zero_of_not_pos fun hpos => ?_⟩
      have hlt := SweepHead.startPoint_lt hpos true
      have hend := hall rfl
      rw [hnil, List.length_nil] at hend
      omega

/-- A call that yields leaves the next one further on, if its first check is prompt. -/
theorem Row.advances {count : Nat} {q : Nat → Pass N} {x : Nat → Shared N ε}
    {done : Nat → Bool} (hrow : Row board count q x done) {i : Nat} (hi : i < count)
    (hprompt : (q i).Prompt board (x i)) (hyield : done i = false) :
    (q (i + 1)).head.plan = (q i).head.plan ∧
      (q i).head.startPoint N true < (q (i + 1)).head.startPoint N true ∧
      (q (i + 1)).head.startPoint N true < ((q i).head.points N).toNat := by
  obtain ⟨calibration, mask, p', w', hselected, hcall, hplan, hstate⟩ := hrow.call i hi
  rw [hyield] at hcall
  obtain ⟨starts, htimely, hplan'⟩ := timely_of_execute hselected hcall
  have hlt := htimely.early rfl
  have hpos : 0 < starts.length :=
    List.length_pos_iff.mpr fun hnil => by cases (htimely.progress hprompt hnil).1
  have hnext : (q (i + 1)).head.startPoint N true =
      (q i).head.startPoint N true + starts.length := by
    refine SweepHead.startPoint_of_yielded ?_ (hstate.trans htimely.stands)
    rw [SweepHead.points_congr (hplan.trans hplan')]
    exact hlt
  refine ⟨hplan.trans hplan', ?_, ?_⟩
  · omega
  · omega

/-- Prompt calls that do not fail complete the pass: there are at most as many as points. -/
theorem Row.completes {q : Nat → Pass N} {x : Nat → Shared N ε} {done : Nat → Bool}
    (hrow : Row board (max ((q 0).head.points N).toNat 1) q x done)
    (hprompt : ∀ i < max ((q 0).head.points N).toNat 1, (q i).Prompt board (x i)) :
    ∃ i < max ((q 0).head.points N).toNat 1, done i = true := by
  refine Classical.byContradiction fun hnone => ?_
  have hyields : ∀ i < max ((q 0).head.points N).toNat 1, done i = false := by
    intro i hi
    rw [← Bool.not_eq_true]
    exact fun hdone => hnone ⟨i, hi, hdone⟩
  -- every call that yields moves the start point on
  have hfar : ∀ i ≤ max ((q 0).head.points N).toNat 1,
      (q i).head.plan = (q 0).head.plan ∧ i ≤ (q i).head.startPoint N true ∧
        (0 < i → (q i).head.startPoint N true < ((q 0).head.points N).toNat) := by
    intro i
    induction i with
    | zero => exact fun _ => ⟨rfl, Nat.zero_le _, fun h => absurd h (Nat.lt_irrefl 0)⟩
    | succ i ih =>
      intro hi
      obtain ⟨hplan, hle, -⟩ := ih (Nat.le_of_succ_le hi)
      obtain ⟨hplan', hlt, hin⟩ := hrow.advances hi (hprompt i hi) (hyields i hi)
      rw [SweepHead.points_congr hplan] at hin
      exact ⟨hplan'.trans hplan, by omega, fun _ => hin⟩
  obtain ⟨-, hle, hlt⟩ := hfar _ (Nat.le_refl _)
  have := hlt (by omega)
  omega

/-- Breakable calls with something selected. Whatever the board answers: the points a call starts
follow each other, in time and without input waiting before any but the first, and the call
stands after them. It returns if the board answers, and prompt calls that do not fail complete
the pass, in at most as many calls as points. -/
theorem execute_timely (hselected : mask.isEmpty = false) (p : Pass N)
    (calibration : Option (Calibration Float32 N)) (w : Shared N ε) :
    (∀ {r p' w'}, p.execute board calibration true mask w = .ok ((r, p'), w') →
      ∃ starts, Timely board (pointOf calibration mask p.head) p w starts r p'.head.state) ∧
    (Answers board (pointOf calibration mask p.head) (p.head.points N).toNat w →
      ∃ r p' w', p.execute board calibration true mask w = .ok ((r, p'), w')) ∧
    ∀ {q x done}, q 0 = p → Row board (max (p.head.points N).toNat 1) q x done →
      (∀ i < max (p.head.points N).toNat 1, (q i).Prompt board (x i)) →
      ∃ i < max (p.head.points N).toNat 1, done i = true := by
  refine ⟨fun h => ?_, fun hans => ?_, fun hq hrow hprompt => ?_⟩
  · obtain ⟨starts, htimely, -⟩ := timely_of_execute hselected h
    exact ⟨starts, htimely⟩
  · obtain ⟨⟨r, p'⟩, w', h⟩ := execute_answers hans
    exact ⟨r, p', w', h⟩
  · subst hq
    exact hrow.completes hprompt

end Pass

/-! ## A test set that meets the assumptions -/

namespace TestSet

theorem answers : Pass.Answers (N := 2) source (Pass.pointOf none (.raw .s11) twoPoints.head) 2
    { environment := {} } where
  now _ := ⟨0, _, rfl⟩
  inputPending _ := ⟨true, _, rfl⟩
  indicate _ _ := ⟨_, rfl⟩
  measure {v i} u hi _ := by
    obtain rfl | rfl : i = 0 ∨ i = 1 := by omega
    · exact ⟨_, _, rfl⟩
    · exact ⟨_, _, rfl⟩
  clock := by
    intro v t v' x t' x' _ h _ h'
    cases h
    cases h'
    decide

/-- Input waits all the time: the first call starts one point, and the second call completes the
pass. -/
theorem execute_timely_twoPoints :
    (∃ p' w' starts, twoPoints.execute source none true (.raw .s11) { environment := {} } =
        .ok ((.ok false, p'), w') ∧ starts.map (·.point) = [0] ∧
      Pass.Timely source (Pass.pointOf none (.raw .s11) twoPoints.head) twoPoints
        { environment := {} } starts (.ok false) p'.head.state) ∧
    (∃ r p' w', twoPoints.execute source none true (.raw .s11) { environment := {} } =
        .ok ((r, p'), w')) ∧
    ∃ q x done, q 0 = twoPoints ∧ Pass.Row source 2 q x done ∧ ∃ i < 2, done i = true := by
  have hselected : (SweepMask.raw .s11).isEmpty = false := by decide
  obtain ⟨htimely, hreturns, hrow⟩ :=
    @Pass.execute_timely _ _ source _ hselected twoPoints none { environment := {} }
  have hcalls : ∃ p₁ w₁ p₂ w₂,
      twoPoints.execute source none true (.raw .s11) { environment := {} } =
        .ok ((.ok false, p₁), w₁) ∧ p₁.head.state = .stepping 1 ∧
      p₁.execute source none true (.raw .s11) w₁ = .ok ((.ok true, p₂), w₂) ∧
      p₁.Prompt source w₁ := ⟨_, _, _, _, rfl, rfl, rfl, 0, _, rfl, by decide⟩
  obtain ⟨p₁, w₁, p₂, w₂, h₁, hstate, h₂, hprompt⟩ := hcalls
  refine ⟨?_, hreturns answers, ?_⟩
  · obtain ⟨starts, h⟩ := htimely h₁
    refine ⟨p₁, w₁, starts, h₁, ?_, h⟩
    have hlength : starts.length = 1 := by
      have hstands : PassState.stepping 1 = .stepping (0 + starts.length).toUInt16 :=
        hstate.symm.trans h.stands
      have hlt : 0 + starts.length < 2 := h.early rfl
      have hpos : starts ≠ [] := by
        rintro rfl
        cases hstands
      have := List.length_pos_iff.mpr hpos
      omega
    rw [h.points, hlength]
    rfl
  · have hrow' : Pass.Row source 2
        (fun i => if i = 0 then twoPoints else if i = 1 then p₁ else p₂)
        (fun i => if i = 0 then { environment := {} } else w₁) (fun i => decide (i ≠ 0)) := by
      refine ⟨fun i hi => ?_⟩
      obtain rfl | rfl : i = 0 ∨ i = 1 := by omega
      · exact ⟨none, .raw .s11, p₁, w₁, by decide, h₁, rfl, rfl⟩
      · exact ⟨none, .raw .s11, p₂, w₂, by decide, h₂, rfl, rfl⟩
    refine ⟨_, _, _, rfl, hrow', hrow rfl hrow' fun i hi => ?_⟩
    obtain rfl | rfl : i = 0 ∨ i = 1 := by
      have hi : i < 2 := hi
      omega
    · exact ⟨0, _, rfl, by decide⟩
    · exact hprompt

end TestSet

end NetworkAnalyzer
