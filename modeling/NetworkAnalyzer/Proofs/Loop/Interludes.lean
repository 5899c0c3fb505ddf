import NetworkAnalyzer.MeasurementLoop
import NetworkAnalyzer.Proofs.Readout.History
import NetworkAnalyzer.Proofs.Sweep.Call

/-!
# Between two calls of a pass

Before every tick the host serves the instrument: it may adopt settings, scan, measure
standards and change the calibration, in any order (`ServiceStep`). Whatever it does, the
pass in progress stands where it stood, on the traces it left, or the next call starts
over at point 0 (`Interlude`).

There are two reasons for starting over. Settings with another plan restart the pass. A pass
outside the regular cycle, for a scan or a standard, uses the same head and is not breakable, so it
leaves the head at an end and never inside a pass. Whether it succeeds makes no difference. Only a
pass that could not begin, because somebody else had the buffers, leaves the head as it was, and
the traces too.

`SoleWriter board host` says that nobody else writes to the traces: neither the board, while the
loop waits, nor a listener. This is the assumption under which the traces of the pass are still
there.

* `Interlude`: the relation, a preorder, so that any number of service steps is one interlude.
* `Shared.onClaimed_inv`: the buffers are held, or they are claimed from idle.
* `scan_inv`: a scan is one whole pass, or nothing.
* `scan_interlude`, `collect_moves`: passes outside the regular cycle start over.
* `sweep_scan`, `Instrument.scan_inv`, `Instrument.calibrate_inv`: what these operations run.
* `SoleWriter.interlude`: what serving the instrument does to the pass.
-/

namespace NetworkAnalyzer

variable {N : Nat} {ε : Type} {board : Board (Shared N ε)} {host : Host N ε}

/-- What readers are shown: the traces and their generation. -/
def Shared.shown (w : Shared N ε) : Traces Float32 N × UInt32 :=
  (w.buffers.traces, w.buffers.generation)

/-- The pass stands where it stood, over the same plan and on the same traces, or the next
call starts over. -/
def Interlude (s s' : SweepHead × Shared N ε) : Prop :=
  s'.1.startPoint N true = 0 ∨
    (s'.1.state = s.1.state ∧ s'.1.plan = s.1.plan ∧ s'.2.buffers.traces = s.2.buffers.traces)

instance : IsPreorder (SweepHead × Shared N ε) Interlude where
  refl _ := Or.inr ⟨rfl, rfl, rfl⟩
  trans _ _ _ h₁ h₂ := by
    rcases h₂ with hover | ⟨hstate, hplan, htraces⟩
    · exact Or.inl hover
    · rcases h₁ with hover | ⟨hstate', hplan', htraces'⟩
      · exact Or.inl ((SweepHead.startPoint_congr hstate hplan true).trans hover)
      · exact Or.inr ⟨hstate.trans hstate', hplan.trans hplan', htraces.trans htraces'⟩

theorem Interlude.over {s s' : SweepHead × Shared N ε} (h : ∀ k, s'.1.state ≠ .stepping k) :
    Interlude s s' := Or.inl (SweepHead.startPoint_of_not_stepping h true)

/-! ## What holds in any world -/

theorem SweepHead.execute_plan {calibration : Option (Calibration Float32 N)} {breakable : Bool}
    {mask : SweepMask} {p p' : Pass N} {r : Except Failure Bool} {w w' : Shared N ε}
    (h : p.execute board calibration breakable mask w = .ok ((r, p'), w')) :
    p'.head.plan = p.head.plan := (Pass.execute_inv board.frames_true h).1

/-! ## Passes outside the regular cycle -/

/-- A wait for the buffers shows readers what they saw before. -/
theorem Board.Frames.awaitCopyRelease {R : Shared N ε → Shared N ε → Prop}
    [IsPreorder (Shared N ε) R] (hf : board.Frames R) :
    Moves R (Shared.awaitCopyRelease board.toTimebase) := by
  unfold Shared.awaitCopyRelease
  refine .bind (.waitUntil hf.now hf.relax (.bind .get fun _ => .pure _)) fun free => ?_
  cases free with
  | true => exact .pure _
  | false => exact .pure _

/-- What is done once the buffers are claimed, or if they are held. -/
def Shared.onClaimed {α : Type} (board : Board (Shared N ε))
    (refused : Failure → Run (Shared N ε) α) (granted : Buffers N → Run (Shared N ε) α) :
    Run (Shared N ε) α := do
  match ← Shared.awaitCopyRelease board.toTimebase with
  | .error e => refused e
  | .ok () =>
    match (← get).buffers.begin with
    | .error e => refused e
    | .ok b => granted b

/-- Whether the buffers can be claimed does not depend on what is done with them. -/
theorem Shared.onClaimed_inv {R : Shared N ε → Shared N ε → Prop} [IsPreorder (Shared N ε) R]
    (hf : board.Frames R) {α : Type} {refused : Failure → Run (Shared N ε) α}
    {granted : Buffers N → Run (Shared N ε) α} {w : Shared N ε} {r : α × Shared N ε}
    (h : onClaimed board refused granted w = .ok r) :
    (∃ e v, R w v ∧ refused e v = .ok r ∧
        ∀ {β : Type} (refused' : Failure → Run (Shared N ε) β) granted',
          onClaimed board refused' granted' w = refused' e v) ∨
      ∃ v, R w v ∧ v.buffers.role = .idle ∧
        granted { v.buffers with role := .sweeping } v = .ok r ∧
          ∀ {β : Type} (refused' : Failure → Run (Shared N ε) β) granted',
            onClaimed board refused' granted' w =
              granted' { v.buffers with role := .sweeping } v := by
  unfold onClaimed at h ⊢
  obtain ⟨free, v, hwait, h⟩ := Run.bind_inv h
  have hmoved : R w v := hf.awaitCopyRelease hwait
  cases free with
  | error e =>
    refine Or.inl ⟨e, v, hmoved, h, fun refused' granted' => ?_⟩
    rw [Run.bind_ok _ hwait]
  | ok _ =>
    dsimp only at h
    rw [Run.get_bind] at h
    cases hbegin : v.buffers.begin with
    | error e =>
      rw [hbegin] at h
      refine Or.inl ⟨e, v, hmoved, h, fun refused' granted' => ?_⟩
      rw [Run.bind_ok _ hwait]
      dsimp only
      rw [Run.get_bind, hbegin]
    | ok b =>
      rw [hbegin] at h
      obtain ⟨hidle, rfl⟩ := Buffers.begin_ok hbegin
      refine Or.inr ⟨v, hmoved, hidle, h, fun refused' granted' => ?_⟩
      rw [Run.bind_ok _ hwait]
      dsimp only
      rw [Run.get_bind, hbegin]

namespace SweepHead

variable {calibration : Option (Calibration Float32 N)}

/-- A pass that is not breakable leaves its head outside of any pass. -/
theorem execute_over {R : Shared N ε → Shared N ε → Prop} [IsPreorder (Shared N ε) R]
    (hf : board.Frames R) {h h' : SweepHead} {mask : SweepMask} {r : Except Failure Bool}
    {u u' : Traces Float32 N} {w w' : Shared N ε}
    (hrun : Pass.execute board calibration false mask ⟨h, u⟩ w = .ok ((r, ⟨h', u'⟩), w'))
    (k : UInt16) : h'.state ≠ .stepping k := by
  have hwhole : r ≠ .ok false := Pass.execute_unbreakable hrun
  obtain ⟨-, -, ⟨hempty, -⟩ | ⟨-, b, t, w₁, -, hended⟩⟩ := Pass.execute_inv hf hrun
  · cases hempty
  · cases hended with
    | completed hstate => exact fun hk => by cases hstate.symm.trans hk
    | yielded => exact absurd rfl hwhole
    | aborted _ hstate => exact fun hk => by cases hstate.symm.trans hk

/-- A scan fails before it starts and leaves its head, or it finds the buffers free and is one
whole pass on their traces, after which it gives them back. -/
theorem scan_inv {R : Shared N ε → Shared N ε → Prop} [IsPreorder (Shared N ε) R]
    (hf : board.Frames R) {mask : SweepMask} {h h' : SweepHead}
    {r : Except Failure (Traces Float32 N)} {w w' : Shared N ε}
    (hscan : h.scan board calibration mask w = .ok ((r, h'), w')) :
    (h' = h ∧ (∃ e, r = .error e) ∧ R w w') ∨
      ∃ w₀ outcome u' w₁, R w w₀ ∧ w₀.buffers.role = .idle ∧
        Pass.execute board calibration false mask ⟨h, w₀.buffers.traces⟩
          { w₀ with buffers := { w₀.buffers with role := .sweeping, points := h.points N } } =
            .ok ((outcome, ⟨h', u'⟩), w₁) ∧
        r = (sessionOutcome outcome).map (fun _ => u') ∧
        w' = { w₁ with
          buffers := { w₁.buffers with traces := u' }.finish (outcome matches .ok true) } := by
  obtain ⟨e, v, hkept, hrefused, -⟩ | ⟨v, hkept, hidle, hgranted, -⟩ :=
    Shared.onClaimed_inv hf (show Shared.onClaimed board _ _ w = _ from hscan)
  · obtain ⟨he, rfl⟩ := Run.pure_inv hrefused
    cases he
    exact Or.inl ⟨rfl, ⟨e, rfl⟩, hkept⟩
  · obtain ⟨u, w₂, hclaimed, hscan₂⟩ := Run.bind_inv hgranted
    cases hclaimed
    obtain ⟨⟨outcome, h₁⟩, w₃, hpass, hscan₃⟩ := Run.bind_inv hscan₂
    dsimp only at hscan₃
    rw [Run.get_bind, Run.get_bind] at hscan₃
    obtain ⟨u', w₄, hfinished, hscan₄⟩ := Run.bind_inv hscan₃
    obtain ⟨he, rfl⟩ := Run.pure_inv hscan₄
    cases hfinished
    cases he
    unfold passOnBuffers at hpass
    rw [Run.get_bind] at hpass
    obtain ⟨⟨outcome', p⟩, w₅, hexecute, hpass₁⟩ := Run.bind_inv hpass
    dsimp only at hpass₁
    rw [Run.modify_bind] at hpass₁
    obtain ⟨he', rfl⟩ := Run.pure_inv hpass₁
    cases he'
    exact Or.inr ⟨v, _, _, _, hkept, hidle, hexecute, rfl, rfl⟩

theorem scan_kept {mask : SweepMask} {h h' : SweepHead} {r : Except Failure (Traces Float32 N)}
    {w w' : Shared N ε} (hscan : h.scan board calibration mask w = .ok ((r, h'), w')) :
    h'.plan = h.plan ∧ h'.config = h.config := by
  rcases scan_inv board.frames_true hscan with ⟨rfl, -⟩ | ⟨w₀, outcome, u', w₁, -, -, hexecute, -⟩
  · exact ⟨rfl, rfl⟩
  · obtain ⟨hplan, hconfig, -⟩ := Pass.execute_inv board.frames_true hexecute
    exact ⟨hplan, hconfig⟩

theorem scan_plan {mask : SweepMask} {h h' : SweepHead} {r : Except Failure (Traces Float32 N)}
    {w w' : Shared N ε} (hscan : h.scan board calibration mask w = .ok ((r, h'), w')) :
    h'.plan = h.plan := (scan_kept hscan).1

theorem scan_interlude (hf : board.Frames (Keeps Shared.shown)) {mask : SweepMask} :
    ∀ {h h' : SweepHead} {r : Except Failure (Traces Float32 N)} {w w' : Shared N ε},
      h.scan board calibration mask w = .ok ((r, h'), w') → Interlude (h, w) (h', w') := by
  intro h h' r w w' hscan
  rcases scan_inv hf hscan with ⟨rfl, -, hkept⟩ | ⟨w₀, outcome, u', w₁, -, -, hexecute, -⟩
  · exact Or.inr ⟨rfl, rfl, congrArg Prod.fst hkept⟩
  · exact Interlude.over (execute_over hf hexecute)

end SweepHead

/-! ## Standards -/

namespace Calibration

variable {σ α : Type} [Scalar α] {sweeper : Sweeper σ α} {R : σ → σ → Prop} [IsPreorder σ R]
  {s : Standard}

theorem sumPasses_moves (hsweep : ∀ mask c, Moves R (sweeper.sweep mask c)) :
    ∀ (left : Nat) (first : Bool) (c : Calibration α N),
      Moves R (sumPasses sweeper s first left c) := by
  intro left
  induction left with
  | zero => exact fun _ _ => .pure _
  | succ left ih =>
    intro first c
    unfold sumPasses
    refine .bind (hsweep _ _) fun pass => ?_
    cases pass.outcome with
    | error e => exact .pure _
    | ok _ => exact ih false _

/-- Measuring a standard is setting bandwidths and making passes. -/
theorem collect_moves (hset : ∀ b, Moves R (sweeper.setBandwidth b))
    (hsweep : ∀ mask c, Moves R (sweeper.sweep mask c)) (averaging : UInt16)
    (c : Calibration α N) : Moves R (c.collect sweeper s averaging) := by
  have hmeasure : ∀ (count : Nat) (c : Calibration α N), Moves R (measure sweeper s count c) := by
    intro count c
    unfold measure
    refine .bind (sumPasses_moves hsweep _ _ _) fun result => ?_
    obtain ⟨outcome, c₁⟩ := result
    cases outcome with
    | error e => exact .pure _
    | ok _ => exact .ite (.pure _) (.pure _)
  intro w r w' h
  unfold collect at h
  rw [Run.get_bind, Run.get_bind] at h
  obtain ⟨w₁, hraised, h₁⟩ := Run.optional_inv h
  have hmoved : R w w₁ := by
    rcases hraised with ⟨-, rfl⟩ | ⟨-, hraised⟩
    · exact refl_of R w₁
    · exact hset _ hraised
  refine trans_of R hmoved ?_
  exact Moves.bind (hmeasure _ _) (fun result => .bind (hset _) fun _ => .pure _) h₁

end Calibration

theorem SweepHead.onHead_inv {σ β : Type} {f : SweepHead → Run σ (β × SweepHead)}
    {s s' : SweepHead × σ} {b : β} (h : onHead f s = .ok (b, s')) :
    f s.1 s.2 = .ok ((b, s'.1), s'.2) := by
  change Except.bind (f s.1 s.2) _ = _ at h
  cases hx : f s.1 s.2 with
  | error e => rw [hx] at h; cases h
  | ok x => rw [hx] at h; cases h; rfl

/-- A pass of a session is a scan. It hands over the points of a scan that succeeds. -/
theorem SweepHead.sweep_scan {mask : SweepMask} {c : Channel} {d : Delivery Float32}
    {s s' : SweepHead × Shared N ε} (h : (sweeper board).sweep mask c s = .ok (d, s')) :
    ∃ r, s.1.scan board none mask s.2 = .ok ((r, s'.1), s'.2) ∧
      ((∃ e, r = .error e ∧ d = ⟨[], .error e⟩) ∨
        ∃ t, r = .ok t ∧ d = ⟨s'.1.handOver t c, .ok ()⟩) := by
  obtain ⟨r, s₁, hscan, h₁⟩ := Run.bind_inv h
  cases r with
  | error e =>
    obtain ⟨rfl, rfl⟩ := Run.pure_inv h₁
    exact ⟨_, onHead_inv hscan, Or.inl ⟨e, rfl, rfl⟩⟩
  | ok t =>
    dsimp only at h₁
    rw [Run.get_bind] at h₁
    obtain ⟨rfl, rfl⟩ := Run.pure_inv h₁
    exact ⟨_, onHead_inv hscan, Or.inr ⟨t, rfl, rfl⟩⟩

theorem SweepHead.collect_inv {s : Standard} {averaging : UInt16} {c c' : Calibration Float32 N}
    {h h' : SweepHead} {r : Except Failure Unit} {w w' : Shared N ε}
    (hcollect : h.collect board s averaging c w = .ok ((r, c', h'), w')) :
    c.collect (sweeper board) s averaging (h, w) = .ok ((r, c'), (h', w')) := by
  change Except.bind (c.collect (sweeper board) s averaging (h, w)) _ = _ at hcollect
  cases hx : c.collect (sweeper board) s averaging (h, w) with
  | error e => rw [hx] at hcollect; cases hcollect
  | ok x => rw [hx] at hcollect; cases hcollect; rfl

theorem SweepHead.sweeper_interlude (hf : board.Frames (Keeps Shared.shown)) (mask : SweepMask)
    (c : Channel) : Moves Interlude ((sweeper board).sweep mask c) := by
  intro s d s' h
  obtain ⟨r, hscan, -⟩ := sweep_scan h
  exact scan_interlude hf hscan

theorem SweepHead.collect_plan {s : Standard} {averaging : UInt16} {c c' : Calibration Float32 N}
    {h h' : SweepHead} {r : Except Failure Unit} {w w' : Shared N ε}
    (hcollect : h.collect board s averaging c w = .ok ((r, c', h'), w')) : h'.plan = h.plan := by
  have hset : ∀ b, Moves (Keeps fun x : SweepHead × Shared N ε => x.1.plan)
      ((sweeper board).setBandwidth b) := fun _ => .modify fun _ => rfl
  have hsweep : ∀ mask c, Moves (Keeps fun x : SweepHead × Shared N ε => x.1.plan)
      ((sweeper board).sweep mask c) := by
    intro mask c x d x' h
    obtain ⟨r, hscan, -⟩ := sweep_scan h
    exact scan_plan hscan
  exact Calibration.collect_moves hset hsweep _ _ (collect_inv hcollect)

/-! ## Operations of the instrument -/

namespace Instrument

variable {i i' : Instrument N} {w w' : Shared N ε}

theorem execute_inv {breakable : Bool} {mask : SweepMask} {u u' : Traces Float32 N}
    {r : Except Failure Bool} (h : i.execute board breakable mask u w = .ok ((r, u', i'), w')) :
    ∃ head, Pass.execute board (some i.calibration) breakable mask ⟨i.head, u⟩ w =
      .ok ((r, ⟨head, u'⟩), w') ∧ i' = { i with head } := by
  obtain ⟨⟨outcome, p⟩, w₁, hexecute, h₁⟩ := Run.bind_inv h
  obtain ⟨he, rfl⟩ := Run.pure_inv h₁
  cases he
  exact ⟨p.head, hexecute, rfl⟩

theorem scan_inv {mask : SweepMask} {r : Except Failure Unit}
    (h : i.scan board mask w = .ok ((r, i'), w')) :
    ∃ outcome head, i.head.scan board (some i.calibration) mask w = .ok ((outcome, head), w') ∧
      r = outcome.map (fun _ => ()) ∧ i' = { i with head } := by
  obtain ⟨⟨outcome, head⟩, w₁, hscan, h₁⟩ := Run.bind_inv h
  obtain ⟨he, rfl⟩ := Run.pure_inv h₁
  cases he
  exact ⟨outcome, head, hscan, rfl, rfl⟩

theorem calibrate_inv {s : Standard} {r : Except Failure Unit}
    (h : i.calibrate board s w = .ok ((r, i'), w')) :
    ∃ c head, i.head.collect board s i.settings.sweep.averaging i.calibration w =
      .ok ((r, c, head), w') ∧ i' = { i with calibration := c, head } := by
  obtain ⟨⟨outcome, c, head⟩, w₁, hcollect, h₁⟩ := Run.bind_inv h
  obtain ⟨he, rfl⟩ := Run.pure_inv h₁
  cases he
  exact ⟨c, head, hcollect, rfl⟩

end Instrument

/-! ## Serving the instrument -/

/-- One thing that the host does when it serves the instrument. -/
inductive ServiceStep (board : Board (Shared N ε)) :
    Instrument N × Shared N ε → Instrument N × Shared N ε → Prop
  | settings {i : Instrument N} {w : Shared N ε} (s : Settings) :
      ServiceStep board (i, w) (i.applySettings s, w)
  | scan {i i' : Instrument N} {mask : SweepMask} {r : Except Failure Unit} {w w' : Shared N ε} :
      i.scan board mask w = .ok ((r, i'), w') → ServiceStep board (i, w) (i', w')
  | calibrate {i i' : Instrument N} {s : Standard} {r : Except Failure Unit}
      {w w' : Shared N ε} : i.calibrate board s w = .ok ((r, i'), w') →
      ServiceStep board (i, w) (i', w')
  /-- The standards are solved, a stored calibration is loaded or the present one edited. -/
  | calibration {i : Instrument N} {w : Shared N ε} (c : Calibration Float32 N) :
      ServiceStep board (i, w) ({ i with calibration := c }, w)
  | restart {i : Instrument N} {w : Shared N ε} :
      ServiceStep board (i, w) ({ i with head := i.head.restart }, w)
  /-- Anything that leaves alone what readers are shown. -/
  | aside {i : Instrument N} {w w' : Shared N ε} : w'.shown = w.shown →
      ServiceStep board (i, w) (i, w')

/-- Besides the passes themselves and what the host serves, nobody writes to the traces or
counts a generation. -/
structure SoleWriter (board : Board (Shared N ε)) (host : Host N ε) : Prop where
  frames : board.Frames (Keeps Shared.shown)
  tune : ∀ f, Moves (Keeps Shared.shown) (board.tune f)
  service : ∀ {i i' w w'}, host.service i w = .ok (i', w') →
    Relation.ReflTransGen (ServiceStep board) (i, w) (i', w')
  canStart : Moves (Keeps Shared.shown) host.canStart
  handleResult : ∀ r, Moves (Keeps Shared.shown) (host.handleResult r)
  listen : ∀ d, Moves (Keeps Shared.shown) (host.listen d)

theorem Instrument.applySettings_plan (i : Instrument N) (s : Settings) :
    (i.applySettings s).head.plan = s.sanitize.plan := by
  change (i.head.setPlan s.sanitize.plan).plan = _
  unfold SweepHead.setPlan
  split
  · rename_i hsame
    exact hsame.symm
  · rfl

theorem Instrument.applySettings_interlude (i : Instrument N) (s : Settings) (w : Shared N ε) :
    Interlude (i.head, w) ((i.applySettings s).head, w) := by
  have hhead : (i.applySettings s).head =
      { i.head.setPlan s.sanitize.plan with config := s.sanitize.sweepConfig } := rfl
  rw [hhead]
  unfold SweepHead.setPlan
  split
  · exact Or.inr ⟨rfl, rfl, rfl⟩
  · exact Interlude.over fun k hk => by cases hk

theorem ServiceStep.interlude (hf : board.Frames (Keeps Shared.shown))
    {s s' : Instrument N × Shared N ε} (h : ServiceStep board s s') :
    Interlude (s.1.head, s.2) (s'.1.head, s'.2) := by
  cases h with
  | settings s => exact Instrument.applySettings_interlude _ s _
  | scan h =>
    obtain ⟨outcome, head, hscan, -, rfl⟩ := Instrument.scan_inv h
    exact SweepHead.scan_interlude hf hscan
  | @calibrate i i' s r w w' h =>
    obtain ⟨c, head, hcollect, rfl⟩ := Instrument.calibrate_inv h
    refine Calibration.collect_moves (R := Interlude) (fun b => ?_)
      (SweepHead.sweeper_interlude hf) i.settings.sweep.averaging i.calibration
      (SweepHead.collect_inv hcollect)
    exact .modify fun _ => Or.inr ⟨rfl, rfl, rfl⟩
  | calibration c => exact refl_of Interlude _
  | restart => exact Interlude.over fun k hk => by cases hk
  | aside h => exact Or.inr ⟨rfl, rfl, congrArg Prod.fst h⟩

/-- Serving the instrument leaves the pass standing or over. -/
theorem SoleWriter.interlude (hsole : SoleWriter board host) {i i' : Instrument N}
    {w w' : Shared N ε} (h : host.service i w = .ok (i', w')) :
    Interlude (i.head, w) (i'.head, w') := by
  have hserved := hsole.service h
  generalize hs : (i, w) = s at hserved
  generalize hs' : (i', w') = s' at hserved
  have hsteps : Interlude (s.1.head, s.2) (s'.1.head, s'.2) := by
    clear hs hs'
    induction hserved with
    | refl => exact refl_of Interlude _
    | tail _ hstep ih => exact trans_of Interlude ih (hstep.interlude hsole.frames)
  rw [← hs, ← hs'] at hsteps
  exact hsteps

end NetworkAnalyzer
