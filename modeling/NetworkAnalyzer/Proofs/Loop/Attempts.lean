import NetworkAnalyzer.Proofs.Loop.Interludes

/-!
# Attempts of a pass

`MeasurementLoop.tick` and `MeasurementLoop.run` taken apart, for any relation that the board
moves by.

A run is a chain of operations of which several wait, and while the loop waits the other tasks go
on. What they do is up to the board. The inversions here therefore say which operations were made,
and in between that the two states are related by a preorder `R` that the board respects
(`Board.Frames`). With "the traces are the same" for `R` this tells what readers are shown, with
"nothing was announced" what listeners hear, and with the whole order of time when each thing
happened.

Publishing is not covered by `Board.Frames`, since an event runs the listeners of the host. It
shows as `Published`, an event that is published only under a condition.

* `tick_inv`: a tick serves the host, and idles or makes an attempt and hands over its result.
* `run_inv`: the buffers were held and nothing happened, or they were claimed from idle.
* `runClaimed_inv`: from the claimed buffers on, a pass that starts is announced, the call is
  made, the buffers are given back, and a completed pass is announced.
* `givenBack`: the traces that a call gives back. Those of a completed pass are processed.
* `run_moves`: what the board, the listeners and changes of the buffers keep, a run keeps.
-/

namespace NetworkAnalyzer

variable {N : Nat} {ε : Type} {board : Board (Shared N ε)} {host : Host N ε}

theorem Pass.execute_moves {R : Shared N ε → Shared N ε → Prop} [IsPreorder (Shared N ε) R]
    (hf : board.Frames R) (htune : ∀ f, Moves R (board.tune f))
    {calibration : Option (Calibration Float32 N)} {breakable : Bool} {mask : SweepMask}
    {p : Pass N} : Moves R (p.execute board calibration breakable mask) := by
  rintro w ⟨r, p'⟩ w' h
  obtain ⟨-, -, ⟨-, -, -, -, hmoved⟩ | ⟨-, b, u, w₁, hstretch, hended⟩⟩ := execute_inv hf h
  · exact hmoved
  · have hbefore := hstretch.moves hf htune
    cases hended with
    | completed _ _ hafter | yielded _ _ _ hafter => exact trans_of R hbefore hafter
    | aborted _ _ hready hmeasure hafter =>
      have hmeasured := PointSetup.measure_moves hf htune hmeasure
      exact trans_of R hbefore (trans_of R hready (trans_of R hmeasured hafter))

theorem Shared.publish_moves {R : Shared N ε → Shared N ε → Prop} [IsPreorder (Shared N ε) R]
    (hbus : ∀ w b, R w { w with bus := b }) {listen : Delivered → Run (Shared N ε) Unit}
    (hlisten : ∀ d, Moves R (listen d)) (e : Event) : Moves R (publish listen e) := by
  have hdeliver : ∀ ds, Moves R (deliver listen ds) := by
    intro ds
    induction ds with
    | nil => exact .pure _
    | cons d ds ih => exact .bind (hlisten d) fun _ => ih
  intro w u w' h
  unfold publish at h
  rw [Run.get_bind] at h
  cases hb : w.bus with
  | none =>
    rw [hb] at h
    obtain ⟨-, rfl⟩ := Run.pure_inv h
    exact refl_of R w'
  | some bus =>
    rw [hb] at h
    obtain ⟨u₁, w₁, hset, h₁⟩ := Run.bind_inv h
    cases hset
    exact trans_of R (hbus w _) (hdeliver _ h₁)

namespace MeasurementLoop

variable {breakable : Bool} {mask : SweepMask} {l l' : MeasurementLoop N}
  {outcome : Except Failure Bool} {w w' : Shared N ε}

def completes (r : Except Failure Bool) : Bool := r matches .ok true

theorem completes_ok (all : Bool) : completes (.ok all) = all := by cases all <;> rfl

theorem completed_iff {r : Except Failure Bool} : (r matches .ok true) = true ↔ r = .ok true := by
  rcases r with e | _ | _
  · simp
  · simp
  · simp

/-- An event that is published only under a condition. -/
def Published (host : Host N ε) (c : Prop) (e : Event) (w w' : Shared N ε) : Prop :=
  (¬c ∧ w' = w) ∨ (c ∧ Shared.publish host.listen e w = .ok ((), w'))

theorem Published.congr {c d : Prop} {e : Event} (hcd : c ↔ d) (h : Published host c e w w') :
    Published host d e w w' := by
  rwa [Published, hcd] at h

theorem Published.moves {R : Shared N ε → Shared N ε → Prop} [IsPreorder (Shared N ε) R]
    (hbus : ∀ w b, R w { w with bus := b }) (hlisten : ∀ d, Moves R (host.listen d)) {c : Prop}
    {e : Event} (h : Published host c e w w') : R w w' := by
  obtain ⟨-, rfl⟩ | ⟨-, h⟩ := h
  · exact refl_of R w'
  · exact Shared.publish_moves hbus hlisten e h

theorem not_stepping_iff {s : PassState} :
    (!(s matches .stepping _)) = true ↔ ∀ k, s ≠ .stepping k := by
  cases s <;> simp

/-- The traces that a call gives back: those of a completed pass are processed. -/
def givenBack (l : MeasurementLoop N) (mask : SweepMask) (outcome : Except Failure Bool)
    (p : Pass N) : Traces Float32 N :=
  if completes outcome then
    (l.instrument.settings.processing.apply l.timeDomain p.traces (p.head.points N) mask).2
  else p.traces

/-- What happens from the claimed buffers on. -/
theorem runClaimed_inv (h : l.runClaimed board host breakable mask w = .ok ((outcome, l'), w')) :
    ∃ w₁ p w₂,
      Published host (∀ k, l.instrument.head.state ≠ .stepping k) (.sweepStarted mask)
        { w with buffers := w.buffers.setPoints (l.instrument.head.points N) } w₁ ∧
      Pass.execute board (some l.instrument.calibration) breakable mask
        ⟨l.instrument.head, w₁.buffers.traces⟩ w₁ = .ok ((outcome, p), w₂) ∧
      l'.instrument = { l.instrument with head := p.head } ∧
      Published host (outcome = .ok true) (.sweepCompleted mask)
        { w₂ with
          buffers := { w₂.buffers with traces := l.givenBack mask outcome p }.finish
            (completes outcome) } w' := by
  unfold runClaimed at h
  rw [Run.get_bind] at h
  obtain ⟨u, w₀, hset, h⟩ := Run.bind_inv h
  cases hset
  obtain ⟨w₁, hstarted, h⟩ := Run.optional_inv h
  have hstarted : Published host _ (.sweepStarted mask) _ w₁ := hstarted
  dsimp only at h
  rw [Run.get_bind] at h
  obtain ⟨⟨r, traces, served⟩, w₂, hexecute, h⟩ := Run.bind_inv h
  obtain ⟨⟨r', p⟩, w₃, hpass, hexecute⟩ := Run.bind_inv hexecute
  obtain ⟨he, rfl⟩ := Run.pure_inv hexecute
  cases he
  dsimp only at h
  rw [Run.get_bind] at h
  obtain ⟨u, w₃, hback, h⟩ := Run.bind_inv h
  cases hback
  obtain ⟨w₄, hcompleted, h⟩ := Run.optional_inv h
  have hcompleted : Published host _ (.sweepCompleted mask) _ w₄ := hcompleted
  obtain ⟨he, rfl⟩ := Run.pure_inv h
  cases he
  refine ⟨w₁, p, w₂, hstarted.congr not_stepping_iff, hpass, ?_, ?_⟩
  · split <;> rfl
  · refine Published.congr completed_iff ?_
    unfold givenBack
    rcases outcome with e | _ | _ <;> exact hcompleted

variable {R : Shared N ε → Shared N ε → Prop} [IsPreorder (Shared N ε) R]

/-- A run is refused and does nothing, or it finds the buffers free and claims them. Anything
else that claims them there is refused or granted them alike. -/
theorem run_inv (hf : board.Frames R)
    (h : l.run board host breakable mask w = .ok ((outcome, l'), w')) :
    (∃ e, outcome = .error e ∧ l' = l ∧ R w w' ∧
        ∀ {β : Type} (refused : Failure → Run (Shared N ε) β) granted,
          Shared.onClaimed board refused granted w = refused e w') ∨
      ∃ w₀, R w w₀ ∧ w₀.buffers.role = .idle ∧
        l.runClaimed board host breakable mask { w₀ with buffers.role := .sweeping } =
          .ok ((outcome, l'), w') ∧
        ∀ {β : Type} (refused : Failure → Run (Shared N ε) β) granted,
          Shared.onClaimed board refused granted w =
            granted { w₀.buffers with role := .sweeping } w₀ := by
  obtain ⟨e, v, hmoved, hrefused, hsame⟩ | ⟨w₀, hmoved, hidle, hgranted, hsame⟩ :=
    Shared.onClaimed_inv hf (show Shared.onClaimed board _ _ w = _ from h)
  · obtain ⟨he, rfl⟩ := Run.pure_inv hrefused
    cases he
    exact Or.inl ⟨e, rfl, rfl, hmoved, hsame⟩
  · obtain ⟨u, w₁, hset, hclaimed⟩ := Run.bind_inv hgranted
    cases hset
    exact Or.inr ⟨w₀, hmoved, hidle, hclaimed, hsame⟩

omit [IsPreorder (Shared N ε) R] in
theorem run_instrument (h : l.run board host breakable mask w = .ok ((outcome, l'), w')) :
    ∃ head, l'.instrument = { l.instrument with head } := by
  obtain ⟨e, -, rfl, -⟩ | ⟨w₀, -, -, h, -⟩ := run_inv board.frames_true h
  · exact ⟨_, rfl⟩
  · obtain ⟨w₁, p, w₂, -, -, hl, -⟩ := runClaimed_inv h
    exact ⟨p.head, hl⟩

/-- What the board, the listeners and changes of the buffers keep, a run keeps. -/
theorem run_moves (hf : board.Frames R) (htune : ∀ f, Moves R (board.tune f))
    (hbuffers : ∀ w b, R w { w with buffers := b }) (hbus : ∀ w b, R w { w with bus := b })
    (hlisten : ∀ d, Moves R (host.listen d)) : Moves R (l.run board host breakable mask) := by
  rintro w ⟨outcome, l'⟩ w' h
  obtain ⟨e, -, -, hmoved, -⟩ | ⟨w₀, hmoved, -, h, -⟩ := run_inv hf h
  · exact hmoved
  · obtain ⟨w₁, p, w₂, hstarted, hexecute, -, hcompleted⟩ := runClaimed_inv h
    refine trans_of R hmoved (trans_of R ?_ (trans_of R (hstarted.moves hbus hlisten)
      (trans_of R (Pass.execute_moves hf htune hexecute)
        (trans_of R (hbuffers _ _) (hcompleted.moves hbus hlisten)))))
    exact hbuffers w₀ ({ w₀.buffers with role := .sweeping }.setPoints
      (l.instrument.head.points N))

/-! ## Ticks -/

omit [IsPreorder (Shared N ε) R] in
/-- A tick serves the host, and idles or makes an attempt and hands over its result. -/
theorem tick_inv {r : Option SweepResult} (h : l.tick board host w = .ok ((r, l'), w')) :
    ∃ i w₁ allowed w₂, host.service l.instrument w = .ok (i, w₁) ∧
      host.canStart w₁ = .ok (allowed, w₂) ∧
      match allowed with
      | none => r = none ∧ l' = { l with instrument := i } ∧ ∃ late,
          waitUntil board.toTimebase Parameters.idleDelay (pure false) w₂ = .ok (late, w')
      | some breakable => ∃ outcome w₃,
          MeasurementLoop.run board host breakable i.activeMask { l with instrument := i } w₂ =
            .ok ((outcome, l'), w₃) ∧
          r = some ⟨i.activeMask, completes outcome⟩ ∧
          host.handleResult ⟨i.activeMask, completes outcome⟩ w₃ = .ok ((), w') := by
  unfold tick at h
  obtain ⟨i, w₁, hservice, h⟩ := Run.bind_inv h
  obtain ⟨allowed, w₂, hallowed, h⟩ := Run.bind_inv h
  refine ⟨i, w₁, allowed, w₂, hservice, hallowed, ?_⟩
  cases allowed with
  | none =>
    obtain ⟨late, w₃, hidle, h⟩ := Run.bind_inv h
    obtain ⟨he, rfl⟩ := Run.pure_inv h
    cases he
    exact ⟨rfl, rfl, late, hidle⟩
  | some breakable =>
    obtain ⟨⟨outcome, l₁⟩, w₃, hrun, h⟩ := Run.bind_inv h
    obtain ⟨u, w₄, hresult, h⟩ := Run.bind_inv h
    obtain ⟨he, rfl⟩ := Run.pure_inv h
    cases he
    exact ⟨outcome, w₃, hrun, rfl, hresult⟩

end MeasurementLoop

end NetworkAnalyzer
