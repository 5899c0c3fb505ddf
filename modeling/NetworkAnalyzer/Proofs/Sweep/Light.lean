import Mathlib.Data.List.Chain
import NetworkAnalyzer.Proofs.Sweep.Signals

/-!
# The activity light

`activities` lists what the activity light was set to. `View.Lit` is the invariant: the settings
alternate, beginning with on, and the pass knows the last one.

The light is switched on when a pass is begun, and off when its indications are ended. A call with
nothing selected ends them inside a pass and keeps the position (`noteCut`), so the calls that
resume such a pass measure their points in the dark. Nothing else does.

The invariant is kept by every progress step, since each of them sets the light exactly if it
changes it (`Changes`). What the light shows at a tune then follows from what the pass knows: it is
on for a call that starts a pass, and for one that resumes a pass as the call before it left it.

`cut` is a flag that goes along with a course of calls. It is computed from the calls alone, without
looking at the light.

* `Lit.draw`: a progress step keeps the invariant if it sets the light only to change it.
* `Lit.measured`, `TunesLit`: measuring leaves the light as it is, and tunes with it.
* `Called.lights`: how a call leaves the light, and with what light it tunes.
* `execute_resumed`: only a call that left the pass inside its points can be followed by one that
  resumes it.
* `light_shows_sweeping`: points are tuned to with the light on, but for the resumed calls of a
  pass that was cut; the light is off after every pass.
* `Panel.tuned_in_the_dark`: such a call.
-/

namespace NetworkAnalyzer

/-! ## Settings of the light -/

def Signal.activity : Signal → Option Bool
  | .shown (.activity on) => some on
  | _ => none

def activities (seen : List Signal) : List Bool := seen.filterMap Signal.activity

theorem activities_append (seen more : List Signal) :
    activities (seen ++ more) = activities seen ++ activities more := List.filterMap_append

namespace Progress

/-- A progress step sets the light exactly if it changes it. -/
def Changes (p : Progress) (step : Progress × List Indication) : Prop :=
  activities (step.2.map .shown) = if step.1.light = p.light then [] else [step.1.light]

theorem begin_changes (p : Progress) (shown : Bool) : p.Changes (p.begin shown) := by
  unfold Changes Progress.begin
  cases p.light <;> rfl

theorem update_changes (p : Progress) (point points : UInt16) :
    p.Changes (p.update point points) ∧ (p.update point points).1.light = p.light := by
  have hkept : ∀ q : Progress × List Indication, activities (q.2.map .shown) = [] →
      q.1.light = p.light → p.Changes q ∧ q.1.light = p.light := by
    intro q hnone hlight
    refine ⟨?_, hlight⟩
    rw [Changes, if_pos hlight, hnone]
  unfold update
  split
  · exact hkept _ rfl rfl
  · dsimp only
    split
    · exact hkept _ rfl rfl
    · split
      · exact hkept _ rfl rfl
      · exact hkept _ rfl rfl

theorem finish_light (p : Progress) : p.finish.1.light = false := by
  unfold finish
  cases p.bar <;> rfl

theorem finish_changes (p : Progress) : p.Changes p.finish := by
  unfold Changes
  rw [finish_light]
  have hbars : ∀ {c : Prop} [Decidable c] (x width : UInt16) (filled : Bool),
      activities ((if c then [.bar x width filled] else []).map .shown) = [] := by
    intro c _ x width filled
    split <;> rfl
  unfold finish
  simp only [List.map_append, activities_append, hbars, List.nil_append]
  cases p.light <;> rfl

end Progress

namespace View

/-- The settings alternate, and the pass knows whether the light is on. It was off at first. -/
structure Lit (v : View) : Prop where
  alternating : (false :: activities v.signals).IsChain (· ≠ ·)
  light : (activities v.signals).getLast?.getD false = v.progress.light

variable {v v' : View}

theorem Lit.on_iff (h : v.Lit) :
    (activities v.signals).getLast? = some true ↔ v.progress.light = true := by
  rw [← h.light]
  cases (activities v.signals).getLast? with
  | none => simp
  | some on => simp

/-- After a setting, a light that is off was switched off. -/
theorem Lit.off (h : v.Lit) (hset : activities v.signals ≠ []) (hoff : v.progress.light = false) :
    (activities v.signals).getLast? = some false := by
  rw [← h.light] at hoff
  rw [List.getLast?_eq_getLast_of_ne_nil hset] at hoff ⊢
  exact congrArg some hoff

theorem Lit.set_of_on (h : v.Lit) (hon : v.progress.light = true) :
    activities v.signals ≠ [] := by
  intro hnone
  have hlast := h.on_iff.mpr hon
  rw [hnone] at hlast
  cases hlast

theorem Lit.draw (h : v.Lit) {step : Progress → Progress × List Indication}
    (hchanges : v.progress.Changes (step v.progress)) : (v.draw step).Lit := by
  have hmore : activities (v.draw step).signals = activities v.signals ++
      if (step v.progress).1.light = v.progress.light then [] else [(step v.progress).1.light] :=
    (activities_append _ _).trans (congrArg _ hchanges)
  by_cases hsame : (step v.progress).1.light = v.progress.light
  · rw [if_pos hsame, List.append_nil] at hmore
    refine ⟨hmore ▸ h.alternating, ?_⟩
    rw [hmore, h.light]
    exact hsame.symm
  · rw [if_neg hsame] at hmore
    refine ⟨?_, ?_⟩
    · rw [hmore, ← List.cons_append]
      refine h.alternating.append (.singleton _) fun last hlast on hon => ?_
      rw [List.getLast?_cons, Option.mem_def, Option.some.injEq, h.light] at hlast
      cases hon
      exact hlast ▸ Ne.symm hsame
    · rw [hmore, List.getLast?_concat]
      rfl

/-! ## Tunes -/

/-- What is seen from `v` on to `v'`, with every tune made while the light is as `lit` says. -/
def TunesLit (lit : Bool) (v v' : View) : Prop :=
  ∃ more, v'.signals = v.signals ++ more ∧ ∀ before f after, more = before ++ .tuned f :: after →
    ((activities (v.signals ++ before)).getLast? = some true ↔ lit = true)

variable {lit : Bool}

theorem TunesLit.refl (v : View) : TunesLit lit v v := by
  refine ⟨[], (List.append_nil _).symm, fun before f after hmore => ?_⟩
  exact absurd hmore.symm (List.append_ne_nil_of_right_ne_nil _ (List.cons_ne_nil _ _))

theorem TunesLit.trans {v'' : View} (h : TunesLit lit v v') (h' : TunesLit lit v' v'') :
    TunesLit lit v v'' := by
  obtain ⟨first, hfirst, hlit⟩ := h
  obtain ⟨second, hsecond, hlit'⟩ := h'
  refine ⟨first ++ second, by rw [hsecond, hfirst, List.append_assoc],
    fun before f after hmore => ?_⟩
  -- the tune was seen before `v'` or after it
  obtain ⟨rest, hbefore, hrest⟩ | ⟨rest, hbefore, hrest⟩ := List.append_eq_append_iff.mp hmore
  · have hlater := hlit' rest f after hrest
    rw [hfirst, List.append_assoc, ← hbefore] at hlater
    exact hlater
  · cases rest with
    | nil =>
      have hlater := hlit' [] f after hrest.symm
      rw [hfirst, List.append_nil, hbefore, List.append_nil] at hlater
      exact hlater
    | cons signal rest =>
      rw [List.cons_append, List.cons.injEq] at hrest
      refine hlit before f rest ?_
      rw [hbefore, hrest.1]

theorem TunesLit.draw (v : View) (step : Progress → Progress × List Indication) :
    TunesLit lit v (v.draw step) := by
  refine ⟨_, rfl, fun before f after hmore => ?_⟩
  have hmem : Signal.tuned f ∈ (step v.progress).2.map Signal.shown := by
    rw [hmore]
    exact List.mem_append_right _ List.mem_cons_self
  obtain ⟨i, -, hi⟩ := List.mem_map.mp hmem
  cases hi

theorem TunesLit.tuned (hv : v.Lit) (hlit : v.progress.light = lit) (h : SweepHead)
    (mask : SweepMask) (i : Nat) : TunesLit lit v (v.tuned h mask i) := by
  refine ⟨_, rfl, fun before f after hmore => ?_⟩
  cases before with
  | nil => rw [List.append_nil, hv.on_iff, hlit]
  | cons _ before =>
    -- at most one point is tuned to
    have hlen := congrArg List.length hmore
    rw [List.length_append, List.length_cons, List.length_cons] at hlen
    split at hlen
    · rw [List.length_singleton] at hlen
      omega
    · rw [List.length_nil] at hlen
      omega

theorem TunesLit.grows (h : TunesLit lit v v') (hset : activities v.signals ≠ []) :
    activities v'.signals ≠ [] := by
  obtain ⟨more, hmore, -⟩ := h
  rw [hmore, activities_append]
  exact List.append_ne_nil_of_left_ne_nil hset _

variable {h : SweepHead} {mask : SweepMask} {points : UInt16} {a b : Nat}

theorem Lit.tuned (hv : v.Lit) (h : SweepHead) (mask : SweepMask) (i : Nat) :
    (v.tuned h mask i).Lit := by
  have hnone : activities (v.tuned h mask i).signals = activities v.signals := by
    unfold View.tuned
    rw [activities_append]
    split
    · exact List.append_nil _
    · exact List.append_nil _
  exact ⟨hnone ▸ hv.alternating, hnone ▸ hv.light⟩

/-- Measuring leaves the light as it is, and tunes with it. -/
theorem Lit.measured (hv : v.Lit) (hm : Measured h mask points a b v v') :
    v'.Lit ∧ v'.progress.light = v.progress.light ∧ TunesLit v.progress.light v v' := by
  induction hm with
  | @done a v => exact ⟨hv, rfl, .refl v⟩
  | @next a _ v _ _ ih =>
    obtain ⟨hchanges, hkept⟩ := v.progress.update_changes a.toUInt16 points
    obtain ⟨hlit, hlight, htunes⟩ := ih ((hv.tuned h mask a).draw hchanges)
    have hkept : ((v.tuned h mask a).draw fun p => p.update a.toUInt16 points).progress.light =
        v.progress.light := hkept
    rw [hkept] at hlight htunes
    exact ⟨hlit, hlight, ((TunesLit.tuned hv rfl h mask a).trans (.draw _ _)).trans htunes⟩

theorem Lit.ends {r : Except Failure Bool} (hv : v.Lit) (hends : Ends h mask points a v r v') :
    v'.Lit ∧ TunesLit v.progress.light v v' ∧
      (r = .ok false ∧ v'.progress.light = v.progress.light ∨
        r ≠ .ok false ∧ v'.progress.light = false) := by
  cases hends with
  | yielded hm =>
    obtain ⟨hlit, hlight, htunes⟩ := hv.measured hm
    exact ⟨hlit, htunes, Or.inl ⟨rfl, hlight⟩⟩
  | @completed u hm =>
    obtain ⟨hlit, -, htunes⟩ := hv.measured hm
    exact ⟨hlit.draw u.progress.finish_changes, htunes.trans (.draw _ _),
      Or.inr ⟨fun hr => (by cases hr), u.progress.finish_light⟩⟩
  | @aborted b u _ hm =>
    obtain ⟨hlit, hlight, htunes⟩ := hv.measured hm
    exact ⟨(hlit.tuned h mask b).draw u.progress.finish_changes,
      (htunes.trans (.tuned hlit hlight h mask b)).trans (.draw _ _),
      Or.inr ⟨fun hr => (by cases hr), u.progress.finish_light⟩⟩

/-! ## Calls -/

variable {N : Nat} {h : SweepHead} {breakable : Bool} {mask : SweepMask} {r : Except Failure Bool}

theorem Lit.rewound (hv : v.Lit) (lit : Bool) (N : Nat) (h : SweepHead) (breakable : Bool) :
    (v.rewound N h breakable).Lit ∧ TunesLit lit v (v.rewound N h breakable) := by
  unfold View.rewound
  split
  · exact ⟨hv.draw v.progress.finish_changes, .draw v _⟩
  · exact ⟨hv, .refl v⟩

/-- Whether a call measures with the light on: it starts a pass, or the light is on already. -/
def lightIn (v : View) (N : Nat) (h : SweepHead) (breakable : Bool) : Bool :=
  decide (h.startPoint N breakable = 0) || v.progress.light

theorem Lit.announced (hv : v.Lit) (lit : Bool) (N : Nat) (h : SweepHead) (breakable : Bool) :
    ((v.rewound N h breakable).announced N h breakable).Lit ∧
      ((v.rewound N h breakable).announced N h breakable).progress.light =
        v.lightIn N h breakable ∧
      TunesLit lit v ((v.rewound N h breakable).announced N h breakable) := by
  obtain ⟨hlit, htunes⟩ := hv.rewound lit N h breakable
  unfold View.announced lightIn
  split
  · rename_i hstart
    refine ⟨hlit.draw (Progress.begin_changes _ _), ?_, htunes.trans (.draw _ _)⟩
    rw [decide_eq_true hstart]
    rfl
  · rename_i hlater
    refine ⟨hlit, ?_, htunes⟩
    rw [decide_eq_false hlater, Bool.false_or]
    -- a call that ends what was shown starts at point 0
    unfold View.rewound
    split
    · rename_i hover
      exact absurd (if_pos hover) hlater
    · rfl

/-- How a call leaves the light, and with what light it tunes. -/
theorem Called.lights (hcalled : Called N h breakable mask v r v') (hv : v.Lit) :
    v'.Lit ∧ TunesLit (v.lightIn N h breakable) v v' ∧
      (((breakable && mask.isEmpty) = true ∧ r = .ok false ∧ v'.progress.light = false) ∨
        ((breakable && mask.isEmpty) = false ∧
          (h.startPoint N breakable = 0 → activities v'.signals ≠ []) ∧
          (r = .ok false ∧ v'.progress.light = v.lightIn N h breakable ∨
            r ≠ .ok false ∧ v'.progress.light = false))) := by
  cases hcalled with
  | idle hidle =>
    obtain ⟨hlit, htunes⟩ := hv.rewound (v.lightIn N h breakable) N h breakable
    exact ⟨hlit.draw (Progress.finish_changes _), htunes.trans (.draw _ _),
      Or.inl ⟨hidle, rfl, Progress.finish_light _⟩⟩
  | measured hselected hends =>
    obtain ⟨hlit, hlight, htunes⟩ := hv.announced (v.lightIn N h breakable) N h breakable
    obtain ⟨hlit', htunes', hexit⟩ := hlit.ends hends
    rw [hlight] at htunes' hexit
    refine ⟨hlit', htunes.trans htunes', Or.inr ⟨hselected, fun hstart => htunes'.grows ?_, hexit⟩⟩
    refine hlit.set_of_on ?_
    rw [hlight, lightIn, decide_eq_true hstart, Bool.true_or]

end View

/-! ## Courses of calls -/

namespace Pass

variable {N : Nat} {ε : Type} {board : Board (Shared N ε)} {signals : Shared N ε → List Signal}
  {p p' : Pass N} {w w' : Shared N ε}

/-- Whether a call with nothing selected was made since the pass was begun. -/
def noteCut (N : Nat) (h : SweepHead) (breakable : Bool) (mask : SweepMask)
    (_ : Except Failure Bool) (cut : Bool) : Bool :=
  (breakable && mask.isEmpty) || (cut && h.startPoint N breakable != 0)

/-- What is known of the light of a pass that may be resumed. -/
structure Lighted (N : Nat) (cut : Bool) (h : SweepHead) (v : View) : Prop where
  lit : v.Lit
  resumed : h.startPoint N true ≠ 0 → activities v.signals ≠ [] ∧ v.progress.light = !cut

theorem startPoint_resumed {h : SweepHead} {breakable : Bool}
    (hresumed : h.startPoint N breakable ≠ 0) : breakable = true := by
  cases breakable with
  | true => rfl
  | false => exact absurd h.startPoint_unbreakable hresumed

/-- Only a call that left the pass inside its points can be followed by one that resumes it. -/
theorem execute_resumed {calibration : Option (Calibration Float32 N)} {breakable : Bool}
    {mask : SweepMask} {r : Except Failure Bool}
    (h : p.execute board calibration breakable mask w = .ok ((r, p'), w'))
    (hresumed : p'.head.startPoint N true ≠ 0) :
    r = .ok false ∧
      ((breakable && mask.isEmpty) = true → p.head.startPoint N true ≠ 0) := by
  obtain ⟨hplan, -, ⟨hidle, hr, -, hnext, -⟩ | ⟨hselected, b, u, w₁, -, hended⟩⟩ :=
    execute_inv board.frames_true h
  · refine ⟨hr, fun _ => ?_⟩
    rw [SweepHead.startPoint_of_nextPoint hplan hnext, hnext] at hresumed
    rwa [startPoint_resumed hresumed] at hresumed
  · have hnot : ∀ state, p'.head.state = state → (∀ k, state ≠ .stepping k) → False := by
      intro state hstate hout
      exact hresumed (SweepHead.startPoint_of_not_stepping (hstate ▸ hout) true)
    cases hended with
    | completed hstate => exact (hnot _ hstate fun k hk => by cases hk).elim
    | yielded => exact ⟨rfl, fun hidle => absurd hidle (by rw [hselected]; exact Bool.noConfusion)⟩
    | aborted _ hstate => exact (hnot _ hstate fun k hk => by cases hk).elim

theorem Lighted.call {cut : Bool} (hs : board.Signals signals)
    {calibration : Option (Calibration Float32 N)} {breakable : Bool} {mask : SweepMask}
    {r : Except Failure Bool} (hp : Lighted N cut p.head (p.view signals w))
    (h : p.execute board calibration breakable mask w = .ok ((r, p'), w')) :
    Lighted N (noteCut N p.head breakable mask r cut) p'.head (p'.view signals w') := by
  obtain ⟨hlit, htunes, hexit⟩ := (execute_view hs h).lights hp.lit
  refine ⟨hlit, fun hresumed => ?_⟩
  obtain ⟨hyielded, hbefore⟩ := execute_resumed h hresumed
  unfold noteCut
  obtain ⟨hidle, -, hoff⟩ | ⟨hselected, hset, ⟨-, hlight⟩ | ⟨hr, -⟩⟩ := hexit
  · refine ⟨htunes.grows (hp.resumed (hbefore hidle)).1, ?_⟩
    rw [hoff, hidle, Bool.true_or, Bool.not_true]
  · rw [hselected, Bool.false_or, hlight, View.lightIn]
    by_cases hstart : p.head.startPoint N breakable = 0
    · refine ⟨hset hstart, ?_⟩
      simp [hstart]
    · have hbreakable := startPoint_resumed hstart
      rw [hbreakable] at hstart ⊢
      obtain ⟨hsome, hkept⟩ := hp.resumed hstart
      refine ⟨htunes.grows hsome, ?_⟩
      simp [hstart, hkept]
  · exact absurd hyielded hr

theorem Operated.lighted (hs : board.Signals signals) {cut : Bool}
    (h : Operated board signals (noteCut N) false cut p w) :
    Lighted N cut p.head (p.view signals w) := by
  -- a head that does not stand inside a pass is not resumed
  have hover : ∀ {cut : Bool} {h : SweepHead} {v : View}, v.Lit → h.state = .idle →
      Lighted N cut h v := by
    intro cut h v hlit hidle
    refine ⟨hlit, fun hresumed => absurd ?_ hresumed⟩
    exact SweepHead.startPoint_of_not_stepping (fun k hk => by rw [hidle] at hk; cases hk) true
  induction h with
  | @fresh p w hidle hprogress hblank =>
    refine hover ⟨?_, ?_⟩ hidle
    · rw [view, hblank]
      exact .singleton false
    · rw [view, hblank, hprogress]
      rfl
  | call _ hcall ih => exact ih.call hs hcall
  | @setPlan g p w plan _ ih =>
    unfold SweepHead.setPlan
    split
    · exact ih
    · exact hover ih.lit rfl
  | restart _ ih => exact hover ih.lit rfl
  | configure config _ ih =>
    refine ⟨ih.lit, fun hresumed => ih.resumed ?_⟩
    rwa [SweepHead.startPoint_congr rfl rfl] at hresumed
  | meanwhile traces _ hkept ih =>
    unfold view
    rw [hkept]
    exact ih

/-- The settings of the light alternate, beginning with on, and after a call that completed or
failed the last one is off. A call tunes with the light on exactly if it starts its pass, or if no
call with nothing selected was made since the pass was begun (`cut`). -/
theorem light_shows_sweeping (hs : board.Signals signals) {cut : Bool}
    (h : Operated board signals (noteCut N) false cut p w) :
    (false :: activities (signals w)).IsChain (· ≠ ·) ∧
    ∀ {calibration breakable mask r p' w'},
      p.execute board calibration breakable mask w = .ok ((r, p'), w') →
      (r ≠ .ok false → (activities (signals w')).getLast? = some false) ∧
      ∀ before f after, signals w' = signals w ++ before ++ .tuned f :: after →
        ((activities (signals w ++ before)).getLast? = some true ↔
          p.head.startPoint N breakable = 0 ∨ cut = false) := by
  have hp := h.lighted hs
  refine ⟨hp.lit.alternating, fun {calibration breakable mask r p' w'} hcall => ?_⟩
  obtain ⟨hlit, htunes, hexit⟩ := (execute_view hs hcall).lights hp.lit
  have hresumed : p.head.startPoint N breakable ≠ 0 →
      activities (signals w) ≠ [] ∧ p.head.progress.light = !cut := by
    intro hlater
    rw [startPoint_resumed hlater] at hlater
    exact hp.resumed hlater
  refine ⟨fun hr => ?_, fun before f after hseen => ?_⟩
  · obtain ⟨-, hyielded, -⟩ | ⟨-, hset, ⟨hyielded, -⟩ | ⟨-, hoff⟩⟩ := hexit
    · exact absurd hyielded hr
    · exact absurd hyielded hr
    · refine hlit.off ?_ hoff
      by_cases hstart : p.head.startPoint N breakable = 0
      · exact hset hstart
      · exact htunes.grows (hresumed hstart).1
  · obtain ⟨more, hmore, hlight⟩ := htunes
    have hsplit : more = before ++ .tuned f :: after := by
      rw [← List.append_cancel_left_eq (signals w), ← List.append_assoc, ← hseen]
      exact hmore.symm
    refine (hlight before f after hsplit).trans ?_
    rw [View.lightIn, Bool.or_eq_true, decide_eq_true_iff]
    by_cases hstart : p.head.startPoint N breakable = 0
    · exact ⟨fun _ => Or.inl hstart, fun _ => Or.inl hstart⟩
    · have hkept : (p.view signals w).progress.light = !cut := (hresumed hstart).2
      rw [hkept, Bool.not_eq_true']

end Pass

/-! ## A pass that was cut -/

namespace Panel

open Pass

/-- A second call resumes the pass, with the light still on. -/
theorem light_shows_sweeping_resumed : ∃ (p p' : Pass 3) (w w' : Shared 3 Panel),
    Operated face (·.environment.seen) (noteCut 3) false false p w ∧
    p.execute face none true (.raw .s11) w = .ok ((.ok false, p'), w') ∧
    w'.environment.seen =
      w.environment.seen ++ [] ++ .tuned 2000 :: [.shown (.bar 0 160 true)] ∧
    (activities (w.environment.seen ++ [])).getLast? = some true := by
  have hrun : Operated face (·.environment.seen) (noteCut 3) false false
      (narrow (.stepping 1) { bar := true, light := true })
      (showing [.shown (.activity true), .tuned 1000]) :=
    narrow_first.operated (.fresh rfl rfl rfl)
  have hsecond : ∃ p' w', (narrow (.stepping 1) { bar := true, light := true }).execute
      face none true (.raw .s11) (showing [.shown (.activity true), .tuned 1000]) =
      .ok ((.ok false, p'), w') ∧ w'.environment.seen =
        [.shown (.activity true), .tuned 1000] ++ [] ++
          .tuned 2000 :: [.shown (.bar 0 160 true)] := ⟨_, _, rfl, rfl⟩
  obtain ⟨p', w', hsecond, hseen⟩ := hsecond
  obtain ⟨-, hcalls⟩ := light_shows_sweeping face_signals hrun
  exact ⟨_, p', _, w', hrun, hsecond, hseen, ((hcalls hsecond).2 _ _ _ hseen).mpr (Or.inr rfl)⟩

theorem narrow_cut : Operated face (·.environment.seen) (noteCut 3) false true
    (narrow (.stepping 1) {})
    (showing [.shown (.activity true), .tuned 1000, .shown (.activity false)]) := by
  have hidle : Calls .none (narrow (.stepping 1) { bar := true, light := true })
      [.shown (.activity true), .tuned 1000] (.ok false) (narrow (.stepping 1) {})
      [.shown (.activity true), .tuned 1000, .shown (.activity false)] := ⟨_, _, rfl, rfl, rfl⟩
  exact hidle.operated (narrow_first.operated (.fresh rfl rfl rfl))

/-- The call that resumes the pass measures point 1 in the dark. -/
theorem tuned_in_the_dark : ∃ (p p' : Pass 3) (w w' : Shared 3 Panel),
    Operated face (·.environment.seen) (noteCut 3) false true p w ∧
    p.execute face none true (.raw .s11) w = .ok ((.ok false, p'), w') ∧
    w'.environment.seen = w.environment.seen ++ [.tuned 2000] ∧
    (activities w.environment.seen).getLast? = some false :=
  ⟨_, _, _, _, narrow_cut, rfl, rfl, rfl⟩

end Panel

end NetworkAnalyzer
