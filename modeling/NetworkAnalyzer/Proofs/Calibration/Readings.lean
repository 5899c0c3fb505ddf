import NetworkAnalyzer.Proofs.Calibration.Measuring
import NetworkAnalyzer.Proofs.ExactPhasor

/-!
# Measuring a standard without a calibration

The passes of a measurement do not look at the calibration they are entered into.
`Sweeper.reading` makes the same passes and only keeps what they hand over; what a
calibration then holds is their mean, point by point.

This splits a measurement in two. What the sweeper does is a matter of its own state and can be said
without tables (`reading`); what the tables then hold is a fold over what was handed over (`summed`,
`mean`). `sumPasses_inv` joins the two.

A point that some pass of the measurement did not hand over keeps the sum of the others, and one
that the first pass left out even keeps what was there before. `Sweeper.Complete` excludes both:
every pass that succeeds hands over each point of the plan. `Sweeper.Covers` is how it is shown for
a given sweeper, with an invariant of its state.

* `Sweeper.reading_forall`: what every pass hands over holds of all passes of a measurement.
* `Sweeper.reading_sweeps`: where each pass of a measurement began and ended.
* `sumPasses_inv`: what passes leave in a slot is what they hand over, summed.
* `mean_old`: a point that is handed over owes nothing to what was there before.
* `collect_steps`, `collect_inv`: what measuring a standard does, and what it leaves, whether it
  succeeds or fails.
* `mean_once`: exactly computed, what passes leave is their mean.
* `collect_ok`: exactly computed, equal passes leave the value that each of them delivers.
-/

namespace NetworkAnalyzer

variable {σ α : Type} {N : Nat} {sweeper : Sweeper σ α} {s : Standard}

/-! ## Passes without a calibration -/

/-- What `left` passes hand over, pass by pass, and how they end. -/
def Sweeper.passes (sweeper : Sweeper σ α) (s : Standard) :
    Nat → Run σ (Except Failure Unit × List (List (Nat × Phasor α)))
  | 0 => return (.ok (), [])
  | left + 1 => do
    let pass ← sweeper.sweep (SweepMask.raw s.channel) s.channel
    match pass.outcome with
    | .error e => return (.error e, [pass.values])
    | .ok () =>
      let (outcome, values) ← sweeper.passes s left
      return (outcome, pass.values :: values)

def Sweeper.reading (sweeper : Sweeper σ α) (s : Standard) (averaging : UInt16) :
    Run σ (Except Failure Unit × List (List (Nat × Phasor α))) := do
  let bandwidth := sweeper.bandwidth (← get)
  if bandwidth < Parameters.bandwidth100 then
    sweeper.setBandwidth Parameters.bandwidth100
  let result ← sweeper.passes s (max averaging 1).toNat
  sweeper.setBandwidth bandwidth
  return result

/-- A measurement that succeeds was handed each point of the plan in each of its passes. -/
def Sweeper.Complete (sweeper : Sweeper σ α) (s : Standard) (averaging : UInt16) (w : σ) : Prop :=
  ∀ {values w'}, sweeper.reading s averaging w = .ok ((.ok (), values), w') →
    ∀ pass ∈ values, ∀ i < (sweeper.plan w).points.toNat, ∃ z, (i, z) ∈ pass

/-- While `connected` holds it keeps holding, and every pass that succeeds hands over each of
the first `n` points. -/
structure Sweeper.Covers (sweeper : Sweeper σ α) (s : Standard) (n : Nat) (connected : σ → Prop) :
    Prop where
  setBandwidth : ∀ {b w u w'}, connected w → sweeper.setBandwidth b w = .ok (u, w') → connected w'
  sweep : ∀ {w d w'}, connected w →
    sweeper.sweep (SweepMask.raw s.channel) s.channel w = .ok (d, w') → connected w' ∧
      (d.outcome = .ok () → ∀ i < n, ∃ z, (i, z) ∈ d.values)

/-- The values that one pass handed over for point `i`. -/
def handed (i : Nat) (values : List (Nat × Phasor α)) : List (Phasor α) :=
  (values.filter (·.1 = i)).map (·.2)

theorem mem_of_handed {i : Nat} {values : List (Nat × Phasor α)} {z : Phasor α}
    (h : z ∈ handed i values) : (i, z) ∈ values := by
  obtain ⟨p, hp, rfl⟩ := List.mem_map.mp h
  obtain ⟨hp, hi⟩ := List.mem_filter.mp hp
  exact of_decide_eq_true hi ▸ hp

section Passes

variable {connected : σ → Prop} {P : List (Nat × Phasor α) → Prop}

/-- What every pass that succeeds hands over holds of all passes of a measurement. -/
theorem Sweeper.passes_forall (hsweep : ∀ {w d w'}, connected w →
      sweeper.sweep (SweepMask.raw s.channel) s.channel w = .ok (d, w') →
        connected w' ∧ (d.outcome = .ok () → P d.values)) :
    ∀ {left : Nat} {values : List (List (Nat × Phasor α))} {w w' : σ}, connected w →
      sweeper.passes s left w = .ok ((.ok (), values), w') → ∀ pass ∈ values, P pass := by
  intro left
  induction left with
  | zero =>
    intro values w w' _ hrun
    obtain ⟨he, -⟩ := Run.pure_inv hrun
    cases he
    exact fun pass hin => absurd hin List.not_mem_nil
  | succ left ih =>
    intro values w w' hw hrun
    unfold Sweeper.passes at hrun
    obtain ⟨pass, w₁, hpass, h₁⟩ := Run.bind_inv hrun
    obtain ⟨hw₁, hholds⟩ := hsweep hw hpass
    cases hout : pass.outcome with
    | error e =>
      simp only [hout] at h₁
      obtain ⟨he, -⟩ := Run.pure_inv h₁
      cases he
    | ok u =>
      simp only [hout] at h₁
      obtain ⟨⟨outcome, rest⟩, w₂, hrest, h₂⟩ := Run.bind_inv h₁
      obtain ⟨he, rfl⟩ := Run.pure_inv h₂
      cases he
      intro pass' hin
      rcases List.mem_cons.mp hin with rfl | hin
      · exact hholds hout
      · exact ih hw₁ hrest pass' hin

theorem Sweeper.reading_forall {averaging : UInt16} {values : List (List (Nat × Phasor α))}
    {w w' : σ}
    (hset : ∀ {b w u w'}, connected w → sweeper.setBandwidth b w = .ok (u, w') → connected w')
    (hsweep : ∀ {w d w'}, connected w →
      sweeper.sweep (SweepMask.raw s.channel) s.channel w = .ok (d, w') →
        connected w' ∧ (d.outcome = .ok () → P d.values))
    (hw : connected w) (hrun : sweeper.reading s averaging w = .ok ((.ok (), values), w')) :
    ∀ pass ∈ values, P pass := by
  unfold Sweeper.reading at hrun
  rw [Run.get_bind] at hrun
  obtain ⟨w₁, hraised, h₁⟩ := Run.optional_inv hrun
  have hw₁ : connected w₁ := by
    rcases hraised with ⟨-, rfl⟩ | ⟨-, hraised⟩
    · exact hw
    · exact hset hw hraised
  obtain ⟨result, w₂, hpasses, h₂⟩ := Run.bind_inv h₁
  obtain ⟨u, w₃, -, h₃⟩ := Run.bind_inv h₂
  obtain ⟨rfl, -⟩ := Run.pure_inv h₃
  exact passes_forall hsweep hw₁ hpasses

theorem Sweeper.Covers.complete {w : σ}
    (h : sweeper.Covers s (sweeper.plan w).points.toNat connected) (hw : connected w)
    (averaging : UInt16) : sweeper.Complete s averaging w := fun hrun =>
  reading_forall h.setBandwidth h.sweep hw hrun

end Passes

section Sweeps

variable {R : σ → σ → Prop} [IsPreorder σ R]

/-- Each of the passes that were handed over began and ended somewhere on the way. -/
theorem Sweeper.passes_sweeps (hsweep : ∀ {w d w'},
      sweeper.sweep (SweepMask.raw s.channel) s.channel w = .ok (d, w') →
        d.outcome = .ok () → R w w') :
    ∀ {left : Nat} {values : List (List (Nat × Phasor α))} {w w' : σ},
      sweeper.passes s left w = .ok ((.ok (), values), w') → R w w' ∧
        ∀ pass ∈ values, ∃ v v', R w v ∧
          sweeper.sweep (SweepMask.raw s.channel) s.channel v = .ok (⟨pass, .ok ()⟩, v') ∧
            R v' w' := by
  intro left
  induction left with
  | zero =>
    intro values w w' hrun
    obtain ⟨he, rfl⟩ := Run.pure_inv hrun
    cases he
    exact ⟨refl_of R w', fun pass hin => absurd hin List.not_mem_nil⟩
  | succ left ih =>
    intro values w w' hrun
    unfold Sweeper.passes at hrun
    obtain ⟨⟨first, outcome⟩, w₁, hpass, h₁⟩ := Run.bind_inv hrun
    cases outcome with
    | error e =>
      obtain ⟨he, -⟩ := Run.pure_inv h₁
      cases he
    | ok u =>
      obtain ⟨⟨outcome, rest⟩, w₂, hrest, h₂⟩ := Run.bind_inv h₁
      obtain ⟨he, rfl⟩ := Run.pure_inv h₂
      cases he
      have hfirst := hsweep hpass rfl
      obtain ⟨hmoved, hall⟩ := ih hrest
      refine ⟨trans_of R hfirst hmoved, fun pass hin => ?_⟩
      rcases List.mem_cons.mp hin with rfl | hin
      · exact ⟨w, w₁, refl_of R w, hpass, hmoved⟩
      · obtain ⟨v, v', hv, hsw, hv'⟩ := hall pass hin
        exact ⟨v, v', trans_of R hfirst hv, hsw, hv'⟩

theorem Sweeper.reading_sweeps (hset : ∀ b, Moves R (sweeper.setBandwidth b)) (hsweep : ∀ {w d w'},
      sweeper.sweep (SweepMask.raw s.channel) s.channel w = .ok (d, w') →
        d.outcome = .ok () → R w w') {averaging : UInt16}
    {values : List (List (Nat × Phasor α))} {w w' : σ}
    (hrun : sweeper.reading s averaging w = .ok ((.ok (), values), w')) :
    ∀ pass ∈ values, ∃ v v', R w v ∧
      sweeper.sweep (SweepMask.raw s.channel) s.channel v = .ok (⟨pass, .ok ()⟩, v') ∧
        R v' w' := by
  unfold Sweeper.reading at hrun
  rw [Run.get_bind] at hrun
  obtain ⟨w₁, hraised, h₁⟩ := Run.optional_inv hrun
  have hw₁ : R w w₁ := by
    rcases hraised with ⟨-, rfl⟩ | ⟨-, hraised⟩
    · exact refl_of R w₁
    · exact hset _ hraised
  obtain ⟨result, w₂, hpasses, h₂⟩ := Run.bind_inv h₁
  obtain ⟨u, w₃, hrestored, h₃⟩ := Run.bind_inv h₂
  obtain ⟨rfl, rfl⟩ := Run.pure_inv h₃
  obtain ⟨-, hall⟩ := Sweeper.passes_sweeps hsweep hpasses
  intro pass hin
  obtain ⟨v, v', hv, hsw, hv'⟩ := hall pass hin
  exact ⟨v, v', trans_of R hw₁ hv, hsw, trans_of R hv' (hset _ hrestored)⟩

end Sweeps

variable [Scalar α]

theorem Sweeper.Delivers.covers {n : Nat} {v : Nat → Phasor α} {connected : σ → Prop}
    (h : sweeper.Delivers s n v connected) : sweeper.Covers s n connected := by
  refine ⟨h.setBandwidth, fun {w d w'} hw hsweep => ⟨(h.sweep hw hsweep).1, fun hok i hi => ?_⟩⟩
  have hv : handed i d.values = [v i] := (h.sweep hw hsweep).2 hok i hi
  exact ⟨v i, mem_of_handed (hv ▸ List.mem_singleton_self _)⟩

namespace Calibration

/-- The value at point `i` once the passes were entered over `old`. -/
def summed (i : Nat) (first : Bool) :
    List (List (Nat × Phasor α)) → Phasor α → Phasor α
  | [], old => old
  | values :: rest, old => summed i false rest ((handed i values).foldl (entered first) old)

def mean (i : Nat) (passes : List (List (Nat × Phasor α))) (old : Phasor α) : Phasor α :=
  if passes.length > 1 then (summed i true passes old).scale (1 / Scalar.ofNat passes.length)
  else summed i true passes old

theorem foldl_entered_true {zs : List (Phasor α)} (h : zs ≠ []) (old old' : Phasor α) :
    zs.foldl (entered true) old = zs.foldl (entered true) old' := by
  cases zs with
  | nil => exact absurd rfl h
  | cons z zs => rfl

/-- A point that the first pass hands over owes nothing to what was there before. -/
theorem mean_old {i : Nat} {values : List (Nat × Phasor α)}
    {rest : List (List (Nat × Phasor α))} {z : Phasor α} (h : (i, z) ∈ values)
    (old old' : Phasor α) : mean i (values :: rest) old = mean i (values :: rest) old' := by
  have hne : handed i values ≠ [] := by
    unfold handed
    simp only [ne_eq, List.map_eq_nil_iff, List.filter_eq_nil_iff, not_forall]
    exact ⟨(i, z), h, by simp⟩
  unfold mean summed
  rw [foldl_entered_true hne old old']

/-- Passes that are summed into a calibration are the passes themselves, and what they leave at
each point of the plan is their sum there. -/
theorem sumPasses_inv : ∀ {left : Nat} {first : Bool} {c c' : Calibration α N}
    {r : Except Failure Unit} {w w' : σ}, sumPasses sweeper s first left c w = .ok ((r, c'), w') →
    ∃ values, sweeper.passes s left w = .ok ((r, values), w') ∧
      (r = .ok () → values.length = left) ∧ AgreesOff s.slot c c' ∧
      ∀ i < c.points, c'.valueAt s.slot i = (c.valueAt s.slot i).map (summed i first values) := by
  intro left
  induction left with
  | zero =>
    intro first c c' r w w' h
    obtain ⟨he, rfl⟩ := Run.pure_inv h
    cases he
    exact ⟨[], rfl, fun _ => rfl, AgreesOff.refl _ _, fun i _ => by simp [summed]⟩
  | succ left ih =>
    intro first c c' r w w' h
    unfold sumPasses at h
    obtain ⟨pass, w₁, hpass, h₁⟩ := Run.bind_inv h
    have hoff := enterAll_agreesOff s.slot first pass.values c
    have hentered := fun i (hi : i < c.points) =>
      valueAt_enterAll s.slot first pass.values c hi
    cases hout : pass.outcome with
    | error e =>
      simp only [hout] at h₁
      obtain ⟨he, rfl⟩ := Run.pure_inv h₁
      cases he
      refine ⟨[pass.values], ?_, fun h => (by cases h), hoff, fun i hi => ?_⟩
      · unfold Sweeper.passes
        rw [Run.bind_ok _ hpass]
        simp only [hout]
        rfl
      · exact hentered i hi
    | ok u =>
      simp only [hout] at h₁
      obtain ⟨values, hpasses, hlen, hoff', hat⟩ := ih h₁
      refine ⟨pass.values :: values, ?_, fun h => by rw [List.length_cons, hlen h],
        hoff.trans hoff', fun i hi => ?_⟩
      · unfold Sweeper.passes
        rw [Run.bind_ok _ hpass]
        simp only [hout]
        rw [Run.bind_ok _ hpasses]
        rfl
      · rw [hat i (by rw [hoff.points]; exact hi), hentered i hi, Option.map_map]
        rfl

theorem measure_inv {count : Nat} {c c' : Calibration α N} {r : Except Failure Unit} {w w' : σ}
    (h : measure sweeper s count c w = .ok ((r, c'), w')) :
    ∃ values, sweeper.passes s count w = .ok ((r, values), w') ∧ AgreesOff s.slot c c' ∧
      (r = .ok () → values.length = count ∧
        ∀ i < c.points, c'.valueAt s.slot i = (c.valueAt s.slot i).map (mean i values)) := by
  unfold measure at h
  obtain ⟨⟨outcome, c₁⟩, w₁, hsum, h₁⟩ := Run.bind_inv h
  obtain ⟨values, hpasses, hlen, hoff, hat⟩ := sumPasses_inv hsum
  cases outcome with
  | error e =>
    obtain ⟨he, rfl⟩ := Run.pure_inv h₁
    cases he
    exact ⟨values, hpasses, hoff, fun h => by cases h⟩
  | ok u =>
    dsimp only at h₁
    split at h₁
    · rename_i hmany
      obtain ⟨he, rfl⟩ := Run.pure_inv h₁
      cases he
      have hscale := mapSlot_agreesOff c₁ s.slot (·.scale (1 / Scalar.ofNat count))
      refine ⟨values, hpasses, hoff.trans hscale, fun _ => ⟨hlen rfl, fun i hi => ?_⟩⟩
      rw [valueAt_mapSlot c₁ s.slot (·.scale (1 / Scalar.ofNat count))
        (by rw [hoff.points]; exact hi), hat i hi, Option.map_map]
      unfold mean
      simp only [hlen rfl, if_pos hmany]
      rfl
    · rename_i hone
      obtain ⟨he, rfl⟩ := Run.pure_inv h₁
      cases he
      refine ⟨values, hpasses, hoff, fun _ => ⟨hlen rfl, fun i hi => ?_⟩⟩
      rw [hat i hi]
      unfold mean
      simp only [hlen rfl, if_neg hone]

/-- The steps of a measurement: the bandwidth is raised where it has to be, the passes are made, and
the bandwidth is put back whatever came of them. -/
theorem collect_steps {averaging : UInt16} {c c' : Calibration α N} {r : Except Failure Unit}
    {w w' : σ} (h : c.collect sweeper s averaging w = .ok ((r, c'), w')) :
    ∃ w₁ w₂ c₁, ((¬sweeper.bandwidth w < Parameters.bandwidth100 ∧ w₁ = w) ∨
        (sweeper.bandwidth w < Parameters.bandwidth100 ∧
          sweeper.setBandwidth Parameters.bandwidth100 w = .ok ((), w₁))) ∧
      measure sweeper s (max averaging 1).toNat (c.onPlan (sweeper.plan w)) w₁ =
        .ok ((r, c₁), w₂) ∧
      sweeper.setBandwidth (sweeper.bandwidth w) w₂ = .ok ((), w') ∧
      c' = { c₁ with status := s.collected c₁.status r.toBool } := by
  unfold collect at h
  rw [Run.get_bind, Run.get_bind] at h
  obtain ⟨w₁, hraised, h₁⟩ := Run.optional_inv h
  obtain ⟨⟨outcome, c₁⟩, w₂, hmeasure, h₂⟩ := Run.bind_inv h₁
  obtain ⟨u, w₃, hrestore, h₃⟩ := Run.bind_inv h₂
  obtain ⟨he, rfl⟩ := Run.pure_inv h₃
  cases he
  exact ⟨w₁, w₂, c₁, hraised, hmeasure, hrestore, rfl⟩

/-- What measuring a standard leaves, whether it succeeds or fails: the calibration is on the
plan of the sweeper, the status says what became of the standard, every other slot is as
before. The slot of a standard that was measured holds the mean of the passes. -/
theorem collect_inv {averaging : UInt16} {c c' : Calibration α N} {r : Except Failure Unit}
    {w w' : σ} (h : c.collect sweeper s averaging w = .ok ((r, c'), w')) :
    ∃ values, sweeper.reading s averaging w = .ok ((r, values), w') ∧
      c'.plan = sweeper.plan w ∧
      c'.status = s.collected (c.onPlan (sweeper.plan w)).status r.toBool ∧
      (∀ t, t ≠ s.slot → ∀ i, c'.valueAt t i = c.valueAt t i) ∧
      (r = .ok () → values ≠ [] ∧ ∀ i < c'.points, (∀ pass ∈ values, ∃ z, (i, z) ∈ pass) →
        c'.valueAt s.slot i = some (mean i values 0)) := by
  obtain ⟨w₁, w₂, c₁, hraised, hmeasure, hrestore, rfl⟩ := collect_steps h
  obtain ⟨values, hpasses, hoff, hmean⟩ := measure_inv hmeasure
  have hreading : sweeper.reading s averaging w = .ok ((r, values), w') := by
    unfold Sweeper.reading
    rw [Run.get_bind]
    refine (Run.optional_ok _ hraised).trans ?_
    dsimp only
    rw [Run.bind_ok _ hpasses, Run.bind_ok _ hrestore]
    rfl
  refine ⟨values, hreading, hoff.plan.trans (onPlan_plan c _), ?_, fun t ht i => ?_, fun hr => ?_⟩
  · rw [hoff.status]
  · exact (hoff.valueAt t ht i).trans (valueAt_onPlan c _ t i)
  · subst hr
    obtain ⟨hlen, hat⟩ := hmean rfl
    have hcount : 1 ≤ (max averaging 1).toNat := one_le_averaging averaging
    cases values with
    | nil => rw [← hlen] at hcount; cases hcount
    | cons pass rest =>
      refine ⟨List.cons_ne_nil _ _, fun i hi hhanded => ?_⟩
      have hi₁ : i < (c.onPlan (sweeper.plan w)).points := by rw [← hoff.points]; exact hi
      obtain ⟨old, hold⟩ := valueAt_isSome (c := c.onPlan (sweeper.plan w)) (r := s.slot)
        (Nat.lt_of_lt_of_le hi₁ (points_le _))
      obtain ⟨z, hz⟩ := hhanded pass List.mem_cons_self
      refine (hat i hi₁).trans ?_
      rw [hold, Option.map_some, mean_old hz old 0]

/-! ## Exact passes -/

section Exact

variable {K : Type} [Field K] [LinearOrder K] {sweeper : Sweeper σ K} {v : Nat → Phasor K}
  {connected : σ → Prop} {i : Nat} {values : List (List (Nat × Phasor K))}

/-- Passes that each hand over a point once add up there. -/
theorem summed_once (first : Bool) (old : Phasor K)
    (honce : ∀ pass ∈ values, ∃ z, handed i pass = [z]) :
    summed i first values old =
      (if first && 0 < values.length then 0 else old) + (values.flatMap (handed i)).sum := by
  induction values generalizing first old with
  | nil => simp [summed]
  | cons pass rest ih =>
    obtain ⟨z, hz⟩ := honce pass List.mem_cons_self
    unfold summed
    rw [ih false _ fun pass' hin => honce pass' (List.mem_cons_of_mem _ hin), List.flatMap_cons, hz]
    cases first
    · simp [entered]
      ring
    · simp [entered]

variable [IsStrictOrderedRing K]

theorem mean_once (hne : values ≠ []) (honce : ∀ pass ∈ values, ∃ z, handed i pass = [z]) :
    mean i values 0 = (values.flatMap (handed i)).sum / values.length := by
  have hpos : 0 < values.length := List.length_pos_of_ne_nil hne
  unfold mean
  rw [summed_once true 0 honce]
  simp only [ite_self, zero_add]
  split
  · exact Phasor.scale_share hpos.ne' _
  · rename_i hone
    have hlen : values.length = 1 := by omega
    rw [hlen, Nat.cast_one, div_one]

theorem mean_same {z : Phasor K} (hne : values ≠ [])
    (hsame : ∀ pass ∈ values, handed i pass = [z]) : mean i values 0 = z := by
  have hlen : (values.length : Phasor K) ≠ 0 :=
    Phasor.natCast_ne_zero (List.length_pos_of_ne_nil hne).ne'
  rw [mean_once hne fun pass hin => ⟨z, hsame pass hin⟩, List.flatMap_congr hsame,
    ← List.map_eq_flatMap, List.map_const', List.sum_replicate, nsmul_eq_mul,
    mul_div_cancel_left₀ _ hlen]

/-- A successful measurement: the calibration is on the plan of the sweeper, the standard is
flagged, its slot holds what was delivered, the other slots are as before. -/
theorem collect_ok {averaging : UInt16} {c c' : Calibration K N} {w w' : σ}
    (hd : sweeper.Delivers s (c.onPlan (sweeper.plan w)).points v connected) (hw : connected w)
    (h : c.collect sweeper s averaging w = .ok ((.ok (), c'), w')) :
    c'.plan = sweeper.plan w ∧
      c'.status = s.collected (c.onPlan (sweeper.plan w)).status true ∧
      (∀ i < c'.points, c'.valueAt s.slot i = some (v i)) ∧
      ∀ r, r ≠ s.slot → ∀ i, c'.valueAt r i = c.valueAt r i := by
  obtain ⟨values, hreading, hplan, hstatus, hother, hown⟩ := collect_inv h
  obtain ⟨hne, hmean⟩ := hown rfl
  have hdelivered : ∀ pass ∈ values, ∀ i < (c.onPlan (sweeper.plan w)).points,
      handed i pass = [v i] := Sweeper.reading_forall hd.setBandwidth hd.sweep hw hreading
  refine ⟨hplan, hstatus, fun i hi => ?_, hother⟩
  have hi' : i < (c.onPlan (sweeper.plan w)).points := by
    unfold points at hi ⊢
    rwa [onPlan_plan, ← hplan]
  have hsame : ∀ pass ∈ values, handed i pass = [v i] := fun pass hin =>
    hdelivered pass hin i hi'
  rw [hmean i hi fun pass hin => ⟨v i, mem_of_handed (hsame pass hin ▸ List.mem_singleton_self _)⟩,
    mean_same hne hsame]

end Exact

end Calibration

end NetworkAnalyzer
