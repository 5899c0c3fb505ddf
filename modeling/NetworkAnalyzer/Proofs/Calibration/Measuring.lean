import Mathlib.Data.List.Nodup
import NetworkAnalyzer.Calibration.Collection
import NetworkAnalyzer.Proofs.Runs

/-!
# What measuring a standard leaves in the tables

`Calibration.valueAt` reads one slot at one point. Entering the values of a pass
changes the slot of the standard at points of the plan and nothing else
(`AgreesOff`).

A measurement is a stack of small operations on the tables: entering one value, entering those of a
pass, scaling a slot, adopting a plan. Each has two lemmas here, one that says what it makes of the
slot at a point (`valueAt_enter`, `valueAt_mapSlot`, `valueAt_onPlan`) and one that says that all
else agrees (`enter_agreesOff`, `mapSlot_agreesOff`). `AgreesOff` composes, so what a whole
measurement leaves alone follows by transitivity.

* `entered`: what a slot holds after a value was entered. The first pass stores and later ones add.
* `valueAt_enterAll`: only the values that a pass delivers at a point matter there, however many
  they are. A pass may hand over a point more than once, or not at all.
* `Sweeper.Delivers`: what is asked of a sweeper. An invariant of its state may be part of it, since
  a measurement changes the bandwidth on the way.
* `collect_returns`: a measurement returns unless the sweeper faults.
* `collect_steady`: a steady sweeper never fails a measurement.
-/

namespace NetworkAnalyzer

theorem FrequencyPlan.covers_eq (p q : FrequencyPlan) :
    p.covers q.start q.stop q.points = decide (p = q) := by
  unfold FrequencyPlan.covers
  cases p
  cases q
  rw [Bool.eq_iff_iff]
  simp [and_assoc]

theorem Slots.ext_get {β : Type} {t u : Slots β} (h : ∀ s, t.get s = u.get s) : t = u := by
  cases t
  cases u
  congr 1
  · exact h .directivity
  · exact h .sourceMatch
  · exact h .reflectionTracking
  · exact h .transmissionTracking
  · exact h .isolation

namespace Calibration

variable {α : Type} {N : Nat}

/-- What slot `r` holds at point `i`. -/
def valueAt (c : Calibration α N) (r : Term) (i : Nat) : Option (Phasor α) :=
  c.table[i]?.map (·.get r)

/-- `c'` is `c` up to the contents of one slot at points of the plan. -/
structure AgreesOff (slot : Term) (c c' : Calibration α N) : Prop where
  plan : c'.plan = c.plan
  status : c'.status = c.status
  saveSlot : c'.saveSlot = c.saveSlot
  valueAt : ∀ r, r ≠ slot → ∀ i, c'.valueAt r i = c.valueAt r i
  beyond : ∀ i, c.points ≤ i → c'.valueAt slot i = c.valueAt slot i

theorem AgreesOff.refl (slot : Term) (c : Calibration α N) : AgreesOff slot c c :=
  ⟨rfl, rfl, rfl, fun _ _ _ => rfl, fun _ _ => rfl⟩

theorem AgreesOff.points {slot : Term} {c c' : Calibration α N} (h : AgreesOff slot c c') :
    c'.points = c.points := by
  unfold Calibration.points; rw [h.plan]

theorem AgreesOff.trans {slot : Term} {c c' c'' : Calibration α N} (h : AgreesOff slot c c')
    (h' : AgreesOff slot c' c'') : AgreesOff slot c c'' :=
  ⟨h'.plan.trans h.plan, h'.status.trans h.status, h'.saveSlot.trans h.saveSlot,
    fun r hr i => (h'.valueAt r hr i).trans (h.valueAt r hr i),
    fun i hi => (h'.beyond i (h.points ▸ hi)).trans (h.beyond i hi)⟩

theorem valueAt_isSome {c : Calibration α N} {r : Term} {i : Nat} (h : i < N) :
    ∃ z, c.valueAt r i = some z := by
  refine ⟨(c.table[i]).get r, ?_⟩
  unfold Calibration.valueAt
  rw [Vector.getElem?_eq_getElem h]; rfl

theorem points_le (c : Calibration α N) : c.points ≤ N := Nat.min_le_right _ _

theorem points_eq {c : Calibration α N} (h : c.plan.points.toNat ≤ N) :
    c.points = c.plan.points.toNat := Nat.min_eq_left h

/-! ## Changing a slot over the plan -/

theorem valueAt_mapPoints (c : Calibration α N) (f : Terms α → Terms α) (r : Term) (i : Nat) :
    (c.mapPoints f).valueAt r i =
      c.table[i]?.map fun t => (if i < c.points then f t else t).get r := by
  unfold Calibration.valueAt mapPoints
  simp only [Vector.getElem?_mapIdx, Option.map_map, Function.comp_def]

theorem mapSlot_agreesOff (c : Calibration α N) (slot : Term) (f : Phasor α → Phasor α) :
    AgreesOff slot c (c.mapPoints fun t => t.set slot (f (t.get slot))) := by
  refine ⟨rfl, rfl, rfl, fun r hr i => ?_, fun i hi => ?_⟩
  · rw [valueAt_mapPoints]
    unfold Calibration.valueAt
    congr 1
    funext t
    split
    · exact Slots.get_set_of_ne _ _ hr
    · rfl
  · rw [valueAt_mapPoints]
    simp only [if_neg (Nat.not_lt.mpr hi)]
    rfl

theorem valueAt_mapSlot (c : Calibration α N) (slot : Term) (f : Phasor α → Phasor α) {i : Nat}
    (hi : i < c.points) : (c.mapPoints fun t => t.set slot (f (t.get slot))).valueAt slot i =
      (c.valueAt slot i).map f := by
  rw [valueAt_mapPoints]
  unfold Calibration.valueAt
  simp only [if_pos hi, Slots.get_set_same, Option.map_map, Function.comp_def]

/-! ## Entering values -/

section Enter

variable [Scalar α]

def entered (first : Bool) (old z : Phasor α) : Phasor α := if first then z else old + z

theorem valueAt_enter (c : Calibration α N) (slot : Term) (first : Bool) (i : Nat) (z : Phasor α)
    (r : Term) (j : Nat) : (c.enter slot first i z).valueAt r j =
      if r = slot ∧ i = j ∧ i < c.points then (c.valueAt r j).map (entered first · z)
      else c.valueAt r j := by
  unfold enter
  split
  · rename_i hi
    have hN : i < N := Nat.lt_of_lt_of_le hi c.points_le
    simp only [Calibration.valueAt, Vector.getElem?_setIfInBounds, hi, and_true]
    by_cases hij : i = j
    · subst hij
      simp only [hN, if_true, Vector.getElem?_eq_getElem hN, Option.map_some, and_true]
      by_cases hr : r = slot
      · subst hr; simp [entered]
      · simp [hr, Slots.get_set_of_ne _ _ hr]
    · simp [hij]
  · rename_i hi
    simp [hi]

theorem enter_agreesOff (c : Calibration α N) (slot : Term) (first : Bool) (i : Nat)
    (z : Phasor α) : AgreesOff slot c (c.enter slot first i z) := by
  refine ⟨?_, ?_, ?_, fun r hr j => ?_, fun j hj => ?_⟩
  · unfold enter; split <;> rfl
  · unfold enter; split <;> rfl
  · unfold enter; split <;> rfl
  · rw [valueAt_enter, if_neg (fun h => hr h.1)]
  · rw [valueAt_enter, if_neg]
    rintro ⟨-, rfl, hi⟩
    exact Nat.not_lt.mpr hj hi

theorem enterAll_agreesOff (slot : Term) (first : Bool) (values : List (Nat × Phasor α)) :
    ∀ c : Calibration α N, AgreesOff slot c (c.enterAll slot first values) := by
  induction values with
  | nil => exact AgreesOff.refl slot
  | cons p values ih =>
    intro c
    exact (enter_agreesOff c slot first p.1 p.2).trans (ih _)

theorem valueAt_enterAll (slot : Term) (first : Bool) {i : Nat} (values : List (Nat × Phasor α)) :
    ∀ c : Calibration α N, i < c.points → (c.enterAll slot first values).valueAt slot i =
      (c.valueAt slot i).map fun old =>
        ((values.filter (·.1 = i)).map (·.2)).foldl (entered first) old := by
  induction values with
  | nil => intro c _; simp [enterAll]
  | cons p values ih =>
    intro c hi
    have hp := enter_agreesOff c slot first p.1 p.2
    have hstep : (c.enterAll slot first (p :: values)) =
        (c.enter slot first p.1 p.2).enterAll slot first values := rfl
    rw [hstep, ih _ (hp.points ▸ hi), valueAt_enter]
    by_cases hpi : p.1 = i
    · subst hpi
      simp [hi, Option.map_map, Function.comp_def]
    · simp [hpi]

end Enter

end Calibration

/-! ## Passes -/

variable {σ : Type} {N : Nat}

/-- While `connected` holds it keeps holding, and every pass that succeeds hands over
`v i` once at each of the first `n` points. -/
structure Sweeper.Delivers {α : Type} [Scalar α] (sweeper : Sweeper σ α) (s : Standard) (n : Nat)
    (v : Nat → Phasor α) (connected : σ → Prop) : Prop where
  setBandwidth : ∀ {b w u w'}, connected w → sweeper.setBandwidth b w = .ok (u, w') → connected w'
  sweep : ∀ {w d w'}, connected w →
    sweeper.sweep (SweepMask.raw s.channel) s.channel w = .ok (d, w') → connected w' ∧
      (d.outcome = .ok () → ∀ i < n, (d.values.filter (·.1 = i)).map (·.2) = [v i])

theorem Sweeper.Delivers.mono {α : Type} [Scalar α] {sweeper : Sweeper σ α} {s : Standard}
    {n k : Nat} {v : Nat → Phasor α} {connected : σ → Prop}
    (h : sweeper.Delivers s n v connected) (hk : k ≤ n) : sweeper.Delivers s k v connected :=
  ⟨h.setBandwidth, fun hw hs => ⟨(h.sweep hw hs).1,
    fun ho i hi => (h.sweep hw hs).2 ho i (Nat.lt_of_lt_of_le hi hk)⟩⟩

/-- No operation of the sweeper faults, and its passes end as `ends` says. -/
structure Sweeper.Returns {α : Type} (sweeper : Sweeper σ α)
    (ends : Except Failure Unit → Prop) : Prop where
  setBandwidth : ∀ b w, ∃ w', sweeper.setBandwidth b w = .ok ((), w')
  sweep : ∀ mask channel w, ∃ d w',
    sweeper.sweep mask channel w = .ok (d, w') ∧ ends d.outcome

/-- A sweeper over `plan` that hands over the same values in every pass. -/
def Sweeper.steady {α : Type} (plan : FrequencyPlan) (v : Nat → Phasor α) : Sweeper Unit α where
  plan _ := plan
  bandwidth _ := Parameters.bandwidth100
  setBandwidth _ := pure ()
  sweep _ _ := pure ⟨(List.range plan.points.toNat).map fun i => (i, v i), .ok ()⟩

/-- A pass that hands over every point once, in order. -/
theorem handed_range {α : Type} {n i : Nat} (v : Nat → Phasor α) (hi : i < n) :
    ((((List.range n).map fun i => (i, v i)).filter (·.1 = i)).map (·.2)) = [v i] := by
  have honce : (List.range n).filter (fun j => j = i) = [i] := by
    rw [List.filter_eq, List.count_eq_one_of_mem List.nodup_range (List.mem_range.mpr hi)]
    rfl
  simp only [List.filter_map, Function.comp_def, honce, List.map_cons, List.map_nil]

theorem Sweeper.steady_delivers {α : Type} [Scalar α] (plan : FrequencyPlan) (s : Standard)
    (v : Nat → Phasor α) :
    (Sweeper.steady plan v).Delivers s plan.points.toNat v fun _ => True := by
  refine ⟨fun _ _ => trivial, fun {w d w'} _ h => ⟨trivial, fun _ i hi => ?_⟩⟩
  obtain ⟨rfl, -⟩ := Run.pure_inv h
  exact handed_range v hi

namespace Calibration

variable {α : Type}

theorem one_le_averaging (averaging : UInt16) : 1 ≤ (max averaging 1).toNat := by
  change 1 ≤ (if averaging ≤ 1 then 1 else averaging).toNat
  split
  · decide
  · rename_i hle
    exact Nat.le_of_lt (UInt16.lt_iff_toNat_lt.mp (UInt16.not_le.mp hle))

theorem onPlan_plan (c : Calibration α N) (plan : FrequencyPlan) : (c.onPlan plan).plan = plan := by
  unfold onPlan
  rw [FrequencyPlan.covers_eq]
  split
  · rename_i h
    exact of_decide_eq_true h
  · rfl

theorem points_onPlan_le (c : Calibration α N) (plan : FrequencyPlan) :
    (c.onPlan plan).points ≤ plan.points.toNat := by
  unfold points
  rw [onPlan_plan]
  exact Nat.min_le_left _ _

theorem onPlan_of_eq {c : Calibration α N} {plan : FrequencyPlan} (h : c.plan = plan) :
    c.onPlan plan = c := by
  unfold onPlan
  rw [FrequencyPlan.covers_eq, if_pos (decide_eq_true h)]

theorem onPlan_of_ne {c : Calibration α N} {plan : FrequencyPlan} (h : c.plan ≠ plan) :
    c.onPlan plan = { c with status := .none, plan := plan } := by
  unfold onPlan
  rw [FrequencyPlan.covers_eq, if_neg (by rw [decide_eq_true_iff]; exact h)]

theorem valueAt_onPlan (c : Calibration α N) (plan : FrequencyPlan) (r : Term) (i : Nat) :
    (c.onPlan plan).valueAt r i = c.valueAt r i := by
  unfold Calibration.valueAt onPlan
  split <;> rfl

variable [Scalar α]

variable {sweeper : Sweeper σ α} {ends : Except Failure Unit → Prop}

theorem sumPasses_returns (h : sweeper.Returns ends) (hok : ends (.ok ())) (s : Standard) :
    ∀ (left : Nat) (first : Bool) (c : Calibration α N) (w : σ), ∃ r c' w',
      sumPasses sweeper s first left c w = .ok ((r, c'), w') ∧ ends r := by
  intro left
  induction left with
  | zero => exact fun _ c w => ⟨.ok (), c, w, rfl, hok⟩
  | succ left ih =>
    intro first c w
    obtain ⟨⟨values, outcome⟩, w₁, hsweep, hends⟩ := h.sweep (SweepMask.raw s.channel) s.channel w
    unfold sumPasses
    rw [Run.bind_ok _ hsweep]
    cases outcome with
    | error e => exact ⟨.error e, _, w₁, rfl, hends⟩
    | ok u => exact ih false _ w₁

theorem measure_returns (h : sweeper.Returns ends) (hok : ends (.ok ())) (s : Standard)
    (count : Nat) (c : Calibration α N) (w : σ) : ∃ r c' w',
      measure sweeper s count c w = .ok ((r, c'), w') ∧ ends r := by
  obtain ⟨r, c₁, w₁, hsum, hends⟩ := sumPasses_returns h hok s count true c w
  unfold measure
  rw [Run.bind_ok _ hsum]
  cases r with
  | error e => exact ⟨_, _, w₁, rfl, hends⟩
  | ok u =>
    dsimp only
    split
    · exact ⟨_, _, w₁, rfl, hends⟩
    · exact ⟨_, _, w₁, rfl, hends⟩

/-- A sweeper that never faults makes every measurement return. -/
theorem collect_returns (h : sweeper.Returns ends) (hok : ends (.ok ())) (s : Standard)
    (averaging : UInt16) (c : Calibration α N) (w : σ) : ∃ r c' w',
      c.collect sweeper s averaging w = .ok ((r, c'), w') ∧ ends r := by
  obtain ⟨w₁, hraised⟩ : ∃ w₁, (¬sweeper.bandwidth w < Parameters.bandwidth100 ∧ w₁ = w) ∨
      (sweeper.bandwidth w < Parameters.bandwidth100 ∧
        sweeper.setBandwidth Parameters.bandwidth100 w = .ok ((), w₁)) := by
    by_cases hlow : sweeper.bandwidth w < Parameters.bandwidth100
    · obtain ⟨w₁, hset⟩ := h.setBandwidth Parameters.bandwidth100 w
      exact ⟨w₁, Or.inr ⟨hlow, hset⟩⟩
    · exact ⟨w, Or.inl ⟨hlow, rfl⟩⟩
  obtain ⟨r, c₁, w₂, hmeasure, hends⟩ :=
    measure_returns h hok s (max averaging 1).toNat (c.onPlan (sweeper.plan w)) w₁
  obtain ⟨w₃, hrestore⟩ := h.setBandwidth (sweeper.bandwidth w) w₂
  refine ⟨r, { c₁ with status := s.collected c₁.status r.toBool }, w₃, ?_, hends⟩
  unfold collect
  rw [Run.get_bind, Run.get_bind]
  refine (Run.optional_ok _ hraised).trans ?_
  dsimp only
  rw [Run.bind_ok _ hmeasure]
  dsimp only
  rw [Run.bind_ok _ hrestore]
  rfl

theorem collect_steady (plan : FrequencyPlan) (s : Standard) (v : Nat → Phasor α)
    (averaging : UInt16) (c : Calibration α N) : ∃ c',
      c.collect (.steady plan v) s averaging () = .ok ((.ok (), c'), ()) := by
  have hreturns : (Sweeper.steady plan v).Returns (· = .ok ()) :=
    ⟨fun _ _ => ⟨(), rfl⟩, fun _ _ _ => ⟨_, (), rfl, rfl⟩⟩
  obtain ⟨r, c', w', hcollect, rfl⟩ := collect_returns hreturns rfl s averaging c ()
  exact ⟨c', hcollect⟩

end Calibration

end NetworkAnalyzer
