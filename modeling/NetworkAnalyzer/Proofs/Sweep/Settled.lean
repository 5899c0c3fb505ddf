import NetworkAnalyzer.Sweep.Pass

/-!
# The values a measured point keeps

The readings of the last settling cycle, corrected and entered, are all that stays of a
point: a selected channel holds what they say, whatever the traces held before and
whatever earlier cycles left, and every other entry keeps its value (`SameOff`).

`settled` is the fold of the last cycle over the traces, followed by the change of impedance, and
the lemmas here say what it depends on. The state it folds over has more than the traces: the
reflection that was entered last, which the enhanced response takes. An earlier cycle may have left
one there. It does not matter, because a point that measures both channels measures the reflection
first.

Which formula a value is of depends on the options of the pass: `reflected` takes the terms and the
delay out, `referred` changes the impedance, and `transmitted` takes terms and delay out and
applies the gain.

* `settled_entry`: the value of a selected channel does not depend on the traces.
* `settled_sameOff`: no other entry changes.
* `settled_of_sameOff`, `settled_eq`: neither earlier cycles nor the reflection they
  measured matter.
* `settled_s11`, `settled_s21`: the two values of a point, as formulas in its readings.
-/

namespace NetworkAnalyzer

variable {N : Nat}

/-! ## Entries of the traces -/

namespace Traces

variable {α : Type}

def entry (t : Traces α N) (c : Channel) (j : Nat) : Option (Phasor α) := (t.get c)[j]?

theorem get_eq_of_entry {t u : Traces α N} {c : Channel} (h : ∀ j, t.entry c j = u.entry c j) :
    t.get c = u.get c := by
  refine Vector.ext fun j hj => ?_
  have hc := h j
  unfold entry at hc
  rw [Vector.getElem?_eq_getElem hj, Vector.getElem?_eq_getElem hj] at hc
  exact Option.some.inj hc

theorem ext_entry {t u : Traces α N} (h : ∀ c j, t.entry c j = u.entry c j) : t = u := by
  cases t; cases u
  rw [Traces.mk.injEq]
  exact ⟨get_eq_of_entry (h .s11), get_eq_of_entry (h .s21)⟩

theorem entry_setPoint (t : Traces α N) (c d : Channel) (i j : Nat) (z : Phasor α) :
    (t.setPoint c i z).entry d j =
      if d = c ∧ j = i then (if i < N then some z else none) else t.entry d j := by
  unfold entry
  by_cases hc : d = c
  · subst hc
    rw [get_setPoint_same, Vector.getElem?_setIfInBounds]
    by_cases hij : j = i
    · simp [hij]
    · simp [hij, Ne.symm hij]
  · rw [get_setPoint_of_ne _ _ _ hc, if_neg (fun h => hc h.1)]

theorem entry_setPoint_of_ne (t : Traces α N) {c d : Channel} {i j : Nat} (z : Phasor α)
    (h : ¬(d = c ∧ j = i)) : (t.setPoint c i z).entry d j = t.entry d j := by
  rw [entry_setPoint, if_neg h]

end Traces

namespace SweepMask

theorem measuresAny_iff {m : SweepMask} : m.measuresAny ↔ ∃ c, m.measures c := by
  unfold measuresAny
  rw [Bool.or_eq_true]
  constructor
  · rintro (h | h)
    · exact ⟨_, h⟩
    · exact ⟨_, h⟩
  · rintro ⟨c, h⟩
    cases c with
    | s11 => exact Or.inl h
    | s21 => exact Or.inr h

end SweepMask

namespace PointSetup

variable {p : PointSetup N}

/-! ## Values of a point -/

/-- The terms the point is corrected with, on a board with these bands. -/
def finalTerms (p : PointSetup N) (band : UInt32 → UInt32) :
    Except Fault (Option (Terms Float32)) :=
  match p.calibration with
  | some cal => (cal.interpolate p.termIndex p.frequency band).map some
  | none => .ok none

/-- A reading of the last cycle corrected and entered. -/
def record (p : PointSetup N) (s : PointState N) (z : Channel × Phasor Float32) : PointState N :=
  p.enter s z.1 (p.correct s ⟨z.1, 0, 0, true⟩ z.2)

/-- The traces once the last cycle has taken these readings. -/
def settled (p : PointSetup N) (terms : Option (Terms Float32))
    (readings : List (Channel × Phasor Float32)) (u : Traces Float32 N) : Traces Float32 N :=
  p.renormalized (readings.foldl p.record { traces := u, terms })

def SameOff (p : PointSetup N) (u t : Traces Float32 N) : Prop :=
  ∀ c j, ¬(p.mask.measures c ∧ j = p.index.toNat) → t.entry c j = u.entry c j

theorem SameOff.refl (u : Traces Float32 N) : p.SameOff u u := fun _ _ _ => rfl

theorem SameOff.trans {u t v : Traces Float32 N} (h : p.SameOff u t) (h' : p.SameOff t v) :
    p.SameOff u v := fun c j hne => (h' c j hne).trans (h c j hne)

theorem enter_sameOff (s : PointState N) {c : Channel} (hc : p.mask.measures c)
    (z : Phasor Float32) : p.SameOff s.traces (p.enter s c z).traces := by
  intro d j hne
  refine Traces.entry_setPoint_of_ne _ _ fun h => hne ?_
  rw [h.1]
  exact ⟨hc, h.2⟩

theorem renormalized_sameOff (s : PointState N) : p.SameOff s.traces (p.renormalized s) := by
  unfold renormalized
  split
  · rename_i h
    rw [Bool.and_eq_true] at h
    intro d j hne
    refine Traces.entry_setPoint_of_ne _ _ fun he => hne ?_
    rw [he.1]
    exact ⟨h.2, he.2⟩
  · exact SameOff.refl _

theorem foldl_record_sameOff {zs : List (Channel × Phasor Float32)} :
    ∀ {s : PointState N}, (∀ z ∈ zs, p.mask.measures z.1) →
      p.SameOff s.traces (zs.foldl p.record s).traces := by
  induction zs with
  | nil => exact fun _ => SameOff.refl _
  | cons z zs ih =>
    intro s h
    exact (enter_sameOff s (h z List.mem_cons_self) _).trans
      (ih fun y hy => h y (List.mem_cons_of_mem _ hy))

/-- Readings of the same point leave the same values, whatever the traces held before. -/
theorem foldl_record_congr (zs : List (Channel × Phasor Float32)) :
    ∀ {s t : PointState N}, s.reflection = t.reflection → s.terms = t.terms →
      (zs.foldl p.record s).reflection = (zs.foldl p.record t).reflection ∧
      ∀ c, c ∈ zs.map (·.1) ∨ s.traces.entry c p.index.toNat = t.traces.entry c p.index.toNat →
        (zs.foldl p.record s).traces.entry c p.index.toNat =
          (zs.foldl p.record t).traces.entry c p.index.toNat := by
  induction zs with
  | nil =>
    intro s t hr ht
    refine ⟨hr, fun c hc => ?_⟩
    rcases hc with hc | hc
    · cases hc
    · exact hc
  | cons z zs ih =>
    intro s t hr ht
    have hcorrect : p.correct s ⟨z.1, 0, 0, true⟩ z.2 = p.correct t ⟨z.1, 0, 0, true⟩ z.2 := by
      unfold correct
      rw [hr, ht]
    have hr' : (p.record s z).reflection = (p.record t z).reflection := by
      unfold record enter
      rw [hcorrect, hr]
    obtain ⟨hrefl, hentry⟩ := ih hr' (show (p.record s z).terms = (p.record t z).terms from ht)
    refine ⟨hrefl, fun c hc => hentry c ?_⟩
    by_cases hmem : c ∈ zs.map (·.1)
    · exact Or.inl hmem
    · right
      unfold record enter
      simp only [Traces.entry_setPoint, hcorrect, and_true]
      split
      · rfl
      · rename_i hne
        rcases hc with hc | hc
        · rcases List.mem_cons.mp hc with h | h
          · exact absurd h hne
          · exact absurd h hmem
        · exact hc

theorem renormalized_congr {s t : PointState N} (hr : s.reflection = t.reflection) {c : Channel}
    (h : s.traces.entry c p.index.toNat = t.traces.entry c p.index.toNat) :
    (p.renormalized s).entry c p.index.toNat = (p.renormalized t).entry c p.index.toNat := by
  unfold renormalized
  split
  · rw [hr, Traces.entry_setPoint, Traces.entry_setPoint, h]
  · exact h

variable {terms : Option (Terms Float32)} {readings : List (Channel × Phasor Float32)}

theorem settled_sameOff (hz : readings.map (·.1) = p.mask.channels) (u : Traces Float32 N) :
    p.SameOff u (p.settled terms readings u) := by
  refine (foldl_record_sameOff fun z h => ?_).trans (renormalized_sameOff _)
  rw [← SweepMask.mem_channels, ← hz]
  exact List.mem_map_of_mem h

/-- What a selected channel holds at the point does not depend on what it held before. -/
theorem settled_entry (hz : readings.map (·.1) = p.mask.channels) (u t : Traces Float32 N)
    {c : Channel} (hc : p.mask.measures c) :
    (p.settled terms readings u).entry c p.index.toNat =
      (p.settled terms readings t).entry c p.index.toNat := by
  obtain ⟨hr, hentry⟩ := foldl_record_congr (p := p) readings
    (s := { traces := u, terms }) (t := { traces := t, terms }) rfl rfl
  refine renormalized_congr hr (hentry c (Or.inl ?_))
  rw [hz]
  exact SweepMask.mem_channels.mpr hc

/-- Readings of the last cycle are all that stays of a point: it does not matter what earlier
cycles left in the entries of the point. -/
theorem settled_of_sameOff (hz : readings.map (·.1) = p.mask.channels)
    {u t : Traces Float32 N} (h : p.SameOff u t) :
    p.settled terms readings t = p.settled terms readings u := by
  refine Traces.ext_entry fun c j => ?_
  by_cases hcj : p.mask.measures c ∧ j = p.index.toNat
  · rw [hcj.2]
    exact settled_entry hz t u hcj.1
  · rw [settled_sameOff hz t c j hcj, settled_sameOff hz u c j hcj, h c j hcj]

/-- The last cycle starts with the reflection of an earlier one, if there was any; with the
reflection measured again, it does not use it. -/
theorem settled_eq (hz : readings.map (·.1) = p.mask.channels) (u : Traces Float32 N)
    {γ : Phasor Float32} (hγ : ¬p.mask.measures .s11 → γ = 0) :
    p.renormalized (readings.foldl p.record { traces := u, reflection := γ, terms }) =
      p.settled terms readings u := by
  by_cases h : p.mask.measures .s11
  · have hhead : p.mask.channels = .s11 :: [Channel.s21].filter p.mask.measures := by
      unfold SweepMask.channels Channel.all
      rw [List.filter_cons_of_pos h]
    rw [hhead] at hz
    cases readings with
    | nil => cases hz
    | cons z zs =>
      obtain ⟨hz₁, -⟩ := List.cons.inj hz
      obtain ⟨c, m⟩ := z
      cases hz₁
      rfl
  · rw [hγ h]
    rfl

/-! ## The two values -/

/-- The reflection of a point: its reading rid of the error terms and of the delay. -/
def reflected (p : PointSetup N) (terms : Option (Terms Float32)) (m : Phasor Float32) :
    Phasor Float32 :=
  let z := match terms with
    | some t => Correction.reflection m t
    | none => m
  if p.mask.removesDelay .s11 then
    Correction.electricalDelay z p.config.delayS11 p.frequency
  else z

/-- The transmission of a point: its reading rid of the error terms, with the reflection `γ` in
the enhanced response, then of the delay, and the gain offset. -/
def transmitted (p : PointSetup N) (terms : Option (Terms Float32)) (γ m : Phasor Float32) :
    Phasor Float32 :=
  let z := match terms with
    | some t => Correction.transmission m γ t p.enhanced
    | none => m
  let z := if p.mask.removesDelay .s21 then
      Correction.electricalDelay z p.config.delayS21 p.frequency
    else z
  z.scale p.gain

/-- The reflection as the traces keep it. -/
def referred (p : PointSetup N) (γ : Phasor Float32) : Phasor Float32 :=
  if p.mask.has .renormalize then
    Correction.renormalize γ p.config.portImpedance p.config.referenceImpedance
  else γ

def cycleOf (p : PointSetup N) (m : Channel → Phasor Float32) : List (Channel × Phasor Float32) :=
  p.mask.channels.map fun c => (c, m c)

theorem cycleOf_channels (m : Channel → Phasor Float32) :
    (p.cycleOf m).map (·.1) = p.mask.channels := by
  unfold cycleOf
  rw [List.map_map]
  exact List.map_id _

/-- Readings of different channels are the values of a function. -/
theorem exists_values {zs : List (Channel × Phasor Float32)} (h : (zs.map (·.1)).Nodup) :
    ∃ m : Channel → Phasor Float32, zs = (zs.map (·.1)).map fun c => (c, m c) := by
  induction zs with
  | nil => exact ⟨fun _ => 0, rfl⟩
  | cons z zs ih =>
    rw [List.map_cons, List.nodup_cons] at h
    obtain ⟨m, hm⟩ := ih h.2
    refine ⟨fun c => if c = z.1 then z.2 else m c, ?_⟩
    simp only [List.map_cons, if_true]
    refine congrArg (z :: ·) (hm.trans (List.map_congr_left fun c hc => ?_))
    have hne : c ≠ z.1 := fun he => h.1 (he ▸ hc)
    simp only [hne, if_false]

theorem exists_cycleOf (hz : readings.map (·.1) = p.mask.channels) :
    ∃ m, readings = p.cycleOf m := by
  obtain ⟨m, hm⟩ := exists_values (hz ▸ p.mask.nodup_channels)
  rw [hz] at hm
  exact ⟨m, hm⟩

theorem record_s11 (s : PointState N) (m : Phasor Float32) :
    p.record s (.s11, m) = p.enter s .s11 (p.reflected s.terms m) := by
  unfold record correct reflected
  cases s.terms <;> rfl

theorem record_s21 (s : PointState N) (m : Phasor Float32) :
    p.record s (.s21, m) = p.enter s .s21 (p.transmitted s.terms s.reflection m) := by
  unfold record correct transmitted
  cases s.terms <;> rfl

theorem settled_s11 (m : Channel → Phasor Float32) (u : Traces Float32 N)
    (h : p.mask.measures .s11) (hin : p.index.toNat < N) :
    (p.settled terms (p.cycleOf m) u).entry .s11 p.index.toNat =
      some (p.referred (p.reflected terms (m .s11))) := by
  unfold settled cycleOf SweepMask.channels Channel.all renormalized referred
  cases h₂ : p.mask.measures .s21 <;>
    by_cases hr : p.mask.has .renormalize <;>
    simp [h, h₂, hr, record_s11, record_s21, enter, Traces.entry_setPoint, hin]

theorem settled_s21 (m : Channel → Phasor Float32) (u : Traces Float32 N)
    (h : p.mask.measures .s21) (hin : p.index.toNat < N) :
    (p.settled terms (p.cycleOf m) u).entry .s21 p.index.toNat =
      some (p.transmitted terms (if p.mask.measures .s11 then p.reflected terms (m .s11) else 0)
        (m .s21)) := by
  unfold settled cycleOf SweepMask.channels Channel.all renormalized
  cases h₁ : p.mask.measures .s11 <;>
    by_cases hr : p.mask.has .renormalize <;>
    simp [h, h₁, hr, record_s11, record_s21, enter, Traces.entry_setPoint, hin]

end PointSetup

end NetworkAnalyzer
