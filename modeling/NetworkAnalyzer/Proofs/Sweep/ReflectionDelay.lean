import NetworkAnalyzer.Proofs.SinglePrecision
import NetworkAnalyzer.Proofs.Sweep.Gathering

/-!
# The delay of the reflection and the transmission

Two runs of a point that differ only in the electrical delay of the reflection: in its value
and in whether it is removed. They note the same (`course_withReflectionDelay`), so whatever
they keep differently was computed differently.

The enhanced response divides the source match out of the transmission with the reflection of
the same point. The reflection it takes is the one entered before, and from that one the delay
is removed already. So when both channels are selected and the response is enhanced
(`couples`), the delay reaches the transmission as well.

The two runs are followed side by side over their notes. As long as the transmission of the last
cycle is not entered, they agree in everything but the reflection. A point that fails never enters
it, because the transmission is measured last (`Through.not_transmission`).

That the delay really moves the transmission needs a reflection that changes when it is turned,
whatever the sine and the cosine of the angle are, since these are not computed here. An infinite
one does: turned, it is not finite in either component.

* `foldl_sameTransmission`: before the transmission of the last cycle is entered, nothing the
  delay changes reaches it.
* `settled_sameTransmission`: where the correction does not take the reflection, its delay does not
  matter.
* `measure_reflectionDelay`: which points keep a transmission that does not depend on the
  delay, and how it depends on the delay in all others.
* `measure_reflectionDelay_moves`: a delay that moves the transmission.
-/

namespace NetworkAnalyzer

namespace PointSetup

variable {N : Nat} {ε : Type} {board : Board (Shared N ε)} {p : PointSetup N}

/-- The point with another delay of the reflection, removed or left in. -/
def withReflectionDelay (p : PointSetup N) (removed : Bool) (delay : Float32) : PointSetup N :=
  { p with
    mask := p.mask.put .delayS11 removed
    config := { p.config with delayS11 := delay } }

/-- A reflection of the point with the delay removed, if it is to be. -/
def delayRemoved (p : PointSetup N) (removed : Bool) (delay : Float32) (γ : Phasor Float32) :
    Phasor Float32 :=
  if removed then Correction.electricalDelay γ delay p.frequency else γ

/-- The correction of the transmission takes the reflection of the point. -/
def couples (p : PointSetup N) : Bool :=
  p.enhanced && p.mask.measures .s11 && p.mask.measures .s21

section Parameters

variable (p : PointSetup N) (removed : Bool) (delay : Float32)

@[simp] theorem measures_withReflectionDelay (c : Channel) :
    (p.withReflectionDelay removed delay).mask.measures c = p.mask.measures c := by
  cases c <;> exact Flags.has_put_of_ne _ _ (by decide)

@[simp] theorem channels_withReflectionDelay :
    (p.withReflectionDelay removed delay).mask.channels = p.mask.channels := by
  simp [SweepMask.channels, Channel.all, List.filter]

@[simp] theorem measuresAny_withReflectionDelay :
    (p.withReflectionDelay removed delay).mask.measuresAny = p.mask.measuresAny := by
  simp [SweepMask.measuresAny]

@[simp] theorem termIndex_withReflectionDelay :
    (p.withReflectionDelay removed delay).termIndex = p.termIndex := by
  unfold termIndex
  rw [show (p.withReflectionDelay removed delay).mask.has .interpolate = p.mask.has .interpolate
    from Flags.has_put_of_ne _ _ (by decide)]
  rfl

theorem transmitted_withReflectionDelay (terms : Option (Terms Float32)) (γ m : Phasor Float32) :
    (p.withReflectionDelay removed delay).transmitted terms γ m = p.transmitted terms γ m := by
  unfold transmitted
  rw [show (p.withReflectionDelay removed delay).mask.removesDelay .s21 =
    p.mask.removesDelay .s21 from Flags.has_put_of_ne _ _ (by decide)]
  rfl

theorem reflected_withReflectionDelay (t : Terms Float32) (m : Phasor Float32) :
    (p.withReflectionDelay removed delay).reflected (some t) m =
      p.delayRemoved removed delay (Correction.reflection m t) := by
  unfold reflected delayRemoved
  rw [show (p.withReflectionDelay removed delay).mask.removesDelay .s11 = removed
    from Flags.has_put_same _ _ _]
  rfl

/-! ## What is noted -/

theorem consult_withReflectionDelay (known final : Bool) :
    (p.withReflectionDelay removed delay).consult board known final =
      p.consult board known final := by
  unfold consult
  rw [termIndex_withReflectionDelay]
  rfl

theorem expose_withReflectionDelay (shot : Shot) (known : Bool) :
    (p.withReflectionDelay removed delay).expose board shot known =
      p.expose board shot known := by
  unfold expose
  simp only [consult_withReflectionDelay]
  rfl

theorem gather_withReflectionDelay (shots : List Shot) : ∀ known : Bool,
    (p.withReflectionDelay removed delay).gather board shots known =
      p.gather board shots known := by
  induction shots with
  | nil => intro known; rfl
  | cons shot shots ih =>
    intro known
    unfold gather
    simp only [expose_withReflectionDelay, ih]

/-- The delay does not reach the board. -/
theorem course_withReflectionDelay :
    (p.withReflectionDelay removed delay).course board = p.course board := by
  unfold course retune
  simp only [measuresAny_withReflectionDelay, channels_withReflectionDelay,
    gather_withReflectionDelay]
  rfl

end Parameters

/-! ## What is computed -/

theorem transmitted_congr (h : p.enhanced = false) (terms : Option (Terms Float32))
    (γ γ' m : Phasor Float32) : p.transmitted terms γ m = p.transmitted terms γ' m := by
  unfold transmitted
  cases terms with
  | none => rfl
  | some t => simp only [h, Correction.transmission, Bool.false_eq_true, if_false]

/-- One note that is not the transmission of the last cycle. -/
theorem workOut_sameTransmission {removed removed' : Bool} {delay delay' : Float32}
    {s s' : PointState N} {note : Note} (hnote : ∀ m, note ≠ .reading .s21 true m)
    (h : s'.traces.s21 = s.traces.s21) :
    ((p.withReflectionDelay removed' delay').workOut s' note).traces.s21 =
      ((p.withReflectionDelay removed delay).workOut s note).traces.s21 := by
  cases note with
  | terms t => exact h
  | reading c final m =>
    cases c with
    | s11 => exact h
    | s21 =>
      cases final with
      | true => exact absurd rfl (hnote m)
      | false =>
        have hdelay : (p.withReflectionDelay removed' delay').mask.removesDelay .s21 =
            (p.withReflectionDelay removed delay).mask.removesDelay .s21 := by
          simp (disch := decide) [withReflectionDelay, SweepMask.removesDelay,
            SweepMask.delayOption, Flags.has_put_of_ne]
        simp only [workOut, enter, correct, Traces.setPoint, h, hdelay]
        rfl

theorem foldl_sameTransmission {removed removed' : Bool} {delay delay' : Float32}
    {notes : List Note} : ∀ {s s' : PointState N},
      (∀ note ∈ notes, ∀ m, note ≠ .reading .s21 true m) → s'.traces.s21 = s.traces.s21 →
      (notes.foldl (p.withReflectionDelay removed' delay').workOut s').traces.s21 =
        (notes.foldl (p.withReflectionDelay removed delay).workOut s).traces.s21 := by
  induction notes with
  | nil => exact fun _ h => h
  | cons note notes ih =>
    intro s s' hnotes h
    exact ih (fun n hn => hnotes n (List.mem_cons_of_mem _ hn))
      (workOut_sameTransmission (hnotes note List.mem_cons_self) h)

/-- The transmission is measured last, so a failed point has none of the last cycle. -/
theorem Through.not_transmission {m : SweepMask} {taken : List Channel} {e : Failure}
    (h : Through m.channels taken (.error e)) : Channel.s21 ∉ taken := by
  obtain ⟨c, rest, hsplit⟩ := h
  have hall : Channel.all.Pairwise fun a b => a.index < b.index := by decide
  have hordered : (taken ++ c :: rest).Pairwise fun a b => a.index < b.index := by
    rw [hsplit]
    exact hall.filter _
  intro hmem
  have hlt := (List.pairwise_append.mp hordered).2.2 .s21 hmem c List.mem_cons_self
  cases c <;> exact absurd hlt (by decide)

theorem kept_failed_sameTransmission {removed removed' : Bool} {delay delay' : Float32}
    {early last : List (Channel × Phasor Float32)} {terms : Option (Terms Float32)} {e : Failure}
    (hlast : Through p.mask.channels (last.map (·.1)) (.error e)) (u : Traces Float32 N) :
    ((p.withReflectionDelay removed' delay').kept u (.error e) (noted early terms last)).s21 =
      ((p.withReflectionDelay removed delay).kept u (.error e) (noted early terms last)).s21 := by
  refine foldl_sameTransmission (fun note hnote m he => ?_) rfl
  rcases List.mem_append.mp hnote with hnote | hnote
  · obtain ⟨z, -, rfl⟩ := List.mem_map.mp hnote
    exact absurd (Note.reading.inj he).2.1 Bool.false_ne_true
  rcases List.mem_append.mp hnote with hnote | hnote
  · obtain ⟨t, -, rfl⟩ := List.mem_map.mp hnote
    cases he
  · obtain ⟨z, hz, rfl⟩ := List.mem_map.mp hnote
    have hchannel : z.1 = .s21 := (Note.reading.inj he).1
    exact hlast.not_transmission (hchannel ▸ List.mem_map_of_mem hz)

section Values

variable {removed removed' : Bool} {delay delay' : Float32} {terms : Option (Terms Float32)}
  (m : Channel → Phasor Float32) (u : Traces Float32 N)

theorem cycleOf_withReflectionDelay :
    (p.withReflectionDelay removed delay).cycleOf m = p.cycleOf m := by
  unfold cycleOf
  rw [channels_withReflectionDelay]

/-- The value of a measured transmission. -/
theorem settled_s21_withReflectionDelay (h : p.mask.measures .s21) (hin : p.index.toNat < N) :
    ((p.withReflectionDelay removed delay).settled terms (p.cycleOf m) u).entry .s21
        p.index.toNat =
      some (p.transmitted terms (if p.mask.measures .s11 then
        (p.withReflectionDelay removed delay).reflected terms (m .s11) else 0) (m .s21)) := by
  have hmeasured : (p.withReflectionDelay removed delay).mask.measures .s21 := by simpa using h
  have hvalue := @settled_s21 _ _ terms m u hmeasured hin
  rw [cycleOf_withReflectionDelay, transmitted_withReflectionDelay,
    measures_withReflectionDelay] at hvalue
  exact hvalue

/-- Where the correction does not take the reflection, its delay does not matter. -/
theorem settled_sameTransmission (hc : p.couples = false) :
    ((p.withReflectionDelay removed' delay').settled terms (p.cycleOf m) u).s21 =
      ((p.withReflectionDelay removed delay).settled terms (p.cycleOf m) u).s21 := by
  have hframe : ∀ removed delay, p.SameOff u
      ((p.withReflectionDelay removed delay).settled terms (p.cycleOf m) u) := by
    intro removed delay c j hout
    refine settled_sameOff ?_ u c j fun hin => hout ⟨?_, hin.2⟩
    · rw [cycleOf_channels, channels_withReflectionDelay]
    · rw [← measures_withReflectionDelay]
      exact hin.1
  refine Traces.get_eq_of_entry (c := .s21) fun j => ?_
  by_cases hpoint : p.mask.measures .s21 ∧ j = p.index.toNat
  · obtain ⟨h₂, rfl⟩ := hpoint
    by_cases hin : p.index.toNat < N
    · rw [settled_s21_withReflectionDelay m u h₂ hin, settled_s21_withReflectionDelay m u h₂ hin]
      by_cases h₁ : p.mask.measures .s11
      · have henhanced : p.enhanced = false := by
          simpa [couples, h₁, h₂] using hc
        exact congrArg some (transmitted_congr henhanced _ _ _ _)
      · rw [if_neg h₁, if_neg h₁]
    · simp [Traces.entry, hin]
  · rw [hframe removed' delay' .s21 j hpoint, hframe removed delay .s21 j hpoint]

end Values

/-- Where the reflection does not take part in the correction, the transmission does not depend
on the delay of the reflection. Where it does, the transmission is corrected with the
reflection after its delay is removed. -/
theorem measure_reflectionDelay (p : PointSetup N) (board : Board (Shared N ε))
    (removed removed' : Bool) (delay delay' : Float32) (u : Traces Float32 N)
    (w : Shared N ε) :
    ((p.withReflectionDelay removed' delay').measure board u w).map (fun y => (y.1.1, y.2)) =
      ((p.withReflectionDelay removed delay).measure board u w).map (fun y => (y.1.1, y.2)) ∧
    ∀ {r r' x x' v v'},
      (p.withReflectionDelay removed delay).measure board u w = .ok ((r, x), v) →
      (p.withReflectionDelay removed' delay').measure board u w = .ok ((r', x'), v') →
      (∀ c j, j ≠ p.index.toNat → x'.entry c j = x.entry c j) ∧
      (p.couples = false ∨ r ≠ .ok () → x'.s21 = x.s21) ∧
      (p.couples → r = .ok () → p.index.toNat < N → ∃ notes t m₁₁ m₂₁,
        p.course board w = .ok ((r, notes), v) ∧ .terms t ∈ notes ∧
        .reading .s11 true m₁₁ ∈ notes ∧ .reading .s21 true m₂₁ ∈ notes ∧
        x.entry .s21 p.index.toNat = some (p.transmitted (some t)
          (p.delayRemoved removed delay (Correction.reflection m₁₁ t)) m₂₁) ∧
        x'.entry .s21 p.index.toNat = some (p.transmitted (some t)
          (p.delayRemoved removed' delay' (Correction.reflection m₁₁ t)) m₂₁)) := by
  refine ⟨?_, ?_⟩
  · rw [measure_outcome, measure_outcome, course_withReflectionDelay, course_withReflectionDelay]
  intro r r' x x' v v' h h'
  have hframe := (measure_frame board.frames_true h).2
  have hframe' := (measure_frame board.frames_true h').2
  obtain ⟨notes, hcourse, hx⟩ := measure_inv h
  obtain ⟨notes', hcourse', hx'⟩ := measure_inv h'
  rw [course_withReflectionDelay] at hcourse hcourse'
  cases hcourse.symm.trans hcourse'
  clear h h' hcourse'
  obtain ⟨d, extra, w₁, early, terms, last, -, rfl, hcycles⟩ := course_inv hcourse
  refine ⟨fun c j hj => ?_, ?_⟩
  · rw [hframe c j fun hin => hj hin.2, hframe' c j fun hin => hj hin.2]
  cases r with
  | error e =>
    refine ⟨fun _ => ?_, fun _ he => by cases he⟩
    rw [hx, hx', kept_failed_sameTransmission hcycles.last]
  | ok y =>
    obtain ⟨m, rfl⟩ := exists_cycleOf hcycles.last
    have hkept : ∀ removed delay, (p.withReflectionDelay removed delay).kept u (.ok ())
        (noted early terms (p.cycleOf m)) =
        (p.withReflectionDelay removed delay).settled terms (p.cycleOf m) u := by
      intro removed delay
      refine kept_eq_settled (fun z hz => ?_) ?_ u
      · rw [measures_withReflectionDelay]
        exact hcycles.measured z hz
      · rw [cycleOf_channels, channels_withReflectionDelay]
    rw [hkept] at hx hx'
    refine ⟨fun hcase => ?_, fun hcouples _ hin => ?_⟩
    · rw [hx, hx']
      exact settled_sameTransmission m u (hcase.resolve_right fun hne => hne rfl)
    · rw [couples, Bool.and_eq_true, Bool.and_eq_true] at hcouples
      obtain ⟨⟨henhanced, h₁⟩, h₂⟩ := hcouples
      obtain ⟨b, hfound⟩ := hcycles.found (SweepMask.measuresAny_iff.mpr ⟨_, h₁⟩) rfl
      cases terms with
      | none =>
        -- enhanced response is a property of a calibration
        rw [enhanced, finalTerms_none hfound] at henhanced
        cases henhanced
      | some t =>
        have hread : ∀ c, p.mask.measures c →
            .reading c true (m c) ∈ noted early (some t) (p.cycleOf m) :=
          fun c hc => List.mem_append_right _ (List.mem_append_right _ (mem_readings m hc))
        refine ⟨_, t, m .s11, m .s21, hcourse, by simp [noted], hread _ h₁, hread _ h₂, ?_, ?_⟩
        · rw [hx, settled_s21_withReflectionDelay m u h₂ hin, if_pos h₁,
            reflected_withReflectionDelay]
        · rw [hx', settled_s21_withReflectionDelay m u h₂ hin, if_pos h₁,
            reflected_withReflectionDelay]

end PointSetup

/-! ## A reflection that no turn leaves alone

Sines and cosines are not computed here. A reflection that is unbounded in one component and zero
in the other stays unbounded in both, whatever they are. -/

namespace Resonance

open SinglePrecision

def infinity : Float32 := .ofBits 0x7f800000

def undefined : Float32 := .ofBits 0x7fc00000

def Unbounded (x : Float32) : Prop := x = undefined ∨ x = infinity ∨ x = -infinity

instance (x : Float32) : Decidable (Unbounded x) :=
  inferInstanceAs (Decidable (_ ∨ _ ∨ _))

theorem infinity_mul (x : Float32) : Unbounded (infinity * x) := by
  change Unbounded (word (Float.Model.UnpackedFloat.mul .binary32 (number infinity) (number x)))
  rw [show number infinity = .infinity .positive from rfl]
  cases number x with
  | notANumber => exact Or.inl rfl
  | zero s => exact Or.inl rfl
  | infinity s =>
    cases s with
    | positive => exact Or.inr (Or.inl rfl)
    | negative => exact Or.inr (Or.inr rfl)
  | finite s m e h =>
    cases s with
    | positive => exact Or.inr (Or.inl rfl)
    | negative => exact Or.inr (Or.inr rfl)

theorem zero_mul (x : Float32) : 0 * x = undefined ∨ IsZero (0 * x) := by
  change word (Float.Model.UnpackedFloat.mul .binary32 (number 0) (number x)) = undefined ∨
    IsZero (word (Float.Model.UnpackedFloat.mul .binary32 (number 0) (number x)))
  rw [number_zero]
  cases number x with
  | notANumber => exact Or.inl rfl
  | infinity s => exact Or.inl rfl
  | zero s => exact Or.inr ⟨_, number_word (.zero _)⟩
  | finite s m e h => exact Or.inr ⟨_, number_word (.zero _)⟩

theorem Unbounded.sameValue {x y : Float32} (hx : Unbounded x) (h : SameValue y x) :
    Unbounded y := by
  rcases h with rfl | ⟨-, s, hs⟩
  · exact hx
  · rcases hx with rfl | rfl | rfl <;> cases hs

/-- Turned by any angle, it is unbounded in both components. -/
theorem unbounded_rotate (turns : Float32) :
    Unbounded ((⟨infinity, 0⟩ : Phasor Float32).rotate turns).re ∧
      Unbounded ((⟨infinity, 0⟩ : Phasor Float32).rotate turns).im := by
  unfold Phasor.rotate
  dsimp only
  generalize (Phasor.tau * (turns - turns.floor)).toFloat.sin.toFloat32 = s
  generalize (Phasor.tau * (turns - turns.floor)).toFloat.cos.toFloat32 = c
  constructor
  · rcases zero_mul s with h | h
    · rw [h]
      rcases infinity_mul c with h' | h' | h' <;> rw [h'] <;> decide +kernel
    · exact (infinity_mul c).sameValue (sub_isZero _ h)
  · rcases zero_mul c with h | h
    · rw [h]
      rcases infinity_mul s with h' | h' | h' <;> rw [h'] <;> decide +kernel
    · exact (infinity_mul s).sameValue (isZero_add h _)

/-- Terms that make the reflection `⟨infinity, 0⟩` of a silent reading. -/
def terms : Terms Float32 where
  directivity := ⟨.ofBits 0xda800000, 0⟩
  sourceMatch := ⟨.ofBits 0x00200000, 1⟩
  reflectionTracking := ⟨0, .ofBits 0xda800000⟩
  transmissionTracking := 1
  isolation := 0

/-- What the source match makes of a reflection that is unbounded in both components. -/
theorem transmission_undefined {γ : Phasor Float32} (hre : Unbounded γ.re)
    (him : Unbounded γ.im) :
    (Correction.transmission ⟨1, -1⟩ γ terms true).re = undefined := by
  cases γ with
  | mk x y =>
    rcases hre with h | h | h <;> rcases him with h' | h' | h' <;> cases h <;> cases h' <;> rfl

/-- A test set without a source: the reflection is silent. -/
def source : Board (Shared 1 Channel) where
  now := pure 0
  relax := modify fun w =>
    let sample : Phasor Float32 := match w.environment with
      | .s11 => 0
      | .s21 => ⟨1, -1⟩
    { w with capture := { w.capture with remaining := 0, accumulator := ⟨sample, 1⟩ } }
  tune _ := pure 0
  band _ _ := 0
  select c := modify fun w => { w with environment := c }

def point : PointSetup 1 where
  index := 0
  frequency := 1000
  mask := .ofNat 35
  config := {}
  calibration := some { (Calibration.empty : Calibration Float32 1) with
    status := Flags.none.put .enhancedResponse true
    table := #v[terms] }
  gain := 1

theorem measure_point : ∃ v, ∀ removed delay, ∃ x,
    (point.withReflectionDelay removed delay).measure source .zero { environment := .s11 } =
      .ok ((.ok (), x), v) ∧
    x.entry .s21 0 = some (point.transmitted (some terms)
      (point.delayRemoved removed delay ⟨infinity, 0⟩) ⟨1, -1⟩) := by
  have hcourse : ∃ v, point.course source { environment := .s11 } =
      .ok ((.ok (), PointSetup.noted [] (some terms) (point.cycleOf fun
        | .s11 => 0
        | .s21 => ⟨1, -1⟩)), v) := ⟨_, rfl⟩
  obtain ⟨v, hcourse⟩ := hcourse
  refine ⟨v, fun removed delay => ?_⟩
  rw [← point.course_withReflectionDelay removed delay] at hcourse
  refine ⟨_, PointSetup.measure_of_course hcourse .zero, ?_⟩
  rw [PointSetup.kept_eq_settled (fun z hz => by cases hz) (by
      rw [PointSetup.cycleOf_channels, PointSetup.channels_withReflectionDelay])]
  refine (PointSetup.settled_s21_withReflectionDelay _ _ rfl (by decide)).trans ?_
  rw [if_pos (by decide), PointSetup.reflected_withReflectionDelay]
  rfl

/-- With the enhanced response the delay of the reflection moves the transmission. -/
theorem measure_reflectionDelay_moves : ∃ x x' v,
    (point.withReflectionDelay false 0).measure source .zero { environment := .s11 } =
      .ok ((.ok (), x), v) ∧
    (point.withReflectionDelay true 0.25).measure source .zero { environment := .s11 } =
      .ok ((.ok (), x'), v) ∧
    x.entry .s21 0 ≠ x'.entry .s21 0 := by
  obtain ⟨v, hpoint⟩ := measure_point
  obtain ⟨x, hx, hleft⟩ := hpoint false 0
  obtain ⟨x', hx', hmoved⟩ := hpoint true 0.25
  refine ⟨x, x', v, hx, hx', fun he => ?_⟩
  rw [hleft, hmoved] at he
  obtain ⟨hre, him⟩ := unbounded_rotate (0.25 * Scalar.ofNat 1000)
  have hundefined : (point.transmitted (some terms)
      (point.delayRemoved true 0.25 ⟨infinity, 0⟩) ⟨1, -1⟩).re = undefined := by
    refine Eq.trans ?_ (mul_one undefined)
    rw [← transmission_undefined hre him]
    rfl
  have hbounded : (point.transmitted (some terms)
      (point.delayRemoved false 0 ⟨infinity, 0⟩) ⟨1, -1⟩).re = -infinity := rfl
  have hsame := congrArg Phasor.re (Option.some.inj he)
  exact absurd (hbounded.symm.trans (hsame.trans hundefined)) (by decide +kernel)

end Resonance

end NetworkAnalyzer
