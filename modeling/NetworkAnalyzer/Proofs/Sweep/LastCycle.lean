import NetworkAnalyzer.Proofs.Sweep.Gathering

/-!
# Settling cycles and the values of a point

A retune may ask for extra settling cycles. All selected channels are then captured that many
times more, and every capture enters its value, over the values of the cycle before. The values
that stay are those of the last cycle.

That nothing else matters is stated with a second run of the same point, on any board and any
traces: if its last cycle read the same and its bands are the same, it keeps the same values,
whatever its earlier cycles read and however many there were.

* `channels_noted`: the captures of a measured point. Each cycle takes every selected channel once,
  in order.
* `lastReadings_noted`: the readings of the last cycle, among the notes.
* `measure_lastCycle`: what stays is a function of the notes of the last cycle. The terms are
  among them, at most once, and the change of impedance applies to the reflection that stays.
* `measure_lastCycle_slow`: six captures, of which the last two stay.
-/

namespace NetworkAnalyzer

namespace Note

def channel? : Note → Option Channel
  | .terms _ => none
  | .reading c _ _ => some c

def lastReading? : Note → Option (Channel × Phasor Float32)
  | .reading c true m => some (c, m)
  | _ => none

end Note

namespace PointSetup

variable {N : Nat} {ε η : Type} {board : Board (Shared N ε)} {p : PointSetup N}
  {early last early' last' : List (Channel × Phasor Float32)}
  {terms terms' : Option (Terms Float32)}

theorem channels_readings (final : Bool) (zs : List (Channel × Phasor Float32)) :
    (readings final zs).filterMap Note.channel? = zs.map (·.1) := by
  induction zs with
  | nil => rfl
  | cons z zs ih => exact congrArg (z.1 :: ·) ih

theorem channels_terms (terms : Option (Terms Float32)) :
    (terms.toList.map Note.terms).filterMap Note.channel? = [] := by
  cases terms <;> rfl

/-- The captures of a measured point: each cycle takes the selected channels in order. -/
theorem channels_noted {extra : Nat} (hearly : early.map (·.1) =
    (List.replicate extra p.mask.channels).flatten) (hlast : last.map (·.1) = p.mask.channels) :
    (noted early terms last).filterMap Note.channel? =
      (List.replicate (extra + 1) p.mask.channels).flatten := by
  unfold noted
  rw [List.filterMap_append, List.filterMap_append, channels_readings, channels_terms,
    channels_readings, hearly, hlast, List.replicate_succ', List.flatten_append]
  simp

theorem lastReadings_noted : (noted early terms last).filterMap Note.lastReading? = last := by
  have hearly : (readings false early).filterMap Note.lastReading? = [] := by
    simp [readings, Note.lastReading?]
  have hterms : (terms.toList.map Note.terms).filterMap Note.lastReading? = [] := by
    simp [Note.lastReading?]
  have hlast : (readings true last).filterMap Note.lastReading? = last := by
    simp [readings, Note.lastReading?, List.filterMap_map, Function.comp_def]
  unfold noted
  rw [List.filterMap_append, List.filterMap_append, hearly, hterms, hlast]
  rfl

theorem measure_noted {u u' : Traces Float32 N} {w w' : Shared N ε}
    (h : p.measure board u w = .ok ((.ok (), u'), w')) :
    ∃ delay extra w₁ early terms last, p.retune board w = .ok ((delay, extra), w₁) ∧
      p.course board w = .ok ((.ok (), noted early terms last), w') ∧
      p.Course board extra.toNat (.ok ()) early terms last ∧ u' = p.settled terms last u := by
  obtain ⟨notes, hcourse, rfl⟩ := measure_inv h
  obtain ⟨delay, extra, w₁, early, terms, last, hretune, rfl, hc⟩ := course_inv hcourse
  exact ⟨delay, extra, w₁, early, terms, last, hretune, hcourse, hc,
    kept_eq_settled hc.measured hc.last u⟩

/-- A measured point captures every selected channel once in each cycle, in order. What it keeps
is a function of the readings of the last cycle and of the terms, which are looked up once: no
earlier reading matters, nor the number of earlier cycles, nor what the traces held. -/
theorem measure_lastCycle {u u' : Traces Float32 N} {w w' : Shared N ε}
    (h : p.measure board u w = .ok ((.ok (), u'), w')) :
    ∃ delay extra w₁ early terms m,
      p.retune board w = .ok ((delay, extra), w₁) ∧
      p.course board w = .ok ((.ok (), noted early terms (p.cycleOf m)), w') ∧
      (noted early terms (p.cycleOf m)).filterMap Note.channel? =
        (List.replicate (extra.toNat + 1) p.mask.channels).flatten ∧
      (p.mask.measuresAny → ∃ v, p.finalTerms (board.band v) = .ok terms) ∧
      p.SameOff u u' ∧
      (p.index.toNat < N →
        (p.mask.measures .s11 → u'.entry .s11 p.index.toNat =
          some (p.referred (p.reflected terms (m .s11)))) ∧
        (p.mask.measures .s21 → u'.entry .s21 p.index.toNat =
          some (p.transmitted terms
            (if p.mask.measures .s11 then p.reflected terms (m .s11) else 0) (m .s21)))) ∧
      ∀ {other : Board (Shared N η)} {t t' : Traces Float32 N} {v v' : Shared N η} {notes},
        (∀ x x', other.band x' = board.band x) →
        p.measure other t v = .ok ((.ok (), t'), v') →
        p.course other v = .ok ((.ok (), notes), v') →
        notes.filterMap Note.lastReading? = p.cycleOf m →
        ∀ c, p.mask.measures c → t'.entry c p.index.toNat = u'.entry c p.index.toNat := by
  obtain ⟨delay, extra, w₁, early, terms, last, hretune, hcourse, hc, rfl⟩ := measure_noted h
  have hlast : last.map (·.1) = p.mask.channels := hc.last
  obtain ⟨m, rfl⟩ := exists_cycleOf hlast
  have hfound : p.mask.measuresAny → ∃ v, p.finalTerms (board.band v) = .ok terms :=
    fun hany => hc.found hany rfl
  refine ⟨delay, extra, w₁, early, terms, m, hretune, hcourse, channels_noted (hc.cycles rfl) hlast,
    hfound, settled_sameOff hlast u,
    fun hin => ⟨fun h₁ => settled_s11 m u h₁ hin, fun h₂ => settled_s21 m u h₂ hin⟩, ?_⟩
  intro other t t' v v' notes hband hother hnotes hsame c hmeasured
  obtain ⟨_, _, _, early', terms', last', -, hcourse', hc', rfl⟩ := measure_noted hother
  cases hcourse'.symm.trans hnotes
  rw [lastReadings_noted] at hsame
  subst hsame
  -- both look the terms up in the same bands
  have hany : p.mask.measuresAny := SweepMask.measuresAny_iff.mpr ⟨c, hmeasured⟩
  obtain ⟨x, hx⟩ := hfound hany
  obtain ⟨x', hx'⟩ := hc'.found hany rfl
  rw [hband x x', hx] at hx'
  cases hx'
  exact settled_entry hlast t u hmeasured

end PointSetup

/-! ## A source that settles slowly -/

namespace SlowSource

/-- A test set that asks for two extra settling cycles and counts its captures: each reads a
higher value than the one before. -/
def source : Board (Shared 1 Nat) where
  now := pure 0
  relax := modify fun w =>
    let sample : Phasor Float32 := ⟨Scalar.ofNat w.environment, 0⟩
    { w with capture := { w.capture with remaining := 0, accumulator := ⟨sample, 1⟩ } }
  tune _ := pure 0
  band _ _ := 0
  select _ := modify fun w => { w with environment := w.environment + 1 }
  takeSettlingCycles := pure 2

def point : PointSetup 1 where
  index := 0
  frequency := 1000
  mask := .ofNat 3
  config := {}
  calibration := none
  gain := 1

/-- Six captures, of which the last two stay. -/
theorem measure_lastCycle_slow : ∃ u' w' notes,
    point.measure source .zero { environment := 0 } = .ok ((.ok (), u'), w') ∧
    point.course source { environment := 0 } = .ok ((.ok (), notes), w') ∧
    notes.filterMap Note.channel? = [.s11, .s21, .s11, .s21, .s11, .s21] ∧
    u'.entry .s11 0 = some ⟨5, 0⟩ ∧ u'.entry .s21 0 = some ⟨6, 0⟩ := by
  have hmeasure : ∃ u' w', point.measure source .zero { environment := 0 } =
      .ok ((.ok (), u'), w') := ⟨_, _, rfl⟩
  obtain ⟨u', w', hmeasure⟩ := hmeasure
  obtain ⟨delay, extra, w₁, early, terms, m, hretune, hcourse, hchannels, hfound, -, hvalues, -⟩ :=
    PointSetup.measure_lastCycle (η := Nat) hmeasure
  obtain ⟨h₁, h₂⟩ := hvalues (by decide)
  obtain ⟨v, hterms⟩ := hfound (by decide)
  cases hterms
  have hm : point.cycleOf m = [(.s11, ⟨5, 0⟩), (.s21, ⟨6, 0⟩)] := by
    have hlast := @PointSetup.lastReadings_noted early (point.cycleOf m) none
    have hnotes : (point.course source { environment := 0 }).map
        (fun y => y.1.2.filterMap Note.lastReading?) =
          .ok [(.s11, ⟨5, 0⟩), (.s21, ⟨6, 0⟩)] := rfl
    rw [hcourse] at hnotes
    exact hlast.symm.trans (Except.ok.inj hnotes)
  have hm₁ : m .s11 = ⟨5, 0⟩ := congrArg Prod.snd (List.cons.inj hm).1
  have hm₂ : m .s21 = ⟨6, 0⟩ := congrArg Prod.snd (List.cons.inj (List.cons.inj hm).2).1
  refine ⟨u', w', _, hmeasure, hcourse, ?_, ?_, ?_⟩
  · cases hretune
    exact hchannels
  · refine (h₁ (by decide)).trans ?_
    rw [hm₁]
    rfl
  · refine (h₂ (by decide)).trans ?_
    rw [hm₂]
    rfl

end SlowSource

end NetworkAnalyzer
