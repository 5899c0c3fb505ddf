import NetworkAnalyzer.Calibration.Lookup
import NetworkAnalyzer.Correction
import NetworkAnalyzer.Proofs.Calibration.Measuring
import NetworkAnalyzer.Proofs.SinglePrecision

/-!
# Neutral terms

A term without a standard is neutral: zero for directivity, source match and isolation, one for
the trackings. In single precision neutral terms are exact in every use that is made of them: no
rounding happens, since nothing but zero is added and nothing but one is multiplied or divided by.

Up to the sign of zeros, that is. A negative zero plus a zero is a zero, so the equalities
are `SameValue` and not identity. They are about finite values: a zero times an infinity
is no number, so a correction with neutral terms does not keep a value that overflowed.

* `IsFinite`, `SameValue`, `IsZero`: the properties of single-precision phasors that are used.
* `zero_mul`, `one_sub`, `mul_one`, `div_one`: the operations of the corrections, with a neutral
  operand.
* `reflection_neutral`, `transmission_neutral`: corrections with neutral terms keep every value,
  also the transmission with the enhanced response.
* `neutral_onLine`: interpolated between neutral points, terms are neutral, at any finite position.
* `Lookup.coefficient_finite`: every position of a lookup is finite.
-/

namespace NetworkAnalyzer

open SinglePrecision

def Term.neutral {α : Type} [Scalar α] : Term → Phasor α
  | .directivity | .sourceMatch | .isolation => 0
  | .reflectionTracking | .transmissionTracking => 1

def Terms.neutral {α : Type} [Scalar α] : Terms α := .build Term.neutral

/-- The line through two points at a position on it. -/
def Terms.onLine {α : Type} [Scalar α] (lo hi : Terms α) (k : α) : Terms α :=
  .build fun s => lo.get s + (hi.get s - lo.get s).scale k

/-! ## Corrections -/

namespace Phasor

structure IsFinite (z : Phasor Float32) : Prop where
  re : z.re.isFinite
  im : z.im.isFinite

structure SameValue (z w : Phasor Float32) : Prop where
  re : SinglePrecision.SameValue z.re w.re
  im : SinglePrecision.SameValue z.im w.im

theorem SameValue.trans {z w v : Phasor Float32} (h : SameValue z w) (h' : SameValue w v) :
    SameValue z v := ⟨h.re.trans h'.re, h.im.trans h'.im⟩

theorem SameValue.isFinite {z w : Phasor Float32} (h : SameValue z w) (hw : w.IsFinite) :
    z.IsFinite := ⟨h.re.isFinite hw.re, h.im.isFinite hw.im⟩

theorem sub_zero (z : Phasor Float32) : z - 0 = z := by
  cases z
  exact congrArg₂ Phasor.mk (SinglePrecision.sub_zero _) (SinglePrecision.sub_zero _)

structure IsZero (z : Phasor Float32) : Prop where
  re : SinglePrecision.IsZero z.re
  im : SinglePrecision.IsZero z.im

theorem zero_mul {z : Phasor Float32} (hz : z.IsFinite) : IsZero (0 * z) :=
  ⟨(isZero_zero_mul hz.re).sub (isZero_zero_mul hz.im),
    (isZero_zero_mul hz.im).add (isZero_zero_mul hz.re)⟩

theorem one_add {z : Phasor Float32} (hz : z.IsZero) : 1 + z = 1 :=
  congrArg₂ Phasor.mk (SinglePrecision.one_add hz.re) (SinglePrecision.zero_add hz.im)

theorem one_sub {z : Phasor Float32} (hz : z.IsZero) : 1 - z = 1 :=
  congrArg₂ Phasor.mk (SinglePrecision.one_sub hz.re) (SinglePrecision.zero_sub hz.im)

theorem mul_one {z : Phasor Float32} (hz : z.IsFinite) : SameValue (z * 1) z := by
  constructor
  · change SinglePrecision.SameValue (z.re * 1 - z.im * 0) z.re
    rw [SinglePrecision.mul_one]
    exact sub_isZero _ (isZero_mul_zero hz.im)
  · change SinglePrecision.SameValue (z.re * 0 + z.im * 1) z.im
    rw [SinglePrecision.mul_one]
    exact isZero_add (isZero_mul_zero hz.re) _

theorem div_one {z : Phasor Float32} (hz : z.IsFinite) : SameValue (z / 1) z := by
  constructor
  · change SinglePrecision.SameValue ((z.re * 1 + z.im * 0) / 1) z.re
    rw [SinglePrecision.mul_one, SinglePrecision.div_one]
    exact add_isZero _ (isZero_mul_zero hz.im)
  · change SinglePrecision.SameValue ((z.im * 1 - z.re * 0) / 1) z.im
    rw [SinglePrecision.mul_one, SinglePrecision.div_one]
    exact sub_isZero _ (isZero_mul_zero hz.re)

end Phasor

namespace Correction

theorem reflection_neutral {m : Phasor Float32} (hm : m.IsFinite) :
    (reflection m Terms.neutral).SameValue m := by
  have hdenominator : (1 : Phasor Float32) + 0 * m = 1 := Phasor.one_add (Phasor.zero_mul hm)
  have hreflection : reflection m Terms.neutral = m / 1 := by
    unfold reflection Phasor.divOr
    dsimp only
    change (if ((1 : Phasor Float32) + 0 * (m - 0)).normSq ≤ 0 then m - 0
      else (m - 0) / ((1 : Phasor Float32) + 0 * (m - 0))) = m / 1
    rw [Phasor.sub_zero, hdenominator, if_neg]
    decide
  rw [hreflection]
  exact Phasor.div_one hm

theorem transmission_neutral {m γ : Phasor Float32} (hm : m.IsFinite) (hγ : γ.IsFinite)
    (enhanced : Bool) : (transmission m γ Terms.neutral enhanced).SameValue m := by
  have hfactor : (1 : Phasor Float32) - 0 * γ = 1 := Phasor.one_sub (Phasor.zero_mul hγ)
  have hplain : ((m - 0) * 1).SameValue m := by
    rw [Phasor.sub_zero]
    exact Phasor.mul_one hm
  cases enhanced with
  | false => exact hplain
  | true =>
    change ((m - 0) * 1 * ((1 : Phasor Float32) - 0 * γ)).SameValue m
    rw [hfactor]
    exact (Phasor.mul_one (hplain.isFinite hm)).trans hplain

end Correction

/-! ## Interpolation -/

theorem Terms.neutral_onLine {k : Float32} (hk : k.isFinite) :
    (Terms.neutral : Terms Float32).onLine .neutral k = .neutral := by
  have hzero : (0 : Phasor Float32) + ((0 : Phasor Float32) - 0).scale k = 0 := by
    rw [Phasor.sub_zero]
    exact congrArg₂ Phasor.mk (SinglePrecision.zero_add (isZero_zero_mul hk))
      (SinglePrecision.zero_add (isZero_zero_mul hk))
  have hone : (1 : Phasor Float32) + ((1 : Phasor Float32) - 1).scale k = 1 :=
    congrArg₂ Phasor.mk (SinglePrecision.one_add (isZero_zero_mul hk))
      (SinglePrecision.zero_add (isZero_zero_mul hk))
  apply Slots.ext_get
  intro s
  cases s
  · exact hzero
  · exact hzero
  · exact hone
  · exact hone
  · exact hzero

theorem Lookup.coefficient_finite (offset width : UInt32) (shift : BandShift) :
    (Lookup.coefficient offset width shift : Float32).isFinite := by
  have hk : ∀ k : Float32, k = (if width = 0 then 0
      else Scalar.ofNat offset.toNat / Scalar.ofNat width.toNat) →
      k.isFinite ∧ (k + 1).isFinite ∧ (k - 1).isFinite := by
    rintro k rfl
    split
    · decide
    · rename_i hwidth
      have hpos : 0 < width.toNat := Nat.pos_of_ne_zero fun hz => hwidth (UInt32.toNat_inj.mp hz)
      exact quotient_steps_finite offset.toNat_lt hpos width.toNat_lt
  obtain ⟨hkeep, hup, hdown⟩ := hk _ rfl
  cases shift with
  | none => exact hkeep
  | down => exact hup
  | up => exact hdown

end NetworkAnalyzer
