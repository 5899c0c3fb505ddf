import NetworkAnalyzer.Proofs.Spectrum.Windows
import NetworkAnalyzer.Proofs.Spectrum.Reuse

/-!
# Divisions of the bandpass response

A checked number has a value only if no division by zero was made on the way to it. Every operation
on it needs the values of its operands, so a division by zero anywhere leaves the result undefined.

The transform is written for every kind of scalar, so it can be run on checked numbers as it is.
`halved` and the windowed trace take values to values because each of their steps does; the only
divisors are the squared length of a window and the normalization. The length is one less than the
number of samples, and a window of fewer than two samples is one without a division. The
normalization is positive as soon as there is a point.

* `value_div`, `div_zero`: the two cases of a division.
* `halved_checked`: the transform by halving, level by level.
* `window_checked`, `weightSum_checked`, `scale_checked`: the window and what it is normalized by.
* `get_invert`: the inverse transform of a buffer is the one by halving.
* `bandpass_checked`: on checked numbers the bandpass response has a value everywhere, the exact
  one.
-/

namespace NetworkAnalyzer

open NetworkAnalyzer.Fourier Parameters

/-- A number, unless a division by zero came before it. -/
inductive Checked (K : Type) where
  | value (x : K)
  | undefined

namespace Checked

variable {K : Type} [Field K] [LinearOrder K]

def both (f : K → K → Checked K) : Checked K → Checked K → Checked K
  | value x, value y => f x y
  | _, _ => undefined

/-- Whether both numbers have a value and the first is not the larger one. -/
def isLE : Checked K → Checked K → Bool
  | value x, value y => decide (x ≤ y)
  | _, _ => false

instance : Scalar (Checked K) where
  zero := value 0
  one := value 1
  add := both fun x y => value (x + y)
  sub := both fun x y => value (x - y)
  mul := both fun x y => value (x * y)
  div := both fun x y => if y = 0 then undefined else value (x / y)
  neg
    | value x => value (-x)
    | undefined => undefined
  le x y := x.isLE y
  ofNat n := value (Scalar.ofNat n)
  ofDecimal m e := value (Scalar.ofDecimal m e)
  decLE x y := inferInstanceAs (Decidable (x.isLE y = true))

theorem value_div (x : K) {y : K} (hy : y ≠ 0) : value x / value y = value (x / y) := if_neg hy

theorem div_zero (x : K) : value x / value 0 = undefined := if_pos rfl

end Checked

variable {K : Type} [Field K] [LinearOrder K]

/-! ## Phasors -/

namespace Phasor

def checked (z : Phasor K) : Phasor (Checked K) := ⟨.value z.re, .value z.im⟩

@[simp] theorem checked_add (z w : Phasor K) : (z + w).checked = z.checked + w.checked := rfl
@[simp] theorem checked_sub (z w : Phasor K) : (z - w).checked = z.checked - w.checked := rfl
@[simp] theorem checked_mul (z w : Phasor K) : (z * w).checked = z.checked * w.checked := rfl

end Phasor

def Roots.checked (roots : Roots K) : Roots (Checked K) := fun j => (roots j).checked

namespace Fourier

theorem twiddle_checked (roots : Roots K) (d : Direction) (n j : Nat) :
    twiddle roots.checked d n j = (twiddle roots d n j).checked := by
  cases d <;> rfl

theorem joined_checked (half : Nat) {w : Nat → Phasor K} {w' : Nat → Phasor (Checked K)}
    (hw : ∀ j, w' j = (w j).checked) {e o : Nat → Phasor K} {e' o' : Nat → Phasor (Checked K)}
    (he : ∀ j, e' j = (e j).checked) (ho : ∀ j, o' j = (o j).checked) (i : Nat) :
    joined half w' e' o' i = (joined half w e o i).checked := by
  unfold joined
  split <;> simp [hw, he, ho]

theorem halved_checked (roots : Roots K) (d : Direction) (l : Nat) {f : Nat → Phasor K}
    {f' : Nat → Phasor (Checked K)} (hf : ∀ i, f' i = (f i).checked) (i : Nat) :
    halved roots.checked d l f' i = (halved roots d l f i).checked := by
  induction l generalizing f f' i with
  | zero => exact hf i
  | succ l ih =>
    exact joined_checked _ (twiddle_checked roots d _) (ih fun i => hf _) (ih fun i => hf _) i

end Fourier

/-! ## Windows -/

namespace Kaiser

open Checked

theorem series_checked (z : K) : ∀ (cs : List K) (power sum : K),
    series (value z) (cs.map value) (value power) (value sum) = value (series z cs power sum)
  | [], _, _ => rfl
  | c :: cs, power, sum => series_checked z cs (power * z) (sum + power * z * c)

theorem besselI0_checked (z : K) : besselI0 (value z) = value (besselI0 z) :=
  series_checked z coefficients z (1 + z)

variable [IsStrictOrderedRing K]

/-- A window divides by the square of its length, which is one less than its number of samples. -/
theorem window_checked (k n : UInt32) (β : UInt16) :
    window k n β = value (window k n β : K) := by
  unfold window
  split
  · rfl
  · rename_i hwindow
    have hlong : 2 ≤ n.toNat := by
      simp only [Bool.or_eq_true, decide_eq_true_eq, not_or] at hwindow
      exact UInt32.le_iff_toNat_le.mp (UInt32.not_lt.mp hwindow.2)
    have hlast : ((n - 1).toNat : K) ≠ 0 := by
      rw [toNat_last (by omega), Nat.cast_ne_zero]
      omega
    rw [← besselI0_checked]
    exact congrArg besselI0 (value_div _ (mul_ne_zero hlast hlast))

end Kaiser

namespace ResponseSetup

open Checked

variable [IsStrictOrderedRing K] (s : ResponseSetup)

theorem weight_checked (k : Nat) : s.weight k = value (s.weight k : K) := Kaiser.window_checked _ _ _

theorem weightSum_checked : s.weightSum = value (s.weightSum : K) := by
  unfold weightSum
  generalize s.points = n
  induction n with
  | zero => rfl
  | succ n ih =>
    simp only [List.range_succ, List.foldl_append, List.foldl_cons, List.foldl_nil]
    rw [ih, weight_checked]
    rfl

theorem scale_checked (hs : s.kind = .bandpass) (h : 0 < s.points) :
    s.scale = value (s.scale : K) := by
  have hnorm : s.norm = value (s.norm : K) := by
    unfold norm
    rw [hs]
    exact s.weightSum_checked
  unfold scale
  rw [hnorm]
  exact value_div 1 (s.norm_pos h).ne'

theorem windowed_checked {N : Nat} (scale : K) (data : Vector (Phasor K) N) (k : Nat) :
    s.windowed (value scale) (data.map Phasor.checked) k = (s.windowed scale data k).checked := by
  unfold windowed
  split
  · rw [Vector.getElem_map, weight_checked]
    rfl
  · rfl

end ResponseSetup

/-! ## The response -/

/-- The inverse transform of a buffer is the one by halving. -/
theorem get_invert {α : Type} [Scalar α] {x : TransformBuffer α} {f : Nat → Phasor α}
    (hx : ∀ k : Fin transformLength, x.get k = f k) (roots : Roots α) (i : Fin transformLength) :
    (TransformBuffer.invert roots x).get i = halved roots .inverse 9 f i := by
  have hholds : Holds x 0 (samples 9) f := fun k (hk : k < transformLength) => by
    rw [Nat.zero_add, Vector.getElem?_eq_getElem hk]
    exact congrArg some (hx ⟨k, hk⟩)
  have hi : i.val < samples 9 := i.isLt
  have hbin := transform_eq roots .inverse hholds i hi
  rw [Nat.zero_add, Vector.getElem?_eq_getElem hi] at hbin
  exact Option.some.inj hbin

namespace TimeDomain

variable [IsStrictOrderedRing K] {t : TimeDomain K} {t' : TimeDomain (Checked K)} {roots : Roots K}
  {N : Nat}

/-- No entry of a bandpass response divides by zero: on checked numbers, each has the exact value. -/
theorem bandpass_checked (ht : t.Used roots) (ht' : t'.Used roots.checked)
    (data : Vector (Phasor K) N) {points : Nat} {window : WindowShape}
    (hpos : 0 < (ResponseSetup.ofTrace .bandpass window points N).points) :
    (t'.transform roots.checked (data.map Phasor.checked) points .bandpass window).2 =
      (t.transform roots data points .bandpass window).2.map Phasor.checked := by
  refine Vector.ext fun i hi => ?_
  rw [Vector.getElem_map]
  rcases Nat.lt_or_ge i transformLength with hin | hbehind
  · have hentry := get_transform ht data rfl hpos ⟨i, hi⟩ hin
    refine (get_transform ht' _ rfl hpos ⟨i, hi⟩ hin).trans ?_
    refine Eq.trans ?_ (congrArg Phasor.checked hentry).symm
    dsimp only
    rw [ResponseSetup.scale_checked _ rfl hpos, ResponseSetup.response_bandpass _ _ rfl,
      ResponseSetup.response_bandpass _ _ rfl, get_invert (ResponseSetup.get_spectrum _ _ _),
      get_invert (ResponseSetup.get_spectrum _ _ _)]
    exact halved_checked roots .inverse 9 (ResponseSetup.windowed_checked _ _ data) i
  · have hentry := get_transform_behind ht data rfl hpos ⟨i, hi⟩ hbehind
    refine (get_transform_behind ht' _ rfl hpos ⟨i, hi⟩ hbehind).trans ?_
    refine Eq.trans ?_ (congrArg Phasor.checked hentry).symm
    exact Vector.getElem_map _ hi

end TimeDomain

end NetworkAnalyzer
