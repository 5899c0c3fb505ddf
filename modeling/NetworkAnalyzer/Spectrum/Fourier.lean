import NetworkAnalyzer.Fault
import NetworkAnalyzer.Parameters
import NetworkAnalyzer.Phasor

/-!
# Fourier transform

The transform of `2 ^ k` samples in place, decimated in time. The samples are first permuted by
reversing the bits of their indices. Level `l` then joins neighbouring blocks of `2 ^ l` samples to
blocks of twice the size, with one butterfly per pair of outputs. Neither direction normalizes, so
forward and back multiplies by the length.

The roots of unity are a parameter, and all levels read the same table with their own stride.
`Roots` gives `exp (2πi·j/512)` for the first half turn; `Roots.rounded` is the table in single
precision, computed in double precision and rounded once.

The loops run over the places of one vector: `swapAll` over the pairs of mirror images, `level` over
the blocks of a level, `join` over the butterflies of a block. A place that a loop reaches is inside
the vector by construction, so there are no faults but the one of a length that is no power of two
or exceeds 512 (`run`).
-/

namespace NetworkAnalyzer

open Parameters

/-- Sign of the exponent. -/
inductive Direction where
  | forward
  | inverse
  deriving DecidableEq, Repr

/-- `exp (2πi·j / 512)` for `j` below 256. -/
abbrev Roots (α : Type) := Nat → Phasor α

namespace Fourier

variable {α : Type} [Scalar α]

/-- The root that turns output `j` of a transform of length `n`. -/
def twiddle (roots : Roots α) (d : Direction) (n j : Nat) : Phasor α :=
  let w := roots (j * (transformLength / n))
  match d with
  | .forward => w.conj
  | .inverse => w

/-- The length of a transform with `k` stages. -/
def samples : Nat → Nat
  | 0 => 1
  | k + 1 => 2 * samples k

theorem samples_succ (k : Nat) : samples (k + 1) = 2 * samples k := rfl

theorem samples_add (k : Nat) : ∀ l, samples (k + l) = samples k * samples l
  | 0 => (Nat.mul_one _).symm
  | l + 1 => by
    rw [← Nat.add_assoc, samples_succ, samples_succ, samples_add k l, Nat.mul_left_comm]

/-! ## Bit reversal -/

/-- The lowest `k` bits of `i` in reverse order. -/
def reversed : Nat → Nat → Nat
  | 0, _ => 0
  | k + 1, i => i % 2 * samples k + reversed k (i / 2)

theorem reversed_lt : ∀ (k i : Nat), reversed k i < samples k
  | 0, _ => Nat.one_pos
  | k + 1, i => by
    have ih := reversed_lt k (i / 2)
    have hbit : i % 2 * samples k ≤ 1 * samples k := Nat.mul_le_mul_right _ (by omega)
    unfold reversed
    rw [samples_succ]
    omega

def mirror (k : Nat) (i : Fin (samples k)) : Fin (samples k) := ⟨reversed k i, reversed_lt k i⟩

/-- Each sample swapped with its mirror image; a pair is swapped when its lower index comes up. -/
def swapAll {β : Type} {n : Nat} (image : Fin n → Fin n) (x : Vector β n) : Vector β n :=
  Fin.foldl n (fun x i => if i < image i then x.swap i (image i) i.isLt (image i).isLt else x) x

/-! ## Butterflies -/

/-- The sum and the difference of sample `i` and the turned sample `i + half`, in their place. -/
def butterfly {n : Nat} (w : Phasor α) (i half : Nat) (x : Vector (Phasor α) n)
    (inRange : i + half < n) : Vector (Phasor α) n :=
  let t := x[i + half] * w
  let x := x.set (i + half) (x[i] - t)
  x.set i (x[i] + t)

/-- The blocks of `half` samples at `start` and behind it, joined. -/
def join {n : Nat} (w : Nat → Phasor α) (start half : Nat) (x : Vector (Phasor α) n)
    (inRange : start + 2 * half ≤ n) : Vector (Phasor α) n :=
  Fin.foldl half (fun x j => butterfly (w j) (start + j) half x (by omega)) x

/-- A pair of blocks of level `l` ends within the samples. -/
theorem pair_inRange {k l b : Nat} (hl : l < k) (hb : b < samples (k - 1 - l)) :
    b * samples (l + 1) + samples (l + 1) ≤ samples k := by
  have hpairs : samples (k - 1 - l) * samples (l + 1) = samples k := by
    rw [← samples_add]
    congr 1
    omega
  rw [← Nat.succ_mul, ← hpairs]
  exact Nat.mul_le_mul_right _ hb

/-- All blocks of `2 ^ l` samples, joined in pairs. -/
def level (roots : Roots α) (d : Direction) {k : Nat} (l : Fin k)
    (x : Vector (Phasor α) (samples k)) : Vector (Phasor α) (samples k) :=
  Fin.foldl (samples (k - 1 - l)) (fun x b =>
    join (twiddle roots d (samples (l + 1))) (b * samples (l + 1)) (samples l) x
      (pair_inRange l.isLt b.isLt)) x

/-- The in-place transform: the entries are put in mirrored order once, then the stages run over
them. -/
def transform (roots : Roots α) (d : Direction) (k : Nat) (x : Vector (Phasor α) (samples k)) :
    Vector (Phasor α) (samples k) :=
  Fin.foldl k (fun x l => level roots d l x) (swapAll (mirror k) x)

/-- The transform of any admissible number of samples: a power of two up to 512. -/
def run (roots : Roots α) (d : Direction) (x : Array (Phasor α)) :
    Except Fault (Array (Phasor α)) :=
  let k := x.size.log2
  if h : x.size = samples k ∧ x.size ≤ transformLength then
    .ok (transform roots d k ⟨x, h.1⟩).toArray
  else .error .transformLength

end Fourier

/-! ## Single precision roots -/

/-- The angle of root `j` in double precision. -/
def Roots.angle (j : Nat) : Float := (2.0 * 3.141592653589793) * j.toFloat / 512.0

/-- The roots of the first half turn, rounded to single precision. -/
def Roots.table : Array (Phasor Float32) :=
  Array.ofFn fun (j : Fin 256) =>
    ⟨(Roots.angle j).cos.toFloat32, (Roots.angle j).sin.toFloat32⟩

/-- The roots of unity as stored, rounded to single precision. -/
def Roots.rounded : Roots Float32 := fun j => Roots.table.getD j 0

end NetworkAnalyzer
