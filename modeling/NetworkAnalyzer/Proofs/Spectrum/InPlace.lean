import NetworkAnalyzer.Spectrum.Fourier

/-!
# The transform in place is the transform by halving

`halved` is the transform as a recursion: the transforms of the even and of the odd samples,
joined. It says nothing about the order of the samples in memory. `Holds` relates the two: a
stretch of a vector that contains the values of a function.

The loops are taken from the inside. A butterfly writes two samples, `join` writes one block,
`level` writes every block once. Before level `l`, block `b` holds the transform by halving of
the samples `s * 2 ^ (k - l) + reversed (k - l) b`: the bits above the level count within the
block, and the remaining ones, reversed, are its number. At the start every block is a single sample
and its number is the whole index, reversed; at the end there is one block, of all samples in order.

The permutation before it swaps each sample with its mirror image, once for every pair, while the
loop passes both indices. `SwappedBelow` says which pairs were swapped by then.

Nothing is assumed of the arithmetic, and the roots are any table. So this holds of the transform
in single precision, with all its rounding, and of the exact one.

* `foldl_invariant`: a loop ends with what each step moves on by one.
* `reversed_reversed`: reversing bits twice is no change.
* `swapAll_get`: swapping over an involution takes every sample from its image.
* `level_blocks`: what one level makes of its blocks.
* `transform_eq`: the transform in place is the transform by halving, in every arithmetic.
-/

namespace NetworkAnalyzer.Fourier

/-! ## Loops -/

/-- A loop ends with what each step moves on by one. -/
theorem foldl_invariant {β : Type} (P : Nat → β → Prop) : ∀ {n : Nat} {step : β → Fin n → β}
    {x : β}, P 0 x → (∀ (i : Fin n) y, P i y → P (i + 1) (step y i)) → P n (Fin.foldl n step x)
  | 0, step, x, hstart, _ => by rw [Fin.foldl_zero]; exact hstart
  | n + 1, step, x, hstart, hstep => by
    rw [Fin.foldl_succ_last]
    exact hstep (Fin.last n) _ (foldl_invariant P hstart fun i y => hstep i.castSucc y)

/-! ## Bit reversal -/

theorem reversed_succ (k i : Nat) :
    reversed (k + 1) i = i % 2 * samples k + reversed k (i / 2) := rfl

theorem reversed_even (k b : Nat) : reversed (k + 1) (2 * b) = reversed k b := by
  rw [reversed_succ, Nat.mul_mod_right, Nat.mul_div_cancel_left b Nat.two_pos, Nat.zero_mul,
    Nat.zero_add]

theorem reversed_odd (k b : Nat) : reversed (k + 1) (2 * b + 1) = samples k + reversed k b := by
  have hmod : (2 * b + 1) % 2 = 1 := by omega
  have hdiv : (2 * b + 1) / 2 = b := by omega
  rw [reversed_succ, hmod, hdiv, Nat.one_mul]

theorem reversed_top {a : Nat} (ha : a < 2) : ∀ {k i : Nat}, i < samples k →
    reversed (k + 1) (a * samples k + i) = 2 * reversed k i + a
  | 0, i, hi => by
    obtain rfl : i = 0 := Nat.lt_one_iff.mp hi
    simp only [reversed, samples]
    omega
  | k + 1, i, hi => by
    have hdouble : a * samples (k + 1) = 2 * (a * samples k) := by
      rw [samples_succ, Nat.mul_left_comm]
    have hmod : (a * samples (k + 1) + i) % 2 = i % 2 := by omega
    have hdiv : (a * samples (k + 1) + i) / 2 = a * samples k + i / 2 := by omega
    have ih := reversed_top ha (k := k) (i := i / 2) (by rw [samples_succ] at hi; omega)
    rw [reversed_succ, hmod, hdiv, ih, reversed_succ k i, samples_succ, Nat.mul_left_comm]
    omega

theorem reversed_reversed : ∀ {k i : Nat}, i < samples k → reversed k (reversed k i) = i
  | 0, i, hi => (Nat.lt_one_iff.mp hi).symm
  | k + 1, i, hi => by
    have ih := reversed_reversed (k := k) (i := i / 2) (by rw [samples_succ] at hi; omega)
    rw [reversed_succ k i, reversed_top (Nat.mod_lt i Nat.two_pos) (reversed_lt k (i / 2)), ih]
    omega

example : (List.range 8).map (reversed 3) = [0, 4, 2, 6, 1, 5, 3, 7] := by decide

theorem mirror_mirror (k : Nat) (i : Fin (samples k)) : mirror k (mirror k i) = i :=
  Fin.ext (reversed_reversed i.isLt)

/-! ## Swapping -/

section Swapping

variable {β : Type} {n : Nat} {image : Fin n → Fin n} {x y : Vector β n} {i : Fin n}

theorem swap_get (x : Vector β n) (i j p : Fin n) : (x.swap i j i.isLt j.isLt).get p =
    if p = i then x.get j else if p = j then x.get i else x.get p := by
  simp only [Fin.ext_iff]
  exact Vector.getElem_swap ..

/-- `y` is `x` with the pairs swapped of which an index is below `m`. -/
def SwappedBelow (image : Fin n → Fin n) (x : Vector β n) (m : Nat) (y : Vector β n) : Prop :=
  ∀ p, y.get p = if p.val < m ∨ (image p).val < m then x.get (image p) else x.get p

/-- Where neither index of the pair is `i`, or the other one is below it, passing `i` changes
nothing. -/
theorem SwappedBelow.same (h : SwappedBelow image x i y) {q : Fin n} (hq : q = i → image q < i)
    (hq' : image q = i → q < i) : y.get q =
      if q.val < i + 1 ∨ (image q).val < i + 1 then x.get (image q) else x.get q := by
  rw [h q]
  congr 1
  simp only [Fin.ext_iff, Fin.lt_def, eq_iff_iff] at hq hq' ⊢
  omega

theorem SwappedBelow.swap (himage : ∀ i, image (image i) = i) (h : SwappedBelow image x i y)
    (hlow : i < image i) :
    SwappedBelow image x (i + 1) (y.swap i (image i) i.isLt (image i).isLt) := by
  have hfresh : ¬(i.val < i.val ∨ (image i).val < i.val) := by omega
  intro q
  rw [swap_get]
  split
  · rename_i hqi
    rw [h, himage, if_neg (mt Or.symm hfresh), hqi, if_pos (Or.inl (Nat.lt_succ_self _))]
  · rename_i hqi
    split
    · rename_i hqj
      rw [h, if_neg hfresh, hqj, himage, if_pos (Or.inr (Nat.lt_succ_self _))]
    · rename_i hqj
      exact h.same (fun e => absurd e hqi) fun e => absurd (by rw [← e, himage]) hqj

theorem SwappedBelow.keep (himage : ∀ i, image (image i) = i) (h : SwappedBelow image x i y)
    (hhigh : ¬i < image i) : SwappedBelow image x (i + 1) y := by
  have hle : image i ≤ i := Fin.not_lt.mp hhigh
  intro q
  by_cases hfixed : image q = q
  · rw [h, hfixed, ite_self, ite_self]
  · refine h.same (fun e => ?_) fun e => ?_
    · rw [e] at hfixed ⊢
      exact Nat.lt_of_le_of_ne hle (Fin.val_ne_of_ne hfixed)
    · rw [← e, himage] at hle
      rw [← e]
      exact Nat.lt_of_le_of_ne hle (Fin.val_ne_of_ne (Ne.symm hfixed))

/-- Swapping every index with its image under an involution takes each sample from its image. -/
theorem swapAll_get (himage : ∀ i, image (image i) = i) (x : Vector β n) (p : Fin n) :
    (swapAll image x).get p = x.get (image p) := by
  have hall : SwappedBelow image x n (swapAll image x) := by
    refine foldl_invariant (SwappedBelow image x) (fun p => by simp) fun i y h => ?_
    split
    · rename_i hlow
      exact h.swap himage hlow
    · rename_i hhigh
      exact h.keep himage hhigh
  exact (hall p).trans (if_pos (Or.inl p.isLt))

end Swapping

/-! ## Blocks -/

variable {α : Type} [Scalar α]

/-- The `count` samples from `start` on are the first values of `f`. -/
def Holds {n : Nat} (x : Vector (Phasor α) n) (start count : Nat) (f : Nat → Phasor α) : Prop :=
  ∀ s < count, x[start + s]? = some (f s)

/-- Sums, and behind them differences, of `e` and the turned `o`. -/
def joined (half : Nat) (w e o : Nat → Phasor α) (s : Nat) : Phasor α :=
  if s < half then e s + o s * w s else e (s - half) - o (s - half) * w (s - half)

theorem joined_low {half s : Nat} (hs : s < half) (w e o : Nat → Phasor α) :
    joined half w e o s = e s + o s * w s := if_pos hs

theorem joined_high (half s : Nat) (w e o : Nat → Phasor α) :
    joined half w e o (s + half) = e s - o s * w s := by
  unfold joined
  rw [if_neg (Nat.not_lt.mpr (Nat.le_add_left half s)), Nat.add_sub_cancel]

/-- The transform of the first `2 ^ l` values of `f`: those of the even and of the odd ones,
joined. -/
def halved (roots : Roots α) (d : Direction) : Nat → (Nat → Phasor α) → Nat → Phasor α
  | 0, f => f
  | l + 1, f => joined (samples l) (twiddle roots d (samples (l + 1)))
      (halved roots d l fun s => f (2 * s)) (halved roots d l fun s => f (2 * s + 1))

theorem getElem?_butterfly {n i half : Nat} {w e o : Phasor α} {x : Vector (Phasor α) n}
    (inRange : i + half < n) (hpos : 0 < half) (he : x[i]? = some e) (ho : x[i + half]? = some o)
    (q : Nat) : (butterfly w i half x inRange)[q]? =
      if q = i then some (e + o * w) else if q = i + half then some (e - o * w) else x[q]? := by
  obtain ⟨hi, hxi⟩ := Vector.getElem?_eq_some_iff.mp he
  obtain ⟨_, hxo⟩ := Vector.getElem?_eq_some_iff.mp ho
  unfold butterfly
  simp only [Vector.getElem?_set, Vector.getElem_set, hxi, hxo]
  by_cases hq : i = q
  · subst hq
    simp [Nat.ne_of_gt hpos]
  · by_cases hq' : i + half = q
    · subst hq'
      simp [Nat.ne_of_gt hpos]
    · simp [hq, hq', Ne.symm hq, Ne.symm hq']

theorem getElem?_join {n start half : Nat} {w e o : Nat → Phasor α} {x : Vector (Phasor α) n}
    (inRange : start + 2 * half ≤ n) (he : Holds x start half e)
    (ho : Holds x (start + half) half o) (q : Nat) : (join w start half x inRange)[q]? =
      if start ≤ q ∧ q < start + 2 * half then some (joined half w e o (q - start)) else x[q]? := by
  have hall : ∀ q, (join w start half x inRange)[q]? =
      if (start ≤ q ∧ q < start + half) ∨ (start + half ≤ q ∧ q < start + half + half) then
        some (joined half w e o (q - start)) else x[q]? := by
    refine foldl_invariant (fun m (y : Vector (Phasor α) n) => ∀ q, y[q]? =
      if (start ≤ q ∧ q < start + m) ∨ (start + half ≤ q ∧ q < start + half + m) then
        some (joined half w e o (q - start)) else x[q]?) (fun q => by rw [if_neg (by omega)]) ?_
    intro j y hy q
    have hj := j.isLt
    have hej : y[start + j.val]? = some (e j) := by
      rw [hy, if_neg (by omega)]
      exact he j hj
    have hoj : y[start + j.val + half]? = some (o j) := by
      rw [hy, if_neg (by omega), Nat.add_right_comm]
      exact ho j hj
    rw [getElem?_butterfly (by omega) (by omega) hej hoj, hy q]
    split
    · rename_i hsum
      rw [if_pos (by omega), hsum, Nat.add_sub_cancel_left, joined_low hj]
    · split
      · rename_i hdifference
        rw [if_pos (by omega), hdifference, Nat.add_assoc, Nat.add_sub_cancel_left, joined_high]
      · congr 1
        simp only [eq_iff_iff]
        omega
  refine (hall q).trans ?_
  congr 1
  simp only [eq_iff_iff]
  omega

/-- The first `count` blocks of `size` samples each are those of `f`. -/
def Blocks {n : Nat} (x : Vector (Phasor α) n) (count size : Nat) (f : Nat → Nat → Phasor α) :
    Prop := ∀ b < count, Holds x (b * size) size (f b)

theorem joins_blocks {n count half : Nat} {w : Nat → Phasor α} {f : Nat → Nat → Phasor α}
    {x : Vector (Phasor α) n} (inRange : ∀ c : Fin count, c.val * (2 * half) + 2 * half ≤ n)
    (hx : Blocks x (2 * count) half f) :
    Blocks (Fin.foldl count (fun x c => join w (c.val * (2 * half)) half x (inRange c)) x) count
      (2 * half) fun b => joined half w (f (2 * b)) (f (2 * b + 1)) := by
  -- The blocks behind the pairs that were reached are as they were.
  refine (foldl_invariant (fun c (y : Vector (Phasor α) n) =>
    Blocks y c (2 * half) (fun b => joined half w (f (2 * b)) (f (2 * b + 1))) ∧
      ∀ q, c * (2 * half) ≤ q → y[q]? = x[q]?)
    ⟨fun b hb => absurd hb (Nat.not_lt_zero b), fun q _ => rfl⟩ ?_).1
  rintro c y ⟨hjoined, hrest⟩
  have hstart : c.val * (2 * half) = 2 * c.val * half := by
    rw [Nat.mul_left_comm, Nat.mul_assoc]
  have hnext : 2 * c.val * half + half = (2 * c.val + 1) * half := (Nat.succ_mul _ _).symm
  have heven : Holds y (c.val * (2 * half)) half (f (2 * c)) := fun s hs => by
    rw [hrest _ (Nat.le_add_right _ s), hstart]
    exact hx (2 * c) (by omega) s hs
  have hodd : Holds y (c.val * (2 * half) + half) half (f (2 * c + 1)) := fun s hs => by
    rw [hrest _ (by omega), hstart, hnext]
    exact hx (2 * c + 1) (by omega) s hs
  have hget := getElem?_join (w := w) (inRange c) heven hodd
  have hsucc : (c.val + 1) * (2 * half) = c.val * (2 * half) + 2 * half := Nat.succ_mul _ _
  refine ⟨fun b hb s hs => ?_, fun q hq => ?_⟩
  · rw [hget]
    rcases Nat.lt_succ_iff_lt_or_eq.mp hb with hlt | rfl
    · have hle : b * (2 * half) + 2 * half ≤ c.val * (2 * half) := by
        rw [← Nat.succ_mul]
        exact Nat.mul_le_mul_right _ hlt
      rw [if_neg (by omega)]
      exact hjoined b hlt s hs
    · rw [if_pos (by omega), Nat.add_sub_cancel_left]
  · rw [hget, if_neg (by omega)]
    exact hrest q (by omega)

/-- What one level makes of its blocks. -/
theorem level_blocks (roots : Roots α) (d : Direction) {k : Nat} (l : Fin k)
    {x : Vector (Phasor α) (samples k)} {f : Nat → Nat → Phasor α}
    (hx : Blocks x (samples (k - l)) (samples l) f) :
    Blocks (level roots d l x) (samples (k - 1 - l)) (samples (l + 1)) fun b =>
      joined (samples l) (twiddle roots d (samples (l + 1))) (f (2 * b)) (f (2 * b + 1)) := by
  have hpairs : samples (k - l) = 2 * samples (k - 1 - l) := by
    rw [← samples_succ]
    congr 1
    omega
  exact joins_blocks _ (hpairs ▸ hx)

theorem index_even (m s b : Nat) :
    s * samples (m + 1) + reversed (m + 1) (2 * b) = 2 * s * samples m + reversed m b := by
  rw [reversed_even, samples_succ, Nat.mul_left_comm, Nat.mul_assoc]

theorem index_odd (m s b : Nat) : s * samples (m + 1) + reversed (m + 1) (2 * b + 1) =
    (2 * s + 1) * samples m + reversed m b := by
  rw [reversed_odd, samples_succ, Nat.succ_mul (2 * s), Nat.mul_left_comm, Nat.mul_assoc,
    Nat.add_assoc]

/-- The transform in place is the transform by halving. -/
theorem transform_eq (roots : Roots α) (d : Direction) {k : Nat}
    {x : Vector (Phasor α) (samples k)} {f : Nat → Phasor α} (hx : Holds x 0 (samples k) f) :
    Holds (transform roots d k x) 0 (samples k) (halved roots d k f) := by
  have hall : Blocks (transform roots d k x) (samples (k - k)) (samples k)
      fun b => halved roots d k fun s => f (s * samples (k - k) + reversed (k - k) b) := by
    refine foldl_invariant (fun l (y : Vector (Phasor α) (samples k)) =>
      Blocks y (samples (k - l)) (samples l) fun b =>
        halved roots d l fun s => f (s * samples (k - l) + reversed (k - l) b)) ?_ ?_
    · intro b hb s hs
      obtain rfl : s = 0 := Nat.lt_one_iff.mp hs
      have hswapped := swapAll_get (mirror_mirror k) x ⟨b, hb⟩
      have himage := hx (reversed k b) (reversed_lt k b)
      rw [Nat.zero_add, Vector.getElem?_eq_getElem (reversed_lt k b)] at himage
      simp only [samples, halved, Nat.mul_one, Nat.add_zero, Nat.zero_mul, Nat.zero_add,
        Nat.sub_zero, ← himage]
      rw [Vector.getElem?_eq_getElem hb]
      exact congrArg some hswapped
    · intro l y hy
      have hlevel := level_blocks roots d l hy
      have hbits : k - l.val = k - 1 - l.val + 1 := by omega
      have hbits' : k - (l.val + 1) = k - 1 - l.val := by omega
      simp only [hbits, index_even, index_odd] at hlevel
      rw [hbits']
      exact hlevel
  have hwhole := hall 0 (by rw [Nat.sub_self]; exact Nat.one_pos)
  simp only [Nat.sub_self, samples, Nat.mul_one, reversed, Nat.add_zero, Nat.zero_mul] at hwhole
  exact hwhole

end NetworkAnalyzer.Fourier
