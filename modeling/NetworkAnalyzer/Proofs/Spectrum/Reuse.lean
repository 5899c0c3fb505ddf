import NetworkAnalyzer.Proofs.Spectrum.Filling
import NetworkAnalyzer.Trace.Processing

/-!
# Transforms without a past

A time domain serves trace after trace, and both channels. It remembers a normalization and keeps
its buffer, and neither shows in a later response: the remembered factor is that of the remembered
setup (`Normalized`), and a buffer is filled before it is read (`fill_eq`).

`Used` are the time domains that any transforms lead to, of any traces in any order. A response is
compared with the one of a fresh time domain, in the arithmetic and with the roots at hand; nothing
needs to be exact, since both run through the same operations.

Channels are processed one after the other through one time domain. So each is processed as if it
were the first (`foldl_applyTrace`). A channel that is not measured is left out and keeps its
values.

* `Used.normalized`: what is remembered as the normalization of a setup is its normalization.
* `transform_of_used`: after any transforms, the response is the one of a buffer of its own.
* `get_transform`, `get_transform_behind`: the entries of a transformed trace.
* `applyTrace_behind`: in the frequency domain only the points are smoothed.
* `Processing.apply_independent`: processing treats every channel as if it were the first.
-/

namespace NetworkAnalyzer

open Parameters

theorem ResponseSetup.ofTrace_fields {kind : ResponseKind} {window : WindowShape}
    {points length : Nat} {s : ResponseSetup} (hs : ofTrace kind window points length = s) :
    s.kind = kind ∧ s.points = min points (min length transformLength) := by
  rw [← hs]
  exact ⟨rfl, rfl⟩

namespace TimeDomain

variable {α : Type} [Scalar α] {roots : Roots α} {t : TimeDomain α} {N : Nat}

/-- A time domain after any number of transforms, of any traces. -/
inductive Used (roots : Roots α) : TimeDomain α → Prop
  | fresh : Used roots {}
  | again {t : TimeDomain α} (ht : Used roots t) {N : Nat} (data : Vector (Phasor α) N)
      (points : Nat) (kind : ResponseKind) (window : WindowShape) :
      Used roots (t.transform roots data points kind window).1

/-- What is remembered as the normalization of a setup is its normalization. -/
def Normalized (t : TimeDomain α) : Prop := ∀ s, t.cached = some s → t.scale = s.scale

theorem Normalized.normalize (ht : t.Normalized) (s : ResponseSetup) :
    (t.normalize s).1.Normalized ∧ (t.normalize s).2 = s.scale := by
  unfold TimeDomain.normalize
  split
  · rename_i hcached
    exact ⟨ht, ht s hcached⟩
  · refine ⟨fun s' hs' => ?_, rfl⟩
    rw [← Option.some.inj hs']

theorem Normalized.transform (ht : t.Normalized) (data : Vector (Phasor α) N) (points : Nat)
    (kind : ResponseKind) (window : WindowShape) :
    (t.transform roots data points kind window).1.Normalized := by
  unfold TimeDomain.transform
  dsimp only
  split
  · exact ht
  · exact (ht.normalize _).1

theorem Used.normalized (ht : t.Used roots) : t.Normalized := by
  induction ht with
  | fresh => exact fun s hs => absurd hs (Option.some_ne_none s).symm
  | again _ data points kind window ih => exact ih.transform data points kind window

/-- After any transforms, the entries that a transform replaces are those of the response. -/
theorem transform_of_used (ht : t.Used roots) (data : Vector (Phasor α) N) (points : Nat)
    (kind : ResponseKind) (window : WindowShape) :
    (t.transform roots data points kind window).2 =
      let s := ResponseSetup.ofTrace kind window points N
      if s.points = 0 then data
      else Vector.ofFn fun j =>
        if h : j.val < transformLength then (s.response s.scale data roots).get ⟨j, h⟩
        else data.get j := by
  unfold TimeDomain.transform
  dsimp only
  split
  · rfl
  · rw [(ht.normalized.normalize _).2, ResponseSetup.fill_eq]
    rfl

section Entries

variable (ht : t.Used roots) (data : Vector (Phasor α) N) {points : Nat} {kind : ResponseKind}
  {window : WindowShape} {s : ResponseSetup}
  (hs : ResponseSetup.ofTrace kind window points N = s) (hpos : 0 < s.points)
include ht hs hpos

theorem get_transform (i : Fin N) (hi : i.val < transformLength) :
    (t.transform roots data points kind window).2.get i =
      (s.response s.scale data roots).get ⟨i, hi⟩ := by
  rw [transform_of_used ht]
  dsimp only
  rw [hs, if_neg (Nat.ne_of_gt hpos)]
  exact (Vector.getElem_ofFn i.isLt).trans (dif_pos hi)

theorem get_transform_behind (i : Fin N) (hi : transformLength ≤ i) :
    (t.transform roots data points kind window).2.get i = data.get i := by
  rw [transform_of_used ht]
  dsimp only
  rw [hs, if_neg (Nat.ne_of_gt hpos)]
  exact (Vector.getElem_ofFn i.isLt).trans (dif_neg (Nat.not_lt.mpr hi))

end Entries

end TimeDomain

namespace Processing

variable {t t' : TimeDomain Float32} {N : Nat} (o : Processing)

theorem applyTrace_used (ht : t.Used Roots.rounded) (points : Nat)
    (v : Vector (Phasor Float32) N) : (o.applyTrace points t v).1.Used Roots.rounded := by
  unfold applyTrace
  dsimp only
  split
  · exact ht
  · exact ht.again _ _ _ _

theorem applyTrace_congr (ht : t.Used Roots.rounded) (ht' : t'.Used Roots.rounded) (points : Nat)
    (v : Vector (Phasor Float32) N) :
    (o.applyTrace points t v).2 = (o.applyTrace points t' v).2 := by
  unfold applyTrace
  dsimp only
  split
  · rfl
  · rw [TimeDomain.transform_of_used ht, TimeDomain.transform_of_used ht']

/-- In the frequency domain only the points are smoothed. -/
theorem applyTrace_behind (hd : o.domain = .frequency) {points : Nat}
    (v : Vector (Phasor Float32) N) {i : Fin N} (hi : points ≤ i) :
    (o.applyTrace points t v).2.get i = v.get i := by
  unfold applyTrace
  rw [hd]
  dsimp only
  split
  · rfl
  · unfold smoothTrace
    exact (Vector.getElem_ofFn i.isLt).trans (if_neg (Nat.not_lt.mpr hi))

/-- Channels that are processed one after the other through one time domain. -/
theorem foldl_applyTrace (points : Nat) (ht' : t'.Used Roots.rounded) : ∀ {l : List Channel}
    {t : TimeDomain Float32} (traces : Traces Float32 N), l.Nodup → t.Used Roots.rounded →
    let r := l.foldl (fun (t, traces) c =>
      let (t, v) := o.applyTrace points t (traces.get c)
      (t, traces.set c v)) (t, traces)
    r.1.Used Roots.rounded ∧ ∀ c, r.2.get c =
      if c ∈ l then (o.applyTrace points t' (traces.get c)).2 else traces.get c := by
  intro l
  induction l with
  | nil => exact fun _ _ ht => ⟨ht, fun c => (if_neg (List.not_mem_nil)).symm⟩
  | cons d l ih =>
    intro t traces hl ht
    obtain ⟨hd, hl⟩ := List.nodup_cons.mp hl
    have hnext := o.applyTrace_used ht points (traces.get d)
    obtain ⟨hused, hget⟩ := ih (traces.set d (o.applyTrace points t (traces.get d)).2) hl hnext
    refine ⟨hused, fun c => (hget c).trans ?_⟩
    by_cases hc : c = d
    · subst hc
      rw [if_neg hd, if_pos List.mem_cons_self, Traces.get_set_same]
      exact o.applyTrace_congr ht ht' points _
    · rw [Traces.get_set_of_ne _ _ hc]
      simp only [List.mem_cons, hc, false_or]

/-- Whatever a time domain was used for, its next response is that of a fresh one. Processing
therefore gives every measured channel what it would give it through any other time domain, and
leaves the next pass no trace of this one. Channels that are not measured keep their values, and in
the frequency domain so does everything behind the points. -/
theorem apply_independent (ht : t.Used Roots.rounded) :
    (∀ {N : Nat} (data : Vector (Phasor Float32) N) (points : Nat) (kind : ResponseKind)
      (window : WindowShape), (t.transform Roots.rounded data points kind window).2 =
        (({} : TimeDomain Float32).transform Roots.rounded data points kind window).2) ∧
    ∀ (o : Processing) {N : Nat} (traces : Traces Float32 N) (points : UInt16) (mask : SweepMask),
      (o.apply t traces points mask).1.Used Roots.rounded ∧
      ∀ c, (mask.measures c → ∀ {t' : TimeDomain Float32}, t'.Used Roots.rounded →
          (o.apply t traces points mask).2.get c =
            (o.applyTrace (min points.toNat N) t' (traces.get c)).2) ∧
        (¬mask.measures c → (o.apply t traces points mask).2.get c = traces.get c) ∧
        (o.domain = .frequency → ∀ i : Fin N, points.toNat ≤ i →
          ((o.apply t traces points mask).2.get c).get i = (traces.get c).get i) := by
  refine ⟨fun data points kind window => ?_, fun o N traces points mask => ?_⟩
  · rw [TimeDomain.transform_of_used ht, TimeDomain.transform_of_used .fresh]
  have hfold := fun {t'} (ht' : TimeDomain.Used Roots.rounded t') =>
    o.foldl_applyTrace (min points.toNat N) ht' traces mask.nodup_channels ht
  refine ⟨(hfold ht).1, fun c => ⟨fun hc t' ht' => ?_, fun hc => ?_, fun hd i hi => ?_⟩⟩
  · exact ((hfold ht').2 c).trans (if_pos (SweepMask.mem_channels.mpr hc))
  · exact ((hfold ht).2 c).trans (if_neg (mt SweepMask.mem_channels.mp hc))
  · have hget := (hfold ht).2 c
    change (o.apply t traces points mask).2.get c = _ at hget
    rw [hget]
    split
    · exact o.applyTrace_behind hd _ (by omega)
    · rfl

/-- A step response leaves its normalization and its running sums behind. -/
theorem apply_independent_afterStep :
    let t := (({} : TimeDomain Float32).transform Roots.rounded #v[1, 1] 2 .lowpassStep .normal).1
    t.Used Roots.rounded ∧ t.cached = some ⟨.lowpassStep, .normal, 2, by decide⟩ ∧
      (t.transform Roots.rounded #v[1, 0, 1] 3 .lowpassImpulse .normal).2 =
        (({} : TimeDomain Float32).transform Roots.rounded #v[1, 0, 1] 3 .lowpassImpulse
          .normal).2 := by
  have hfresh : TimeDomain.Used Roots.rounded {} := .fresh
  have hused := hfresh.again #v[1, 1] 2 .lowpassStep .normal
  exact ⟨hused, rfl, (apply_independent hused).1 #v[1, 0, 1] 3 .lowpassImpulse .normal⟩

end Processing

end NetworkAnalyzer
