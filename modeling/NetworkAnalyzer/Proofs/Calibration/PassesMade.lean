import NetworkAnalyzer.Bench.Standards
import NetworkAnalyzer.Proofs.Calibration.Readings
import NetworkAnalyzer.Proofs.Loop.Interludes

/-!
# The passes of a measurement

A sweeper may hand over any points, as often as it likes, and fail in any pass. `Sweeper.Made`
lists the passes that were run between two states, each with the state it started from. It is a
relation between the two states and the log, so a statement about a measurement can say which passes
were made without saying what a pass is.

Passes are asked for by number, zero counting as one, and the first failure ends the measurement.
The bandwidth is raised before the first pass if it is lower than 100 Hz, and set back to what it
was at the end, also after a failure. That every pass finds the raised bandwidth is a property of
the sweeper (`HoldsBandwidth`): a pass must not change it on its own.

* `passes_made`: passes are run one after the other until one fails.
* `Made.bandwidth`: all of them find the same bandwidth.
* `Conducted`: how a measurement went, one field per thing that it must do or leave alone.
* `collect_made`: what a measurement did to its sweeper and left in the tables, whatever the
  passes handed over and however they ended.
* `collect_conducted`: every measurement with a sweeper that does not fault goes this way.
* `collect_conducted_failing`: the second of three passes fails.
* `SweepHead.collect_made`: so does every measurement through a session of the instrument.
-/

namespace NetworkAnalyzer

open Bench (PatternSweeper)

variable {σ α : Type} {N : Nat} {sweeper : Sweeper σ α} {s : Standard}

/-- The bandwidth is what it was last set to; passes leave it alone. -/
structure Sweeper.HoldsBandwidth (sweeper : Sweeper σ α) : Prop where
  setBandwidth : ∀ {b w u w'}, sweeper.setBandwidth b w = .ok (u, w') → sweeper.bandwidth w' = b
  sweep : ∀ {mask channel w d w'}, sweeper.sweep mask channel w = .ok (d, w') →
    sweeper.bandwidth w' = sweeper.bandwidth w

/-- The passes of a standard that were run from the first state to the second, each with the state
it found and what it delivered. -/
inductive Sweeper.Made (sweeper : Sweeper σ α) (s : Standard) :
    List (σ × Delivery α) → σ → σ → Prop
  | none (w : σ) : Made sweeper s [] w w
  | pass {log : List (σ × Delivery α)} {w w₁ w' : σ} {d : Delivery α} :
      sweeper.sweep (SweepMask.raw s.channel) s.channel w = .ok (d, w₁) →
      Made sweeper s log w₁ w' → Made sweeper s ((w, d) :: log) w w'

/-- How the passes ended, in order. -/
def outcomes (log : List (σ × Delivery α)) : List (Except Failure Unit) := log.map (·.2.outcome)

@[simp]
theorem outcomes_cons (w : σ) (d : Delivery α) (log : List (σ × Delivery α)) :
    outcomes ((w, d) :: log) = d.outcome :: outcomes log := rfl

namespace Sweeper

/-- Passes are run until one fails: all that were asked for succeeded, or the last one that was run
failed and those before it succeeded. -/
theorem passes_made : ∀ {left : Nat} {r : Except Failure Unit}
    {values : List (List (Nat × Phasor α))} {w w' : σ},
    sweeper.passes s left w = .ok ((r, values), w') → ∃ log, sweeper.Made s log w w' ∧
      ((r = .ok () ∧ outcomes log = List.replicate left (.ok ())) ∨
        ∃ e k, r = .error e ∧ k < left ∧
          outcomes log = List.replicate k (.ok ()) ++ [.error e]) := by
  intro left
  induction left with
  | zero =>
    intro r values w w' h
    obtain ⟨he, rfl⟩ := Run.pure_inv h
    cases he
    exact ⟨[], .none _, Or.inl ⟨rfl, rfl⟩⟩
  | succ left ih =>
    intro r values w w' h
    unfold Sweeper.passes at h
    obtain ⟨⟨first, outcome⟩, w₁, hpass, h₁⟩ := Run.bind_inv h
    cases outcome with
    | error e =>
      obtain ⟨he, rfl⟩ := Run.pure_inv h₁
      cases he
      exact ⟨_, .pass hpass (.none _), Or.inr ⟨e, 0, rfl, Nat.succ_pos _, rfl⟩⟩
    | ok u =>
      obtain ⟨⟨outcome, rest⟩, w₂, hrest, h₂⟩ := Run.bind_inv h₁
      obtain ⟨he, rfl⟩ := Run.pure_inv h₂
      cases he
      obtain ⟨log, hmade, ⟨rfl, hends⟩ | ⟨e, k, rfl, hk, hends⟩⟩ := ih hrest
      · refine ⟨_, .pass hpass hmade, Or.inl ⟨rfl, ?_⟩⟩
        rw [outcomes_cons, hends, List.replicate_succ]
      · refine ⟨_, .pass hpass hmade, Or.inr ⟨e, k + 1, rfl, Nat.succ_lt_succ hk, ?_⟩⟩
        rw [outcomes_cons, hends, List.replicate_succ, List.cons_append]

/-- All passes find the bandwidth that the first one found, and leave it. -/
theorem Made.bandwidth (hb : sweeper.HoldsBandwidth) {log : List (σ × Delivery α)} {w w' : σ}
    (h : sweeper.Made s log w w') : sweeper.bandwidth w' = sweeper.bandwidth w ∧
      ∀ pass ∈ log, sweeper.bandwidth pass.1 = sweeper.bandwidth w := by
  induction h with
  | none w => exact ⟨rfl, fun pass hin => absurd hin List.not_mem_nil⟩
  | pass hpass _ ih =>
    obtain ⟨hlast, hall⟩ := ih
    have hkept := hb.sweep hpass
    refine ⟨hlast.trans hkept, fun pass hin => ?_⟩
    rcases List.mem_cons.mp hin with rfl | hin
    · rfl
    · exact (hall pass hin).trans hkept

end Sweeper

/-! ## Sweepers that hold their bandwidth -/

namespace Bench.PatternSweeper

variable {α : Type} [Scalar α]

theorem sweeper_holdsBandwidth : (PatternSweeper.sweeper (α := α)).HoldsBandwidth where
  setBandwidth h := by cases h; rfl
  sweep h := by cases h; rfl

theorem sweeper_returns : (PatternSweeper.sweeper (α := α)).Returns fun _ => True where
  setBandwidth _ _ := ⟨_, rfl⟩
  sweep _ _ _ := ⟨_, _, rfl, trivial⟩

/-- Three points, of which a pass hands over two more than the plan has. The second pass fails. -/
def failing : PatternSweeper Float32 where
  pattern := { values := #[0], extra := 2, failsAt := some (2, 4) }
  plan := ⟨1000, 3000, 3⟩
  bandwidth := 10

end Bench.PatternSweeper

namespace SweepHead

/-- The session of the instrument holds its bandwidth. -/
theorem sweeper_holdsBandwidth {ε : Type} (board : Board (Shared N ε)) :
    (SweepHead.sweeper board).HoldsBandwidth where
  setBandwidth h := by cases h; rfl
  sweep {mask channel w d w'} h := by
    obtain ⟨r, hscan, -⟩ := sweep_scan h
    exact congrArg SweepConfig.bandwidth (scan_kept hscan).2

end SweepHead

/-! ## A measurement and its passes -/

namespace Calibration

theorem toNat_max_averaging (averaging : UInt16) :
    (max averaging 1).toNat = max averaging.toNat 1 := by
  change (if averaging ≤ 1 then 1 else averaging).toNat = _
  split
  · rename_i hle
    exact (Nat.max_eq_right (UInt16.le_iff_toNat_le.mp hle)).symm
  · rename_i hlt
    exact (Nat.max_eq_left (Nat.le_of_lt (UInt16.lt_iff_toNat_lt.mp (UInt16.not_le.mp hlt)))).symm

theorem raised_bandwidth (hb : sweeper.HoldsBandwidth) {least : UInt16} {w w₁ : σ}
    (h : (¬sweeper.bandwidth w < least ∧ w₁ = w) ∨
      (sweeper.bandwidth w < least ∧ sweeper.setBandwidth least w = .ok ((), w₁))) :
    sweeper.bandwidth w₁ = max (sweeper.bandwidth w) least := by
  change _ = if sweeper.bandwidth w ≤ least then least else sweeper.bandwidth w
  obtain ⟨hhigh, rfl⟩ | ⟨hlow, hset⟩ := h
  · split
    · rename_i hle
      exact UInt16.le_antisymm hle (UInt16.not_lt.mp hhigh)
    · rfl
  · rw [if_pos (UInt16.le_of_lt hlow)]
    exact hb.setBandwidth hset

/-- How a measurement of `s` by `averaging` passes went that ended as `r` says: it took the sweeper
from `w` to `w'` and the calibration from `c` to `c'`. -/
structure Conducted (sweeper : Sweeper σ α) (s : Standard) (averaging : UInt16)
    (r : Except Failure Unit) (c c' : Calibration α N) (w w' : σ) (log : List (σ × Delivery α)) :
    Prop where
  /-- The passes were run between setting the bandwidth and putting it back. -/
  ran : ∃ w₁ w₂, ((w₁ = w ∧ Parameters.bandwidth100 ≤ sweeper.bandwidth w) ∨
      sweeper.setBandwidth Parameters.bandwidth100 w = .ok ((), w₁)) ∧
    sweeper.Made s log w₁ w₂ ∧ sweeper.setBandwidth (sweeper.bandwidth w) w₂ = .ok ((), w')
  count_le : log.length ≤ max averaging.toNat 1
  count_ok : r = .ok () → log.length = max averaging.toNat 1
  /-- The first pass that failed was the last, and its failure is the result. -/
  stopped : outcomes log = List.replicate (log.length - 1) (.ok ()) ++ [r]
  bandwidth_seen : sweeper.HoldsBandwidth → ∀ pass ∈ log,
    sweeper.bandwidth pass.1 = max (sweeper.bandwidth w) Parameters.bandwidth100
  bandwidth_restored : sweeper.HoldsBandwidth → sweeper.bandwidth w' = sweeper.bandwidth w
  other_slots : ∀ t, t ≠ s.slot → ∀ i, c'.valueAt t i = c.valueAt t i
  beyond_plan : ∀ i, (sweeper.plan w).points.toNat ≤ i →
    c'.valueAt s.slot i = c.valueAt s.slot i

theorem outcomes_counted {log : List (σ × Delivery α)} {r : Except Failure Unit} {count : Nat}
    (h : (r = .ok () ∧ outcomes log = List.replicate (max count 1) (.ok ())) ∨
      ∃ e k, r = .error e ∧ k < max count 1 ∧
        outcomes log = List.replicate k (.ok ()) ++ [.error e]) :
    log.length ≤ max count 1 ∧ (r = .ok () → log.length = max count 1) ∧
      outcomes log = List.replicate (log.length - 1) (.ok ()) ++ [r] := by
  have hlength : log.length = (outcomes log).length := List.length_map _ |>.symm
  obtain ⟨rfl, hends⟩ | ⟨e, k, rfl, hk, hends⟩ := h
  · rw [hends, List.length_replicate] at hlength
    refine ⟨hlength.le, fun _ => hlength, ?_⟩
    rw [hends, hlength, ← List.replicate_succ', Nat.sub_add_cancel (Nat.le_max_right _ _)]
  · rw [hends, List.length_append, List.length_replicate, List.length_singleton] at hlength
    refine ⟨hlength ▸ hk, fun h => (by cases h), ?_⟩
    rw [hends, hlength, Nat.add_sub_cancel]

variable [Scalar α]

/-- What a measurement did, whatever its passes handed over and however they ended. -/
theorem collect_made {averaging : UInt16} {c c' : Calibration α N} {r : Except Failure Unit}
    {w w' : σ} (h : c.collect sweeper s averaging w = .ok ((r, c'), w')) :
    ∃ log, Conducted sweeper s averaging r c c' w w' log := by
  obtain ⟨w₁, w₂, c₁, hraised, hmeasure, hrestore, rfl⟩ := collect_steps h
  obtain ⟨values, hpasses, hoff, -⟩ := measure_inv hmeasure
  obtain ⟨log, hmade, hends⟩ := Sweeper.passes_made hpasses
  rw [toNat_max_averaging] at hends
  obtain ⟨hle, hok, hstopped⟩ := outcomes_counted hends
  refine ⟨log, ⟨w₁, w₂, ?_, hmade, hrestore⟩, hle, hok, hstopped, fun hb pass hin => ?_,
    fun hb => hb.setBandwidth hrestore, fun t ht i => ?_, fun i hi => ?_⟩
  · obtain ⟨hhigh, rfl⟩ | ⟨-, hset⟩ := hraised
    · exact Or.inl ⟨rfl, UInt16.not_lt.mp hhigh⟩
    · exact Or.inr hset
  · exact ((hmade.bandwidth hb).2 pass hin).trans (raised_bandwidth hb hraised)
  · exact (hoff.valueAt t ht i).trans (valueAt_onPlan c _ t i)
  · exact (hoff.beyond i (Nat.le_trans (points_onPlan_le c _) hi)).trans (valueAt_onPlan c _ _ i)

/-- Every measurement with a sweeper that does not fault returns: it makes at most the passes asked
for, at no less than the least bandwidth, stops at the first that fails and returns its failure.
It puts the bandwidth back either way, and changes the slot of the standard over the plan only. -/
theorem collect_conducted (hreturns : sweeper.Returns fun _ => True) (s : Standard)
    (averaging : UInt16) (c : Calibration α N) (w : σ) : ∃ r c' w' log,
      c.collect sweeper s averaging w = .ok ((r, c'), w') ∧
      Conducted sweeper s averaging r c c' w w' log := by
  obtain ⟨r, c', w', hcollect, -⟩ := collect_returns hreturns trivial s averaging c w
  obtain ⟨log, hconducted⟩ := collect_made hcollect
  exact ⟨r, c', w', log, hcollect, hconducted⟩

theorem collect_conducted_failing :
    ((PatternSweeper.sweeper (α := Float32)).Returns fun _ => True) ∧
    ∃ r c' w' log, (empty : Calibration Float32 4).collect PatternSweeper.sweeper .open 3
        PatternSweeper.failing = .ok ((r, c'), w') ∧ w'.bandwidth = 10 ∧
      Conducted PatternSweeper.sweeper .open 3 r empty c' PatternSweeper.failing w' log := by
  obtain ⟨r, c', w', log, hcollect, hconducted⟩ := collect_conducted
    PatternSweeper.sweeper_returns .open 3 (empty : Calibration Float32 4) PatternSweeper.failing
  exact ⟨PatternSweeper.sweeper_returns, r, c', w', log, hcollect,
    hconducted.bandwidth_restored PatternSweeper.sweeper_holdsBandwidth, hconducted⟩

-- The second of three passes fails, and nothing is run after it.
example : ((empty : Calibration Float32 4).collect PatternSweeper.sweeper .open 3
    PatternSweeper.failing).toOption.map (fun run => (run.1.1, run.2.passes, run.2.bandwidth)) =
      some (.error .hardwareTimeout, 2, 10) := rfl

end Calibration

/-- A measurement through a session of the instrument leaves the bandwidth of the instrument as it
was, whatever became of its passes. -/
theorem SweepHead.collect_made {ε : Type} {board : Board (Shared N ε)} {averaging : UInt16}
    {c c' : Calibration Float32 N} {head head' : SweepHead} {r : Except Failure Unit}
    {w w' : Shared N ε} (h : head.collect board s averaging c w = .ok ((r, c', head'), w')) :
    (∃ log, Calibration.Conducted (SweepHead.sweeper board) s averaging r c c' (head, w) (head', w')
      log) ∧ head'.config.bandwidth = head.config.bandwidth := by
  obtain ⟨log, hconducted⟩ := Calibration.collect_made (SweepHead.collect_inv h)
  exact ⟨⟨log, hconducted⟩, hconducted.bandwidth_restored (sweeper_holdsBandwidth board)⟩

end NetworkAnalyzer
