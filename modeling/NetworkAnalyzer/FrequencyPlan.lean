/-!
# Frequency plans

The frequencies of a sweep: `points` points from `start` to `stop`, both ends included, in whole
hertz.

The range is divided by the number of intervals. The quotient is the nominal distance of
neighbouring points (`step`), and what the division leaves over (`remainder`) is spread over the
points: point `i` carries `remainder · i / intervals` of it, rounded to nearest. So point `i` is
the whole number of hertz nearest to the ideal frequency, the last point is exactly `stop`, errors
do not add up along the range, and two evaluations agree.

Degenerate plans have frequencies, too. A range whose bounds are inverted has no width and
collapses to `start`; a plan of one point or none has no intervals, its step is 1 and nothing is
carried. The share of the remainder is computed in 64 bits, where it cannot overflow.
-/

namespace NetworkAnalyzer

/-- A sweep range in hertz and its number of points. -/
structure FrequencyPlan where
  start : UInt32
  stop : UInt32
  points : UInt16
  deriving DecidableEq, Repr, Inhabited

namespace FrequencyPlan

def span (p : FrequencyPlan) : UInt32 := if p.start ≤ p.stop then p.stop - p.start else 0

def intervals (p : FrequencyPlan) : UInt32 := if p.points = 0 then 0 else p.points.toUInt32 - 1

/-- Nominal distance of neighbouring points. -/
def step (p : FrequencyPlan) : UInt32 := if p.intervals = 0 then 1 else p.span / p.intervals

/-- What the nominal distance leaves over, carried in equal shares. -/
def remainder (p : FrequencyPlan) : UInt32 := if p.intervals = 0 then 0 else p.span % p.intervals

/-- Share of the remainder carried by point `i`, rounded to nearest. -/
def carry (p : FrequencyPlan) (i : UInt16) : UInt64 :=
  (p.intervals.toUInt64 / 2 + p.remainder.toUInt64 * i.toUInt64) / p.intervals.toUInt64

def get (p : FrequencyPlan) (i : UInt16) : UInt32 :=
  if p.intervals = 0 then p.start
  else (p.start.toUInt64 + p.step.toUInt64 * i.toUInt64 + p.carry i).toUInt32

def frequencies (p : FrequencyPlan) : List UInt32 :=
  (List.range p.points.toNat).map fun i => p.get i.toUInt16

/-- Whether the plan covers this range with this many points. -/
def covers (p : FrequencyPlan) (start stop : UInt32) (points : UInt16) : Bool :=
  p.start == start && p.stop == stop && p.points == points

end FrequencyPlan

end NetworkAnalyzer
