import NetworkAnalyzer.Board
import NetworkAnalyzer.Parameters

/-!
# Sweep progress

Progress bar and activity light of a pass. Drawing is batched: a single new pixel is held back until
the next update or the end of the pass, where `finish` paints it before it erases the bar.

The bar covers a share of the screen as large as the share of the points that were measured, and
only grows. A fresh bar begins at no pixels and erases nothing.

Nothing is drawn here. Every operation returns the indications to be shown, and whoever runs the
pass shows them.
-/

namespace NetworkAnalyzer

open Parameters

/-- State of bar and light. -/
structure Progress where
  /-- Pixels painted. -/
  drawn : UInt16 := 0
  /-- Pixels held back. -/
  pending : UInt16 := 0
  /-- The bar is shown in this pass. -/
  bar : Bool := false
  /-- The light is on. -/
  light : Bool := false
  deriving DecidableEq, Repr, Inhabited

namespace Progress

/-- Starts a new bar. The light is switched only if it is off. -/
def begin (p : Progress) (shown : Bool) : Progress × List Indication :=
  ({ drawn := 0, pending := 0, bar := shown, light := true },
   if p.light then [] else [.activity true])

/-- Pixels of the bar that cover point `point` of `points`, at least two. -/
def pixels (point points : UInt16) : UInt16 :=
  let p := point.toUInt32 * progressWidth.toUInt32 / (points.toUInt32 - 1)
  if p ≤ progressWidth.toUInt32 then p.toUInt16 else progressWidth

/-- Paints the bar as far as `point`. A single new pixel waits for the next one, except at the end
of the bar. -/
def update (p : Progress) (point points : UInt16) : Progress × List Indication :=
  if !p.bar || points < 2 then (p, [])
  else
    let target := pixels point points
    if target ≤ p.drawn then (p, [])
    else
      let fresh := target - p.drawn
      if 2 ≤ fresh || progressWidth ≤ target then
        ({ p with drawn := target, pending := 0 }, [.bar p.drawn fresh true])
      else ({ p with pending := fresh }, [])

/-- Paints what was held back, erases the bar and turns the light off. -/
def finish (p : Progress) : Progress × List Indication :=
  let held := if p.bar && 0 < p.pending then [.bar p.drawn p.pending true] else []
  let painted := if 0 < p.pending then p.drawn + p.pending else p.drawn
  let erased := if p.bar && 0 < painted then [.bar 0 painted false] else []
  let dark := if p.light then [.activity false] else []
  (if p.bar then {} else { p with light := false }, held ++ erased ++ dark)

end Progress

end NetworkAnalyzer
