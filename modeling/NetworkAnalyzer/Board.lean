import NetworkAnalyzer.Channel
import NetworkAnalyzer.Clock

/-!
# Boards

The surface of the board that the sweep works on, over the state `σ` that the board and everything
that acts on it can see: the signal source with its harmonic bands, the input multiplexer, the
clock, pending user input, and the indicators.

The source covers its range by harmonics. `band` says for a frequency which multiplier is in use,
and it depends on the state, since a board may come to use others. A retune answers with the time
that the source takes to settle, and may ask for cycles that settle it further, which are fetched
separately. A board may leave out settling cycles, user input and indicators; what it leaves out
never asks for anything.

An indication is an action of the board like any other: a progress bar that is drawn may take time,
and interrupts come in between.
-/

namespace NetworkAnalyzer

/-- What the instrument shows of a running sweep. -/
inductive Indication where
  /-- The activity light. -/
  | activity (on : Bool)
  /-- `width` pixels of the progress bar from `x` on, painted or cleared. -/
  | bar (x width : UInt16) (filled : Bool)
  deriving DecidableEq, Repr

/-- The analog side as a pass sees it. The state `σ` is left open, so that any hardware can stand
behind it, or none. -/
structure Board (σ : Type) extends Timebase σ where
  /-- Retunes the source; how long it has to settle. -/
  tune : UInt32 → Run σ Duration
  /-- The output multiplier in use at a frequency. Terms are interpolated only
  between frequencies of equal band; nothing else is assumed of the numbering. -/
  band : σ → UInt32 → UInt32
  /-- Routes a channel to the receiver. -/
  select : Channel → Run σ Unit
  /-- Extra settling cycles requested by the last retune; reading clears the request. -/
  takeSettlingCycles : Run σ UInt8 := pure 0
  /-- Whether user input is waiting. -/
  inputPending : Run σ Bool := pure false
  /-- Shows an indication. -/
  indicate : Indication → Run σ Unit := fun _ => pure ()

def Board.indicateAll {σ : Type} (board : Board σ) : List Indication → Run σ Unit
  | [] => pure ()
  | i :: rest => do
    board.indicate i
    board.indicateAll rest

end NetworkAnalyzer
