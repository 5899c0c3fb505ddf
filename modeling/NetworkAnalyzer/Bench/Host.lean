import NetworkAnalyzer.Bench.Script
import NetworkAnalyzer.MeasurementLoop

/-!
# Standard host

A host that obeys the control word: it applies the mailbox at the start of every tick, adopts staged
settings when the mailbox says that settings changed, starts a pass whenever the control allows one,
and accounts for its end.

Settings are staged by another task and announced by a command. They reach the instrument in the
tick that drains the command, before its mask is decided, and never in the middle of a call.

Whether a pass is breakable is the host's choice and the same for all passes here. `bareHost` leaves
the mailbox alone, so that commands pile up.
-/

namespace NetworkAnalyzer.Bench

variable {N : Nat}

def adoptStaged (i : Instrument N) : Run (Shared N Bench) (Instrument N) := do
  match (← getBench).staged with
  | none => return i
  | some s =>
    modifyBench fun b => { b with staged := none }
    return i.applySettings s

def serveMailbox (i : Instrument N) : Run (Shared N Bench) (Instrument N) := do
  let (changed, c) := (← get).control.drain
  Shared.setControl c
  if changed then adoptStaged i else return i

def mayStart (breakable : Bool) : Run (Shared N Bench) (Option Bool) :=
  return if (← get).control.canStart then some breakable else none

/-- Counts a pass and accounts for it in the control word. -/
def accountFor (r : SweepResult) : Run (Shared N Bench) Unit := do
  modifyBench fun b => { b with results := b.results + 1 }
  Shared.setControl ((← get).control.finish r.completed)

/-- A host that leaves the mailbox alone. -/
def bareHost (breakable : Bool) : Host N Bench :=
  { canStart := mayStart breakable, handleResult := accountFor, listen := listen }

def host (breakable : Bool) : Host N Bench := { bareHost breakable with service := serveMailbox }

end NetworkAnalyzer.Bench
