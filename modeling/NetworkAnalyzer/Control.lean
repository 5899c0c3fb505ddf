import NetworkAnalyzer.Fault
import NetworkAnalyzer.Flags
import NetworkAnalyzer.Names
import NetworkAnalyzer.Parameters

/-!
# Run control

The measurement task owns a word of mode flags. ENABLE lets it sweep continuously, ONCE says that
a pass is owed. A pass may start if either is set, and a completed pass discharges ONCE alone.
The other flags concern no command and no finished pass, and are kept.

Other tasks do not write the flags. They post commands into a mailbox of four, which the
measurement task drains between passes: all of them, in the order in which they came, each with its
effect on the flags. A full mailbox refuses the command. The measurement task itself may call the
same operations; then they take effect at once (`Caller`), since it would wait for itself
otherwise.

The command for a single pass sets ENABLE together with ONCE: it asks for a pass, and the task goes
on sweeping after it. Exactly one pass is made if a stop is posted behind it.

Waiting for a pause to be acknowledged involves the buffers as well, and is in `Shared`.
-/

namespace NetworkAnalyzer

open Parameters

inductive ModeFlag where
  /-- Continuous sweeping. -/
  | enable
  /-- One more pass is owed. -/
  | once
  /-- Console output is binary. -/
  | binary
  /-- The display is shown on a remote host. -/
  | remote
  /-- The user interface is served from the measurement task. -/
  | uiMode
  deriving DecidableEq, Repr

instance : BitLayout ModeFlag where
  width := 8
  bit
    | .enable => 0
    | .once => 1
    | .binary => 3
    | .remote => 6
    | .uiMode => 7

abbrev SweepMode := Flags ModeFlag

def ModeFlag.names : NameTable ModeFlag :=
  [("enable", .enable), ("once", .once), ("binary", .binary), ("remote", .remote),
   ("ui_mode", .uiMode)]

inductive Command where
  | start (once : Bool)
  | stop
  | single
  /-- The settings changed. -/
  | updateConfig
  deriving DecidableEq, Repr

inductive Caller where
  /-- The measurement task itself. -/
  | sweepTask
  | other
  deriving DecidableEq, Repr

structure Control where
  mode : SweepMode
  /-- Waiting commands, oldest first. -/
  mailbox : List Command
  deriving DecidableEq

namespace Control

/-- After power-up: sweeping enabled, one pass owed, nothing posted. -/
def powerUp : Control := ⟨((Flags.none).put .enable true).put .once true, []⟩

instance : Inhabited Control := ⟨powerUp⟩

def setMode (c : Control) (f : ModeFlag) (on : Bool) : Control := { c with mode := c.mode.put f on }

def isEnabled (c : Control) : Bool := c.mode.has .enable

def hasPending (c : Control) : Bool := !c.mailbox.isEmpty

/-- A pass may start in continuous mode, or when a single pass is owed. -/
def canStart (c : Control) : Bool := c.mode.has .enable || c.mode.has .once

/-- Posts a command; a full mailbox drops it. -/
def post (c : Control) (command : Command) : Except Failure Unit × Control :=
  if c.mailbox.length < mailboxDepth then (.ok (), { c with mailbox := c.mailbox ++ [command] })
  else (.error .queueExhausted, c)

/-- What one command does to the mode. A single pass also turns continuous mode on. -/
def apply (c : Control) : Command → Control
  | .start once => (c.setMode .enable true).setMode .once once
  | .stop => c.setMode .enable false
  | .single => (c.setMode .enable true).setMode .once true
  | .updateConfig => c

/-- Applies commands in order; whether the settings changed among them. -/
def applyAll (c : Control) : List Command → Bool × Control
  | [] => (false, c)
  | command :: rest =>
    let (changed, c) := (c.apply command).applyAll rest
    (changed || command == .updateConfig, c)

/-- Applies all waiting commands, oldest first, and reports whether there were any. -/
def drain (c : Control) : Bool × Control := { c with mailbox := [] }.applyAll c.mailbox

/-- Resumes continuous sweeping: at once from the measurement task, by a command
from any other. -/
def resume (c : Control) : Caller → Except Failure Unit × Control
  | .sweepTask => (.ok (), c.apply (.start false))
  | .other => c.post (.start false)

/-- Accounts for a finished pass: a completed one discharges the owed pass. -/
def finish (c : Control) (completed : Bool) : Control :=
  if completed then c.setMode .once false else c

end Control

end NetworkAnalyzer
