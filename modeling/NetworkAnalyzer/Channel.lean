import NetworkAnalyzer.Flags
import NetworkAnalyzer.Names
import NetworkAnalyzer.Phasor

/-!
# Receiver channels

The instrument has two receivers: one for the wave reflected at its port, one for the wave
transmitted to the other. They are measured one after the other, since they share the codec, and
`Channel.all` is the order.

A pass is told what to do by a mask of options: which channels to measure, and for each correction
whether to apply it. The electrical delay is an option of each channel, the gain offset concerns
the transmission alone, and the change of impedance the reflection alone. The masks that a pass
finds are decided by `Settings.activeMask` and `Settings.scanMask`.

What a pass fills is a pair of traces, one vector of `N` points per channel, whether or not the
pass measures the channel. A point outside the trace is dropped when it is written (`setPoint`).

* `mem_channels`, `nodup_channels`: the channels of a mask are those it selects, each once.
* `get_set_same` and its relatives: a write to one channel shows there and in no other.
-/

namespace NetworkAnalyzer

inductive Channel where
  | s11
  | s21
  deriving DecidableEq, Repr

namespace Channel

/-- Both channels in the order they are measured. -/
def all : List Channel := [.s11, .s21]

def index : Channel → Nat
  | .s11 => 0
  | .s21 => 1

def ofNat? : Nat → Option Channel
  | 0 => some .s11
  | 1 => some .s21
  | _ => none

def names : NameTable Channel := [("S11", .s11), ("S21", .s21)]

theorem ofNat?_index (c : Channel) : ofNat? c.index = some c := by cases c <;> rfl

end Channel

/-! ## Sweep masks -/

/-- An option of one pass. -/
inductive SweepOption where
  | measureS11
  | measureS21
  | delayS11
  | delayS21
  | gainOffset
  | calibrate
  | interpolate
  | renormalize
  deriving DecidableEq, Repr

instance : BitLayout SweepOption where
  width := 16
  bit
    | .measureS11 => 0
    | .measureS21 => 1
    | .delayS11 => 2
    | .delayS21 => 3
    | .gainOffset => 4
    | .calibrate => 5
    | .interpolate => 6
    | .renormalize => 7

def SweepOption.names : NameTable SweepOption :=
  [("ch0", .measureS11), ("ch1", .measureS21), ("edelay_s11", .delayS11), ("edelay_s21", .delayS21),
   ("s21_offset", .gainOffset), ("apply_calibration", .calibrate), ("interpolate", .interpolate),
   ("renormalize", .renormalize)]

/-- Channels and corrections of one pass. -/
abbrev SweepMask := Flags SweepOption

namespace SweepMask

def measureOption : Channel → SweepOption
  | .s11 => .measureS11
  | .s21 => .measureS21

def delayOption : Channel → SweepOption
  | .s11 => .delayS11
  | .s21 => .delayS21

def measures (m : SweepMask) (c : Channel) : Bool := m.has (measureOption c)

def withChannel (m : SweepMask) (c : Channel) (on : Bool) : SweepMask := m.put (measureOption c) on

def measuresAny (m : SweepMask) : Bool := m.measures .s11 || m.measures .s21

def removesDelay (m : SweepMask) (c : Channel) : Bool := m.has (delayOption c)

/-- Only `c`, uncorrected. -/
def raw (c : Channel) : SweepMask := withChannel Flags.none c true

/-- The selected channels in measuring order. -/
def channels (m : SweepMask) : List Channel := Channel.all.filter m.measures

theorem mem_channels {m : SweepMask} {c : Channel} : c ∈ m.channels ↔ m.measures c := by
  unfold channels
  rw [List.mem_filter]
  refine ⟨fun h => h.2, fun h => ⟨?_, h⟩⟩
  cases c <;> decide

theorem nodup_channels (m : SweepMask) : m.channels.Nodup := by
  have hall : Channel.all.Nodup := by decide
  exact hall.filter _

end SweepMask

/-! ## Traces -/

/-- One trace of `N` points per channel. -/
structure Traces (α : Type) (N : Nat) where
  s11 : Vector (Phasor α) N
  s21 : Vector (Phasor α) N
  deriving DecidableEq

namespace Traces

variable {α : Type} {N : Nat}

def zero [Scalar α] : Traces α N := ⟨.replicate N 0, .replicate N 0⟩

def get (t : Traces α N) : Channel → Vector (Phasor α) N
  | .s11 => t.s11
  | .s21 => t.s21

def set (t : Traces α N) (c : Channel) (v : Vector (Phasor α) N) : Traces α N :=
  match c with
  | .s11 => { t with s11 := v }
  | .s21 => { t with s21 := v }

/-- One point of the trace of `c` replaced; a point outside the trace is dropped. -/
def setPoint (t : Traces α N) (c : Channel) (i : Nat) (z : Phasor α) : Traces α N :=
  match c with
  | .s11 => { t with s11 := t.s11.setIfInBounds i z }
  | .s21 => { t with s21 := t.s21.setIfInBounds i z }

@[simp] theorem get_set_same (t : Traces α N) (c : Channel) (v : Vector (Phasor α) N) :
    (t.set c v).get c = v := by cases c <;> rfl

theorem get_set_of_ne (t : Traces α N) {c d : Channel} (v : Vector (Phasor α) N) (h : d ≠ c) :
    (t.set c v).get d = t.get d := by
  cases c <;> cases d <;> first | rfl | exact absurd rfl h

theorem get_setPoint_same (t : Traces α N) (c : Channel) (i : Nat) (z : Phasor α) :
    (t.setPoint c i z).get c = (t.get c).setIfInBounds i z := by cases c <;> rfl

theorem get_setPoint_of_ne (t : Traces α N) {c d : Channel} (i : Nat) (z : Phasor α) (h : d ≠ c) :
    (t.setPoint c i z).get d = t.get d := by
  cases c <;> cases d <;> first | rfl | exact absurd rfl h

end Traces

end NetworkAnalyzer
