import NetworkAnalyzer.Settings.Basic
import NetworkAnalyzer.Settings.Json

/-!
# Leaves of the settings

A leaf is a single value of the settings tree, and `Leaf` is its address: one constructor for each,
with the index of a trace or the channel of a delay where there are several. The type of its value
depends on the address (`Leaf.Value`), so setting a leaf to a value of another type cannot be
written down.

`get` and `set` address a leaf in the settings, `read` and `write` exchange its value as text, and
`all` lists the leaves in the order of the tree.

* `get_set_same`, `get_set_of_ne`: setting a leaf changes that leaf and no other.
-/

namespace NetworkAnalyzer

open Parameters

inductive Leaf where
  | start
  | stop
  | points
  | bandwidth
  | averaging
  | traceEnabled (trace : Fin traceCount)
  | traceChannel (trace : Fin traceCount)
  | electricalDelay (channel : Channel)
  | gainOffset
  | portImpedance
  | referenceImpedance
  | sampler
  | smoothFactor
  | smoothMode
  | domain
  | response
  | window
  deriving DecidableEq, Repr

namespace Leaf

abbrev Value : Leaf → Type
  | .start | .stop => UInt32
  | .points | .bandwidth | .averaging => UInt16
  | .smoothFactor => UInt8
  | .traceEnabled _ => Bool
  | .traceChannel _ => Channel
  | .electricalDelay _ | .gainOffset | .portImpedance | .referenceImpedance => Float32
  | .sampler => Sampler
  | .smoothMode => SmoothMode
  | .domain => Domain
  | .response => ResponseKind
  | .window => WindowShape

def get (s : Settings) : (l : Leaf) → l.Value
  | .start => s.sweep.start
  | .stop => s.sweep.stop
  | .points => s.sweep.points
  | .bandwidth => s.sweep.bandwidth
  | .averaging => s.sweep.averaging
  | .traceEnabled i => s.traces[i].enabled
  | .traceChannel i => s.traces[i].channel
  | .electricalDelay .s11 => s.correction.delayS11
  | .electricalDelay .s21 => s.correction.delayS21
  | .gainOffset => s.correction.gainOffset
  | .portImpedance => s.correction.portImpedance
  | .referenceImpedance => s.correction.referenceImpedance
  | .sampler => s.sampler
  | .smoothFactor => s.processing.smoothFactor
  | .smoothMode => s.processing.smoothMode
  | .domain => s.processing.domain
  | .response => s.processing.response
  | .window => s.processing.window

def set (s : Settings) : (l : Leaf) → l.Value → Settings
  | .start, v => { s with sweep := { s.sweep with start := v } }
  | .stop, v => { s with sweep := { s.sweep with stop := v } }
  | .points, v => { s with sweep := { s.sweep with points := v } }
  | .bandwidth, v => { s with sweep := { s.sweep with bandwidth := v } }
  | .averaging, v => { s with sweep := { s.sweep with averaging := v } }
  | .traceEnabled i, v => { s with traces := s.traces.set i { s.traces[i] with enabled := v } }
  | .traceChannel i, v => { s with traces := s.traces.set i { s.traces[i] with channel := v } }
  | .electricalDelay .s11, v => { s with correction := { s.correction with delayS11 := v } }
  | .electricalDelay .s21, v => { s with correction := { s.correction with delayS21 := v } }
  | .gainOffset, v => { s with correction := { s.correction with gainOffset := v } }
  | .portImpedance, v => { s with correction := { s.correction with portImpedance := v } }
  | .referenceImpedance, v => { s with correction := { s.correction with referenceImpedance := v } }
  | .sampler, v => { s with sampler := v }
  | .smoothFactor, v => { s with processing := { s.processing with smoothFactor := v } }
  | .smoothMode, v => { s with processing := { s.processing with smoothMode := v } }
  | .domain, v => { s with processing := { s.processing with domain := v } }
  | .response, v => { s with processing := { s.processing with response := v } }
  | .window, v => { s with processing := { s.processing with window := v } }

@[simp] theorem get_set_same (s : Settings) (l : Leaf) (v : l.Value) : get (set s l v) l = v := by
  cases l with
  | traceEnabled i => simp [get, set]
  | traceChannel i => simp [get, set]
  | electricalDelay c => cases c <;> rfl
  | _ => rfl

theorem get_set_of_ne (s : Settings) {l k : Leaf} (v : l.Value) (h : k ≠ l) :
    get (set s l v) k = get s k := by
  cases l with
  | traceEnabled i =>
    cases k with
    | traceEnabled j =>
      have hij : i ≠ j := fun e => h (by rw [e])
      simp [get, set, Fin.val_inj, hij]
    | traceChannel j => by_cases e : i = j <;> simp [get, set, Fin.val_inj, e]
    | electricalDelay c => cases c <;> rfl
    | _ => rfl
  | traceChannel i =>
    cases k with
    | traceChannel j =>
      have hij : i ≠ j := fun e => h (by rw [e])
      simp [get, set, Fin.val_inj, hij]
    | traceEnabled j => by_cases e : i = j <;> simp [get, set, Fin.val_inj, e]
    | electricalDelay c => cases c <;> rfl
    | _ => rfl
  | electricalDelay c =>
    cases k with
    | electricalDelay d => cases c <;> cases d <;> first | rfl | exact absurd rfl h
    | _ => cases c <;> rfl
  | _ =>
    cases k with
    | electricalDelay d => cases d <;> rfl
    | _ => first | rfl | exact absurd rfl h

end Leaf

/-! The names of the variants. -/

def Sampler.names : NameTable Sampler :=
  [("Gamma", .gamma), ("Amplitude", .amplitude), ("ReferenceAmplitude", .referenceAmplitude)]

def SmoothMode.names : NameTable SmoothMode :=
  [("Arithmetic", .arithmetic), ("Geometric", .geometric)]

def Domain.names : NameTable Domain := [("Frequency", .frequency), ("Time", .time)]

def ResponseKind.names : NameTable ResponseKind :=
  [("LowpassImpulse", .lowpassImpulse), ("LowpassStep", .lowpassStep), ("Bandpass", .bandpass)]

def WindowShape.names : NameTable WindowShape :=
  [("Minimum", .minimum), ("Normal", .normal), ("Maximum", .maximum)]

namespace Leaf

open Json

/-- A value read and converted. -/
def readAs {α β : Type} (f : α → β) (r : Reader α) : Reader β := fun cs =>
  (r cs).map fun (v, rest) => (f v, rest)

def read : (l : Leaf) → Reader l.Value
  | .start | .stop => readAs Nat.toUInt32 (readNat 4294967295)
  | .points | .bandwidth | .averaging => readAs Nat.toUInt16 (readNat 65535)
  | .smoothFactor => readAs Nat.toUInt8 (readNat 255)
  | .traceEnabled _ => readBool
  | .traceChannel _ => readVariant Channel.names
  | .electricalDelay _ | .gainOffset | .portImpedance | .referenceImpedance => readSingle
  | .sampler => readVariant Sampler.names
  | .smoothMode => readVariant SmoothMode.names
  | .domain => readVariant Domain.names
  | .response => readVariant ResponseKind.names
  | .window => readVariant WindowShape.names

def write : (l : Leaf) → l.Value → List Char
  | .start, v | .stop, v => writeNat v.toNat
  | .points, v | .bandwidth, v | .averaging, v => writeNat v.toNat
  | .smoothFactor, v => writeNat v.toNat
  | .traceEnabled _, v => writeBool v
  | .traceChannel _, v => writeQuoted (Channel.names.nameOf v)
  | .electricalDelay _, v | .gainOffset, v | .portImpedance, v | .referenceImpedance, v =>
    writeSingle v
  | .sampler, v => writeQuoted (Sampler.names.nameOf v)
  | .smoothMode, v => writeQuoted (SmoothMode.names.nameOf v)
  | .domain, v => writeQuoted (Domain.names.nameOf v)
  | .response, v => writeQuoted (ResponseKind.names.nameOf v)
  | .window, v => writeQuoted (WindowShape.names.nameOf v)

def all : List Leaf :=
  [.start, .stop, .points, .bandwidth, .averaging]
    ++ (List.finRange traceCount).flatMap (fun i => [.traceEnabled i, .traceChannel i])
    ++ Channel.all.map .electricalDelay
    ++ [.gainOffset, .portImpedance, .referenceImpedance, .sampler, .smoothFactor, .smoothMode,
        .domain, .response, .window]

end Leaf

end NetworkAnalyzer
