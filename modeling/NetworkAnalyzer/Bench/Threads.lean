import NetworkAnalyzer.TaskSlots

/-!
# Simulated threads

A kernel that numbers its threads from 1 and runs every entry at once, so the exit code is known
when the thread is joined. It can be told to refuse. A number is never given out twice, so a handle
that outlived its thread names no other.

Every call is noted down, refused ones included.
-/

namespace NetworkAnalyzer.Bench

/-- A call of the kernel. -/
inductive ThreadMark where
  | spawn (l : Launch)
  | terminate (thread : Nat)
  | join (thread : Nat)

def ThreadMark.text : ThreadMark → String
  | .spawn l =>
    " ".intercalate ["spawn", l.name, toString l.priority.toNat, toString l.stack,
      toString l.argument.toNat]
  | .terminate thread => "terminate " ++ toString thread
  | .join thread => "join " ++ toString thread

structure Threads where
  /-- Spawns are refused. -/
  refuses : Bool := false
  /-- Exit codes of the threads created so far. -/
  codes : Array Int32 := #[]
  marks : Array ThreadMark := #[]

namespace Threads

def kernel : Kernel Threads Nat where
  spawn l k :=
    let k := { k with marks := k.marks.push (.spawn l) }
    if k.refuses then (none, k)
    else (some (k.codes.size + 1), { k with codes := k.codes.push (l.entry l.argument) })
  terminate t k := { k with marks := k.marks.push (.terminate t) }
  join t k := (k.codes.getD (t - 1) 0, { k with marks := k.marks.push (.join t) })

end Threads

end NetworkAnalyzer.Bench
