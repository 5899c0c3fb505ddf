import NetworkAnalyzer.Settings.Leaf

/-!
# Paths

Leaves are addressed by paths such as `/sweep/points` or `/traces/0/enabled`. What stands before the
first slash is ignored. Names match exactly; an array index is a decimal that may carry a plus sign
and leading zeros. A path may end too early or go on too long, and both are errors of their own,
as are a name that is not in the tree and an index out of range.

`Settings.setText` and `Settings.getText` set and get a leaf by path. A text that is not a value of
the leaf leaves the settings alone; blanks may follow the value, but anything else after it is
reported although the leaf is set. Getting writes into a buffer of limited size, and fails if the
text does not fit.
-/

namespace NetworkAnalyzer

open Parameters

inductive PathError where
  /-- An unknown name or index. -/
  | notFound
  /-- The path ends before a leaf. -/
  | tooShort
  /-- The path goes on after a leaf. -/
  | tooLong
  deriving DecidableEq, Repr

inductive SettingsError where
  | path (e : PathError)
  | value (e : Json.ValueError)
  /-- Something follows the value. -/
  | trailingCharacters
  /-- The text does not fit the buffer. -/
  | bufferFull
  deriving DecidableEq, Repr

def SettingsError.name : SettingsError → String
  | .path .notFound => "Value(Key(NotFound))"
  | .path .tooShort => "Value(Key(TooShort))"
  | .path .tooLong => "Value(Key(TooLong))"
  | .value e => "Inner(" ++ e.name ++ ")"
  | .bufferFull => "Inner(BufferFull)"
  | .trailingCharacters => "Finalization(TrailingCharacters)"

def SettingsError.message : SettingsError → String
  | .path .notFound => "Key not found"
  | .path .tooShort => "Key does not reach a leaf"
  | .path .tooLong => "Key goes beyond a leaf"
  | .value _ | .bufferFull => "(De)serialization"
  | .trailingCharacters => "(De)serializer finalization"

namespace Leaf

def splitSlash : List Char → List (List Char)
  | [] => [[]]
  | c :: cs =>
    if c = '/' then [] :: splitSlash cs
    else
      match splitSlash cs with
      | [] => [[c]]
      | part :: rest => (c :: part) :: rest

/-- The parts of a path: what stands before the first slash is ignored. -/
def pathParts (path : List Char) : List (List Char) := (splitSlash path).drop 1

/-- An array index below `n`. -/
def readIndex (n : Nat) (part : List Char) : Option (Fin n) :=
  let ds := match part with
    | '+' :: rest => rest
    | _ => part
  if ds ≠ [] ∧ ds.all Char.isDigit then
    let i := Decimal.digitsValue ds
    if h : i < n then some ⟨i, h⟩ else none
  else none

def ending (l : Leaf) : List (List Char) → Except PathError Leaf
  | [] => .ok l
  | _ :: _ => .error .tooLong

/-- The leaf of a table of names. -/
def named (leaves : List (String × Leaf)) : List (List Char) → Except PathError Leaf
  | [] => .error .tooShort
  | part :: rest =>
    match leaves.find? fun l => l.1.toList == part with
    | some (_, l) => l.ending rest
    | none => .error .notFound

def sweepNames : List (String × Leaf) :=
  [("start", .start), ("stop", .stop), ("points", .points), ("bandwidth", .bandwidth),
   ("averaging", .averaging)]

def traceNames (i : Fin traceCount) : List (String × Leaf) :=
  [("enabled", .traceEnabled i), ("channel", .traceChannel i)]

def correctionNames : List (String × Leaf) :=
  [("s21_offset", .gainOffset), ("port_impedance", .portImpedance),
   ("reference_impedance", .referenceImpedance)]

def processingNames : List (String × Leaf) :=
  [("sampler", .sampler), ("smooth_factor", .smoothFactor), ("smooth_mode", .smoothMode),
   ("domain", .domain), ("function", .response), ("window", .window)]

def inTraces : List (List Char) → Except PathError Leaf
  | [] => .error .tooShort
  | part :: rest =>
    match readIndex traceCount part with
    | some i => named (traceNames i) rest
    | none => .error .notFound

def inDelays : List (List Char) → Except PathError Leaf
  | [] => .error .tooShort
  | part :: rest =>
    match readIndex 2 part with
    | some 0 => ending (.electricalDelay .s11) rest
    | some 1 => ending (.electricalDelay .s21) rest
    | none => .error .notFound

def inCorrection : List (List Char) → Except PathError Leaf
  | [] => .error .tooShort
  | part :: rest =>
    if part = "electrical_delay".toList then inDelays rest else named correctionNames (part :: rest)

def ofParts : List (List Char) → Except PathError Leaf
  | [] => .error .tooShort
  | part :: rest =>
    if part = "sweep".toList then named sweepNames rest
    else if part = "traces".toList then inTraces rest
    else if part = "correction".toList then inCorrection rest
    else if part = "processing".toList then named processingNames rest
    else .error .notFound

def ofPath (path : String) : Except PathError Leaf := ofParts (pathParts path.toList)

def parts : Leaf → List String
  | .start => ["sweep", "start"]
  | .stop => ["sweep", "stop"]
  | .points => ["sweep", "points"]
  | .bandwidth => ["sweep", "bandwidth"]
  | .averaging => ["sweep", "averaging"]
  | .traceEnabled i => ["traces", toString i.val, "enabled"]
  | .traceChannel i => ["traces", toString i.val, "channel"]
  | .electricalDelay c => ["correction", "electrical_delay", toString c.index]
  | .gainOffset => ["correction", "s21_offset"]
  | .portImpedance => ["correction", "port_impedance"]
  | .referenceImpedance => ["correction", "reference_impedance"]
  | .sampler => ["processing", "sampler"]
  | .smoothFactor => ["processing", "smooth_factor"]
  | .smoothMode => ["processing", "smooth_mode"]
  | .domain => ["processing", "domain"]
  | .response => ["processing", "function"]
  | .window => ["processing", "window"]

def path (l : Leaf) : String := l.parts.foldl (fun s part => s ++ "/" ++ part) ""

end Leaf

namespace Settings

/-- Sets the leaf at a path to the value of a text. The answer is the length of the
text in bytes, all of which was consumed. -/
def setText (s : Settings) (path text : String) : Except SettingsError Nat × Settings :=
  match Leaf.ofPath path with
  | .error e => (.error (.path e), s)
  | .ok l =>
    match l.read text.toList with
    | .error e => (.error (.value e), s)
    | .ok (v, rest) =>
      (if Json.skipBlanks rest = [] then .ok text.utf8ByteSize else .error .trailingCharacters,
       l.set s v)

/-- Sets leaves one after the other. One that cannot be set is passed over. -/
def setAll (s : Settings) (leaves : List (String × String)) : Settings :=
  leaves.foldl (fun s (path, text) => (s.setText path text).2) s

/-- The text of the leaf at a path, if it fits a buffer of `capacity` bytes. -/
def getText (s : Settings) (path : String) (capacity : Nat) : Except SettingsError String :=
  match Leaf.ofPath path with
  | .error e => .error (.path e)
  | .ok l =>
    let text := String.ofList (l.write (l.get s))
    if text.utf8ByteSize ≤ capacity then .ok text else .error .bufferFull

end Settings

end NetworkAnalyzer
