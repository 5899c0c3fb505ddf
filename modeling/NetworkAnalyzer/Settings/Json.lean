import NetworkAnalyzer.Decimal.Reading
import NetworkAnalyzer.Decimal.Shortest
import NetworkAnalyzer.Names

/-!
# Values as text

A settings value is exchanged as a JSON text: whole numbers, `true` and `false`, decimals, and names
in quotes. A reader takes its value off the front of the text, after blanks, and leaves the rest;
what may follow is not its business.

* A whole number is at most what its type holds. A leading zero is the complete number, so `01` is 0
  with `1` left over.
* A decimal is the longest run of characters that may stand in one, and has to be a decimal as a
  whole. `null` is no number. Singles are written shortest, plainly from `10 ^ -6` to below `10 ^
  13`.
* A variant is its name in quotes, or an object with that name as its one member, which is null.
  Names are compared as written, without resolving escapes.
-/

namespace NetworkAnalyzer.Json

inductive ValueError where
  | endInValue
  | endInString
  | endInObject
  | invalidNumber
  | invalidType
  | expectedName
  | expectedValue
  | expectedColon
  /-- No variant has this name. -/
  | unknownVariant
  deriving DecidableEq, Repr

def ValueError.name : ValueError → String
  | .endInValue => "EofWhileParsingValue"
  | .endInString => "EofWhileParsingString"
  | .endInObject => "EofWhileParsingObject"
  | .invalidNumber => "InvalidNumber"
  | .invalidType => "InvalidType"
  | .expectedName => "ExpectedSomeIdent"
  | .expectedValue => "ExpectedSomeValue"
  | .expectedColon => "ExpectedColon"
  | .unknownVariant => "CustomError"

abbrev Reader (α : Type) := List Char → Except ValueError (α × List Char)

def isBlank (c : Char) : Bool := c == ' ' || c == '\t' || c == '\n' || c == '\r'

def skipBlanks (cs : List Char) : List Char := cs.dropWhile isBlank

/-- The rest of a word that has been recognized by its first letter. -/
def readWord (rest : List Char) (cs : List Char) : Except ValueError (List Char) :=
  if rest.isPrefixOf cs then .ok (cs.drop rest.length) else .error .expectedName

/-! ## Whole numbers -/

/-- Digits appended to `n`, as long as the number stays at most `max`. -/
def readDigits (max : Nat) : (n : Nat) → Reader Nat
  | n, [] => .ok (n, [])
  | n, c :: cs =>
    if c.isDigit then
      let m := 10 * n + (c.toNat - 48)
      if m ≤ max then readDigits max m cs else .error .invalidNumber
    else .ok (n, c :: cs)

/-- A whole number up to `max`. A leading zero is the complete number. -/
def readNat (max : Nat) : Reader Nat := fun cs =>
  match skipBlanks cs with
  | [] => .error .endInValue
  | '-' :: _ => .error .invalidNumber
  | '0' :: rest => .ok (0, rest)
  | c :: rest => if c.isDigit then readDigits max 0 (c :: rest) else .error .invalidType

def writeNat (n : Nat) : List Char := Decimal.digits n

/-! ## Truth values -/

def readBool : Reader Bool := fun cs =>
  match skipBlanks cs with
  | [] => .error .endInValue
  | 't' :: rest => (readWord ['r', 'u', 'e'] rest).map fun rest => (true, rest)
  | 'f' :: rest => (readWord ['a', 'l', 's', 'e'] rest).map fun rest => (false, rest)
  | _ => .error .invalidType

def writeBool (b : Bool) : List Char := if b then "true".toList else "false".toList

/-! ## Decimals -/

def isDecimal (c : Char) : Bool :=
  c.isDigit || c == '+' || c == '-' || c == '.' || c == 'e' || c == 'E'

/-- A single; `null` is no number. -/
def readSingle : Reader Float32 := fun cs =>
  match skipBlanks cs with
  | [] => .error .endInValue
  | 'n' :: rest => (readWord ['u', 'l', 'l'] rest).map fun rest => (0 / 0, rest)
  | cs =>
    match Decimal.read? (cs.takeWhile isDecimal) with
    | some x => .ok (x, cs.dropWhile isDecimal)
    | none => .error .invalidNumber

def singleLayout : Decimal.Layout := { minPoint := -5, maxPoint := 13, nonFinite := "null" }

def writeSingle (x : Float32) : List Char := singleLayout.write x

/-! ## Names -/

/-- The raw text up to the closing quote, after an opening one; a quote after an odd
number of backslashes does not close. -/
def readQuoted (escaped : Bool) : Reader (List Char)
  | [] => .error .endInString
  | c :: cs =>
    if c = '"' ∧ escaped = false then .ok ([], cs)
    else (readQuoted (c == '\\' && !escaped) cs).map fun (s, rest) => (c :: s, rest)

def lookup {α : Type} (variants : NameTable α) (name : List Char) : Except ValueError α :=
  match variants.ofName? (String.ofList name) with
  | some v => .ok v
  | none => .error .unknownVariant

/-- A name in quotes and the variant it stands for. -/
def readName {α : Type} (variants : NameTable α) : Reader α := fun cs => do
  let (name, rest) ← readQuoted false cs
  let v ← lookup variants name
  return (v, rest)

/-- What follows the name in an object that spells a variant: a colon, `null` and the
closing brace. -/
def readUnitBody : List Char → Except ValueError (List Char) := fun cs => do
  let cs ← match skipBlanks cs with
    | [] => .error .endInObject
    | ':' :: rest => .ok rest
    | _ => .error .expectedColon
  let cs ← match skipBlanks cs with
    | [] => .error .endInValue
    | 'n' :: rest => readWord ['u', 'l', 'l'] rest
    | _ => .error .invalidType
  match skipBlanks cs with
    | [] => .error .endInValue
    | '}' :: rest => .ok rest
    | _ => .error .expectedValue

/-- A variant: its name in quotes, or an object with that one member, which is null. -/
def readVariant {α : Type} (variants : NameTable α) : Reader α := fun cs =>
  match skipBlanks cs with
  | [] => .error .endInValue
  | '"' :: rest => readName variants rest
  | '{' :: rest =>
    match skipBlanks rest with
    | [] => .error .endInValue
    | '"' :: rest => do
      let (v, rest) ← readName variants rest
      let rest ← readUnitBody rest
      return (v, rest)
    | _ => .error .invalidType
  | _ => .error .expectedValue

def writeQuoted (name : String) : List Char := '"' :: name.toList ++ ['"']

end NetworkAnalyzer.Json
