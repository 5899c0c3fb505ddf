/-!
# Names

Variants and options are known by name wherever they are entered or shown: in the settings tree, in
requests, in reports. A table pairs each of them with its name, and `nameOf` and `ofName?` read it
in the two directions. A type that has names declares its table beside its constructors, so a new
variant and its name are added in one place.
-/

namespace NetworkAnalyzer

/-- Names of the members of a type. -/
abbrev NameTable (α : Type) := List (String × α)

namespace NameTable

variable {α : Type}

def nameOf [DecidableEq α] (t : NameTable α) (x : α) : String :=
  match t.find? fun n => n.2 == x with
  | some n => n.1
  | none => ""

def ofName? (t : NameTable α) (name : String) : Option α :=
  (t.find? fun n => n.1 == name).map (·.2)

end NameTable

end NetworkAnalyzer
