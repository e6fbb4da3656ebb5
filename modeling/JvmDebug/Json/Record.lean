import JvmDebug.Json.Basic

/-!
# Reading records from JSON

A record is read from an object, whose fields are looked at in the order of their names, or from an array that lists
its fields by position. What is wrong with a value is found in the order of the value, before any field that is
missing; a field may have a second name, and may not be given under both.
-/

namespace JvmDebug
set_option autoImplicit false

namespace Json

/-- Why a value is not what was asked for. -/
inductive Mismatch where
  | missing (field : String)
  | repeated (field : String)
  | unfit
  deriving DecidableEq, Repr

abbrev Reading (α : Type) := Json → Except Mismatch α

namespace Reading

def text : Reading String
  | .str s => .ok s
  | _ => .error .unfit

def flag : Reading Bool
  | .bool b => .ok b
  | _ => .error .unfit

/-- A whole number in a range; floating-point numbers are not whole, whatever their value. -/
def integer (low high : Int) : Reading Int
  | .int n => if low ≤ n ∧ n ≤ high then .ok n else .error .unfit
  | _ => .error .unfit

def int64 : Reading Int := integer (-0x8000000000000000) 0x7FFFFFFFFFFFFFFF
def uint64 : Reading Int := integer 0 0xFFFFFFFFFFFFFFFF
def uint16 : Reading Int := integer 0 0xFFFF

def any : Reading Json := .ok

/-- Null stands for no value. -/
def option {α : Type} (read : Reading α) : Reading (Option α)
  | .null => .ok none
  | j => (read j).map some

def list {α : Type} (read : Reading α) : Reading (List α)
  | .arr items => items.mapM read
  | _ => .error .unfit

end Reading

/-- A field that a record knows: its name, a second name, and which values it takes. -/
structure Slot where
  name : String
  other : Option String
  check : Reading Unit

def Slot.of {α : Type} (name : String) (read : Reading α) : Slot := ⟨name, none, fun j => (read j).map fun _ => ()⟩

def Slot.orNamed (s : Slot) (name : String) : Slot := { s with other := some name }

def Slot.isNamed (s : Slot) (name : String) : Bool := s.name == name || s.other == some name

/-- The fields of a record as found in a value. `unknown` holds the fields that the record does not know. -/
structure Found where
  given : List (String × Json)
  unknown : List (String × Json)
  positional : Bool

namespace Found

def value? (f : Found) (name : String) : Option Json := (f.given.find? (·.1 == name)).map (·.2)

/-- A field that has to be there. In an array nothing but its place would name it. -/
def required {α : Type} (f : Found) (name : String) (read : Reading α) : Except Mismatch α :=
  match f.value? name with
  | some j => read j
  | none => .error (if f.positional then .unfit else .missing name)

def orElse {α : Type} (f : Found) (name : String) (read : Reading α) (absent : α) : Except Mismatch α :=
  match f.value? name with
  | some j => read j
  | none => .ok absent

/-- A field that an object may leave out, but an array may not. -/
def optional {α : Type} (f : Found) (name : String) (read : Reading α) : Except Mismatch (Option α) :=
  match f.value? name with
  | some j => Reading.option read j
  | none => if f.positional then .error .unfit else .ok none

end Found

def addField (slots : List Slot) (found : Found) (name : String) (j : Json) : Except Mismatch Found :=
  match slots.find? (·.isNamed name) with
  | none => .ok { found with unknown := found.unknown ++ [(name, j)] }
  | some slot =>
    if found.given.any (·.1 == slot.name) then .error (.repeated slot.name)
    else do
      slot.check j
      return { found with given := found.given ++ [(slot.name, j)] }

def ofFields (slots : List Slot) (fields : List (String × Json)) : Except Mismatch Found :=
  fields.foldlM (fun found f => addField slots found f.1 f.2) ⟨[], [], false⟩

def ofItems : List Slot → List Json → Found → Except Mismatch Found
  | _, [], found => .ok found
  | [], _ :: _, _ => .error .unfit
  | slot :: slots, j :: rest, found => do
    slot.check j
    ofItems slots rest { found with given := found.given ++ [(slot.name, j)] }

/-- Reads a record from an object or from an array. -/
def record {α : Type} (slots : List Slot) (build : Found → Except Mismatch α) : Reading α
  | .obj fields => ofFields slots fields >>= build
  | .arr items => ofItems slots items ⟨[], [], true⟩ >>= build
  | _ => .error .unfit

/-- Reads a record that shares its object with another record; only an object can hold both. -/
def sharedRecord {α : Type} (slots : List Slot) (build : Found → Except Mismatch α) : Reading α
  | .obj fields => ofFields slots fields >>= build
  | _ => .error .unfit

end Json
end JvmDebug
