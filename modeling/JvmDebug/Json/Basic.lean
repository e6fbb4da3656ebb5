import JvmDebug.Decimal.Binary

/-!
# JSON values

A JSON value as the adapter works with it. An object is a list of fields; `Json.object` builds one in the only form
that is ever printed: names in order, each name once, the last of several fields of one name being the one that
counts. Numbers are whole, or 64-bit floating point.
-/

namespace JvmDebug
set_option autoImplicit false

inductive Json where
  | null
  | bool (b : Bool)
  | int (n : Int)
  | float (x : Binary.Double)
  | str (s : String)
  | arr (items : List Json)
  | obj (fields : List (String × Json))
  deriving Inhabited

namespace Json

/-- Puts a field into a list that is ordered by name, in place of a field of that name. -/
def insertField (name : String) (value : Json) : List (String × Json) → List (String × Json)
  | [] => [(name, value)]
  | (n, v) :: rest =>
    if name < n then (name, value) :: (n, v) :: rest
    else if n = name then (name, value) :: rest
    else (n, v) :: insertField name value rest

def object (fields : List (String × Json)) : Json :=
  .obj (fields.foldl (fun ordered f => insertField f.1 f.2 ordered) [])

/-- The field of an object. -/
def get? (name : String) : Json → Option Json
  | .obj fields => (fields.find? (·.1 == name)).map (·.2)
  | _ => none

/-- The object with one field set; other values stay as they are. -/
def setField (name : String) (value : Json) : Json → Json
  | .obj fields => .obj (insertField name value fields)
  | other => other

def string? : Json → Option String
  | .str s => some s
  | _ => none

def strings (items : List String) : Json := .arr (items.map .str)

/-- The field list of an optional value: no field if there is none. -/
def optional (name : String) (value : Option Json) : List (String × Json) :=
  match value with
  | some v => [(name, v)]
  | none => []

end Json
end JvmDebug
