import JvmDebug.Json.Cursor

/-!
# Target files

For each target the build leaves a file that lists the sources of the target, and the classes they were compiled into.
-/

namespace JvmDebug
set_option autoImplicit false

/-- A source of a target with the binary names of its classes. -/
structure TargetSource where
  path : String
  names : List String
  deriving DecidableEq, Repr

namespace TargetSource

open Json (Cursor)
open Json.Cursor (Reader)

/-- The fields of a source as far as they have been read. -/
structure Draft where
  path : Option String := none
  names : Option (List String) := none

def Draft.field (name : String) (d : Draft) : Reader Draft := do
  if name = "path" then return { d with path := ← Cursor.once name d.path Cursor.string }
  else if name = "jvmNames" then return { d with names := ← Cursor.once name d.names (Cursor.list Cursor.string) }
  else
    Cursor.ignore
    return d

/-- A source from its fields; the names may be left out. -/
def ofFields : Reader TargetSource := do
  let d ← Cursor.fields Draft.field (← Cursor.fuel) true {}
  match d.path with
  | some path => return ⟨path, d.names.getD []⟩
  | none => Cursor.failBehind '\x7d' (.missing "path")

def ofItems : Reader TargetSource := do
  if ← Cursor.hasItem true then
    let path ← Cursor.string
    let names ← if ← Cursor.hasItem false then Cursor.list Cursor.string else pure []
    return ⟨path, names⟩
  else Cursor.failBehind ']' (.wrongLength 0 "struct SourceFileInfo with 2 elements")

def read : Reader TargetSource := Cursor.record "struct SourceFileInfo" ofItems ofFields

def targetField (name : String) (sources : Option (List TargetSource)) : Reader (Option (List TargetSource)) := do
  if name = "sourceFiles" then Cursor.once name sources (Cursor.list read)
  else
    Cursor.ignore
    return sources

/-- The sources that a target lists; a target may list none. -/
def readTarget : Reader (List TargetSource) :=
  Cursor.record "struct TargetInfo"
    (do if ← Cursor.hasItem true then Cursor.list read else return [])
    (do return (← Cursor.fields targetField (← Cursor.fuel) true none).getD [])

/-- The sources that a target file lists, or why it cannot be read. -/
def ofFile (content : Bytes) : Except String (List TargetSource) :=
  match Utf8.decode content with
  | .error _ => .error "stream did not contain valid UTF-8"
  | .ok _ => (Cursor.readAll readTarget content).mapError fun fault => fault.message content

end TargetSource
end JvmDebug
