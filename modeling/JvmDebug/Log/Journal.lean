import JvmDebug.Log
import JvmDebug.Path

/-!
# The journal

What is kept of log records: the client chooses a level, and may have the records written to a file.
-/

namespace JvmDebug.Log
set_option autoImplicit false

structure Journal where
  choice : Choice := .info
  /-- The file to which records are added, once there is one. -/
  file : Option Path := none
  /-- The records that have been written, each with its file; oldest first. -/
  written : List (Path × Record) := []

namespace Journal

def admits (j : Journal) (r : Record) : Bool := j.choice.admits r.level

/-- Writes a record to the file. -/
def write (j : Journal) (r : Record) : Journal :=
  match j.file with
  | some file => { j with written := j.written ++ [(file, r)] }
  | none => j

/-- The records of a file. -/
def recordsOf (j : Journal) (file : Path) : List Record := (j.written.filter (·.1 == file)).map (·.2)

end Journal
end JvmDebug.Log
