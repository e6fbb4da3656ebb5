import JvmDebug.Path

/-!
# Sources

A source file is known by its path. Lines and columns count from 1 everywhere but at the border to the client.
-/

namespace JvmDebug
set_option autoImplicit false

structure Source where
  name : String
  path : Path

namespace Source

/-- The source at a path, named after the last component of it. -/
def ofPath (path : Path) : Source := ⟨path.fileName?.getD path.text, path⟩

/-- The path below `root`, or the whole path if the source lies elsewhere. -/
def relativeTo (s : Source) (root : Path) : Path := s.path.relativeTo root

end Source

structure Position where
  source : Source
  line : UInt32
  column : Option UInt32

end JvmDebug
