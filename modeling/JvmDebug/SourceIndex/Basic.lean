import JvmDebug.Path

/-!
# The source index

Which classes a source is compiled into, and which source a class comes from. Sources are named by their paths below
the workspace root. The binary names of a source are kept in order and each once; if a class is listed for several
sources, the last of them counts as the one it comes from.
-/

namespace JvmDebug
set_option autoImplicit false

structure SourceIndex where
  bySource : PathMap (List String) := []
  byClass : List (String × Path) := []

namespace SourceIndex

def insertName (name : String) : List String → List String
  | [] => [name]
  | n :: rest => if name < n then name :: n :: rest else if n = name then n :: rest else n :: insertName name rest

def insert (index : SourceIndex) (source : Path) (name : String) : SourceIndex where
  bySource := PathMap.insert source (insertName name ((index.bySource.find? source).getD [])) index.bySource
  byClass := (name, source) :: index.byClass.filter (·.1 ≠ name)

def isEmpty (index : SourceIndex) : Bool := index.bySource.isEmpty

def binaryNames (index : SourceIndex) (source : Path) : List String := (index.bySource.find? source).getD []

/-- What stands before the first dollar sign of a name: the class around all nested ones. -/
def outermost (name : String) : String := String.ofList (name.toList.takeWhile (· ≠ '$'))

def listed? (index : SourceIndex) (name : String) : Option Path := (index.byClass.find? (·.1 = name)).map (·.2)

/-- The source of a class; a class that is not listed comes from the source of the class around it. -/
def source? (index : SourceIndex) (name : String) : Option Path := (index.listed? name).or (index.listed? (outermost name))

end SourceIndex
end JvmDebug
