import JvmDebug.Jdwp.Value

/-!
# What a machine tells about classes

Classes, their fields and methods, the lines of a method and its local variables, with the questions that are answered
from these tables.
-/

namespace JvmDebug.Jdwp
set_option autoImplicit false

structure LoadedClass where
  typeTag : UInt8
  id : ClassId
  deriving DecidableEq, Repr

/-- A class with its signature and the state of its initialization. -/
structure ClassInfo where
  typeTag : UInt8
  id : ClassId
  signature : String
  status : Int32
  deriving DecidableEq, Repr

def ClassInfo.toLoaded (c : ClassInfo) : LoadedClass := ⟨c.typeTag, c.id⟩

/-- The layout of a class that was found by its signature, which is left out. -/
def ClassInfo.layout (c : ClassInfo) : Bytes := c.typeTag :: (Layout.u64 c.id ++ Layout.i32 c.status)

structure Field where
  id : FieldId
  name : String
  signature : String
  modifiers : Int32
  deriving DecidableEq, Repr

namespace Field

def isStatic (f : Field) : Bool := f.modifiers &&& 0x0008 ≠ 0

/-- Whether the compiler made the field; machines mark this in the four highest bits. -/
def isSynthetic (f : Field) : Bool := f.modifiers.toUInt32 &&& 0xf0000000 ≠ 0

def layout (f : Field) : Bytes :=
  Layout.u64 f.id ++ Layout.string f.name ++ Layout.string f.signature ++ Layout.i32 f.modifiers

end Field

structure Method where
  id : MethodId
  name : String
  signature : String
  modifiers : Int32
  deriving DecidableEq, Repr

def Method.layout (m : Method) : Bytes :=
  Layout.u64 m.id ++ Layout.string m.name ++ Layout.string m.signature ++ Layout.i32 m.modifiers

/-- A line of source begins at a place in the code. -/
structure LineEntry where
  index : UInt64
  line : Int32
  deriving DecidableEq, Repr

def LineEntry.layout (e : LineEntry) : Bytes := Layout.u64 e.index ++ Layout.i32 e.line

/-- The lines of a method, with the first and last place in its code. -/
structure LineTable where
  first : Int64
  last : Int64
  entries : List LineEntry
  deriving DecidableEq, Repr

namespace LineTable

/-- Of two entries the one that begins later; the second if they begin together. -/
def later (a b : LineEntry) : LineEntry := if a.index ≤ b.index then b else a

/-- The line of a place in the code: that of the last entry which does not begin after it. -/
def lineAt? (t : LineTable) (index : UInt64) : Option Int32 :=
  match t.entries.filter (·.index ≤ index) with
  | [] => none
  | e :: rest => some (rest.foldl later e).line

/-- The least place in the code at which a line begins. -/
def firstIndexOf? (t : LineTable) (line : Int32) : Option UInt64 :=
  match t.entries.filter (·.line = line) with
  | [] => none
  | e :: rest => some (rest.foldl (fun least e => if e.index < least then e.index else least) e.index)

end LineTable

/-- A local variable, and the part of the code in which it is in scope. -/
structure VariableEntry where
  start : UInt64
  name : String
  signature : String
  length : UInt32
  slot : UInt32
  deriving DecidableEq, Repr

def VariableEntry.isLiveAt (v : VariableEntry) (index : UInt64) : Bool :=
  v.start ≤ index && index < v.start + v.length.toUInt64

def VariableEntry.layout (v : VariableEntry) : Bytes :=
  Layout.u64 v.start ++ Layout.string v.name ++ Layout.string v.signature ++ Layout.u32 v.length ++ Layout.u32 v.slot

structure Frame where
  id : FrameId
  location : Location
  deriving DecidableEq, Repr

def Frame.layout (f : Frame) : Bytes := Layout.u64 f.id ++ f.location.layout

structure Version where
  description : String
  major : Int32
  minor : Int32
  version : String
  name : String
  deriving DecidableEq, Repr

/-- How many bytes the ids of each kind have. -/
structure IdSizes where
  field : Int32
  method : Int32
  object : Int32
  referenceType : Int32
  frame : Int32
  deriving DecidableEq, Repr

namespace IdSizes

def toList (s : IdSizes) : List Int32 := [s.field, s.method, s.object, s.referenceType, s.frame]

def allEqual (s : IdSizes) (size : Int32) : Bool := s.toList.all (· = size)

/-- The size that all ids must have. -/
def supported : Int32 := 8

def text (s : IdSizes) : String :=
  block "VmIdSizes"
    [("field_id_size", toString s.field), ("method_id_size", toString s.method), ("object_id_size", toString s.object),
      ("reference_type_id_size", toString s.referenceType), ("frame_id_size", toString s.frame)]

end IdSizes
end JvmDebug.Jdwp
