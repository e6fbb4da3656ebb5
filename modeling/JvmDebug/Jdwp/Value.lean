import JvmDebug.Jdwp.Reader
import JvmDebug.Decimal.Shortest

/-!
# Values

The values a machine sends: primitives, references to objects, and void. A value is preceded by a tag, unless its type
is known from the context. A tag is primitive, a kind of reference, or void.
-/

namespace JvmDebug.Jdwp
set_option autoImplicit false

abbrev ObjectId := UInt64
abbrev ThreadId := UInt64
abbrev ClassId := UInt64
abbrev MethodId := UInt64
abbrev FieldId := UInt64
abbrev FrameId := UInt64

/-- The number a machine gives to an event request. -/
abbrev RequestId := Int32

inductive ReferenceKind where
  | array
  | object
  | string
  | thread
  | threadGroup
  | classLoader
  | classObject
  deriving DecidableEq, Repr

inductive Tag where
  | byte
  | char
  | float
  | double
  | int
  | long
  | short
  | boolean
  | void
  | reference (kind : ReferenceKind)
  deriving DecidableEq, Repr

namespace Tag

def letter : Tag → Char
  | byte => 'B'
  | char => 'C'
  | float => 'F'
  | double => 'D'
  | int => 'I'
  | long => 'J'
  | short => 'S'
  | boolean => 'Z'
  | void => 'V'
  | reference .array => '['
  | reference .object => 'L'
  | reference .string => 's'
  | reference .thread => 't'
  | reference .threadGroup => 'g'
  | reference .classLoader => 'l'
  | reference .classObject => 'c'

def toByte (t : Tag) : UInt8 := t.letter.toNat.toUInt8

def all : List Tag :=
  [byte, char, float, double, int, long, short, boolean, void, reference .array, reference .object, reference .string,
    reference .thread, reference .threadGroup, reference .classLoader, reference .classObject]

def ofByte? (b : UInt8) : Option Tag := all.find? (·.toByte = b)

theorem ofByte?_toByte (t : Tag) : ofByte? t.toByte = some t := by
  cases t with
  | reference kind => cases kind <;> decide
  | _ => decide

def isPrimitive : Tag → Bool
  | void | reference _ => false
  | _ => true

def isReference : Tag → Bool
  | reference _ => true
  | _ => false

end Tag

/-- A value. Floating-point numbers are kept as their bits, characters as UTF-16 units. -/
inductive Value where
  | byte (v : Int8)
  | char (unit : UInt16)
  | float (bits : UInt32)
  | double (bits : UInt64)
  | int (v : Int32)
  | long (v : Int64)
  | short (v : Int16)
  | boolean (v : Bool)
  | reference (kind : ReferenceKind) (id : ObjectId)
  | void
  deriving DecidableEq, Repr

namespace Value

def tag : Value → Tag
  | byte _ => .byte
  | char _ => .char
  | float _ => .float
  | double _ => .double
  | int _ => .int
  | long _ => .long
  | short _ => .short
  | boolean _ => .boolean
  | reference kind _ => .reference kind
  | void => .void

/-- The object a value refers to; null refers to none. -/
def objectId? : Value → Option ObjectId
  | reference _ id => if id = 0 then none else some id
  | _ => none

/-- The character of a UTF-16 unit, with a question mark for half of a surrogate pair. -/
def unitChar (unit : UInt16) : Char := if 0xD800 ≤ unit ∧ unit < 0xE000 then '?' else Char.ofNat unit.toNat

/-- A value as a debugger shows it in one line. Objects are known by their number. -/
def text : Value → String
  | byte v => toString v
  | char unit => s!"'{unitChar unit}'"
  | float bits => Decimal.display Binary.single bits.toNat ++ "f"
  | double bits => Decimal.display Binary.double bits.toNat
  | int v => toString v
  | long v => s!"{v}L"
  | short v => toString v
  | boolean v => if v then "true" else "false"
  | reference _ id => if id = 0 then "null" else s!"@{Hex.ofNat id.toNat}"
  | void => "void"

/-- The layout of a value without its tag. -/
def layout : Value → Bytes
  | byte v => Layout.i8 v
  | char unit => Layout.u16 unit
  | float bits => Layout.u32 bits
  | double bits => Layout.u64 bits
  | int v => Layout.i32 v
  | long v => Layout.i64 v
  | short v => Layout.i16 v
  | boolean v => Layout.flag v
  | reference _ id => Layout.u64 id
  | void => []

def taggedLayout (v : Value) : Bytes := v.tag.toByte :: v.layout

/-- The layout of elements of an array, which carry their own tags only if they are references. -/
def regionLayout (elementTag : Tag) (values : List Value) : Bytes :=
  elementTag.toByte :: Layout.list (if elementTag.isReference then taggedLayout else layout) values

end Value

namespace Reader

/-- A value whose tag is known. -/
def untagged : Tag → Reader Value
  | .byte => return .byte (← i8)
  | .char => return .char (← u16)
  | .float => return .float (← f32)
  | .double => return .double (← f64)
  | .int => return .int (← i32)
  | .long => return .long (← i64)
  | .short => return .short (← i16)
  | .boolean => return .boolean ((← u8) ≠ 0)
  | .void => return .void
  | .reference kind => return .reference kind (← u64)

def untaggedByte (tag : UInt8) : Reader Value :=
  match Tag.ofByte? tag with
  | some tag => untagged tag
  | none => fail (.unknownTag tag)

def tagged : Reader Value := do untaggedByte (← u8)

/-- Elements of an array: the tag of the element type, their number, and the elements, which carry their own tags only
if they are references. -/
def arrayRegion : Reader (List Value) := do
  let elementTag ← u8
  let element : Reader Value :=
    match Tag.ofByte? elementTag with
    | some (.reference _) => tagged
    | some .void => fail (.unknownElementTag elementTag)
    | some tag => untagged tag
    | none => fail (.unknownElementTag elementTag)
  list element

end Reader

/-- An object with the tag of its kind. -/
structure TaggedObject where
  tag : UInt8
  id : ObjectId
  deriving DecidableEq, Repr

def Reader.taggedObject : Reader TaggedObject := return { tag := ← u8, id := ← u64 }

def TaggedObject.layout (o : TaggedObject) : Bytes := o.tag :: Layout.u64 o.id

/-- A record in full, for log records: its name, and its fields with their values. -/
def block (name : String) (fields : List (String × String)) : String :=
  name ++ " \x7b " ++ ", ".intercalate (fields.map fun (field, value) => field ++ ": " ++ value) ++ " \x7d"

/-- A place in the code of a class. `typeTag` tells classes from interfaces and arrays. -/
structure Location where
  typeTag : UInt8
  classId : ClassId
  methodId : MethodId
  index : UInt64
  deriving DecidableEq, Repr

namespace Location

/-- Where a place in the code is optional, class and method 0 stand for none. -/
def isNull (l : Location) : Bool := l.classId = 0 && l.methodId = 0

def text (l : Location) : String :=
  block "Location"
    [("type_tag", toString l.typeTag), ("class_id", toString l.classId), ("method_id", toString l.methodId),
      ("index", toString l.index)]

def layout (l : Location) : Bytes := l.typeTag :: (Layout.u64 l.classId ++ Layout.u64 l.methodId ++ Layout.u64 l.index)

end Location

def Reader.location : Reader Location :=
  return { typeTag := ← u8, classId := ← u64, methodId := ← u64, index := ← u64 }

/-- A location that may be missing. -/
def Reader.location? : Reader (Option Location) := do
  let l ← location
  return if l.isNull then none else some l

end JvmDebug.Jdwp
