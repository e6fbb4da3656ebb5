import JvmDebug.Jdwp.Class
import JvmDebug.Jdwp.Modifier
import JvmDebug.Jdwp.Packet
import JvmDebug.Jdwp.Signature

/-!
# Queries

A query is a command together with the way its reply is read. A reply with an error code is that error, whatever its
data; of any other reply the query reads what it needs and leaves the rest.
-/

namespace JvmDebug.Jdwp
set_option autoImplicit false

structure Query (α : Type) where
  command : Command
  reader : Reader α

namespace Query

def answer {α : Type} (q : Query α) (reply : Reply) : Except Error α := reply.check >>= q.reader.value

def of {α : Type} (set number : UInt8) (body : Bytes) (reader : Reader α) : Query α := ⟨⟨set, number, body⟩, reader⟩

def order (set number : UInt8) (body : Bytes) : Query Unit := of set number body (return ())

/-! The whole machine -/

def version : Query Version :=
  of 1 1 [] do
    return {
      description := ← Reader.string
      major := ← Reader.i32
      minor := ← Reader.i32
      version := ← Reader.string
      name := ← Reader.string }

/-- The loaded classes with a signature; the reply leaves it out. -/
def classesBySignature (signature : String) : Query (List ClassInfo) :=
  of 1 2 (Layout.string signature) <| Reader.list do
    return { typeTag := ← Reader.u8, id := ← Reader.u64, signature, status := ← Reader.i32 }

def allThreads : Query (List ThreadId) := of 1 4 [] (Reader.list Reader.u64)

def dispose : Query Unit := order 1 6 []

def idSizes : Query IdSizes :=
  of 1 7 [] do
    return {
      field := ← Reader.i32
      method := ← Reader.i32
      object := ← Reader.i32
      referenceType := ← Reader.i32
      frame := ← Reader.i32 }

def suspendAll : Query Unit := order 1 8 []
def resumeAll : Query Unit := order 1 9 []
def exit (code : Int32) : Query Unit := order 1 10 (Layout.i32 code)

/-! Classes and methods -/

def signature (classId : ClassId) : Query String := of 2 1 (Layout.u64 classId) Reader.string

def fields (classId : ClassId) : Query (List Field) :=
  of 2 4 (Layout.u64 classId) <| Reader.list do
    return { id := ← Reader.u64, name := ← Reader.string, signature := ← Reader.string, modifiers := ← Reader.i32 }

def methods (classId : ClassId) : Query (List Method) :=
  of 2 5 (Layout.u64 classId) <| Reader.list do
    return { id := ← Reader.u64, name := ← Reader.string, signature := ← Reader.string, modifiers := ← Reader.i32 }

def sourceFile (classId : ClassId) : Query String := of 2 7 (Layout.u64 classId) Reader.string

def lineTable (classId : ClassId) (methodId : MethodId) : Query LineTable :=
  of 6 1 (Layout.u64 classId ++ Layout.u64 methodId) do
    return {
      first := ← Reader.i64
      last := ← Reader.i64
      entries := ← Reader.list do return { index := ← Reader.u64, line := ← Reader.i32 } }

/-- The local variables of a method; their list follows the number of argument slots. -/
def variableTable (classId : ClassId) (methodId : MethodId) : Query (List VariableEntry) :=
  of 6 2 (Layout.u64 classId ++ Layout.u64 methodId) do
    let _ ← Reader.i32
    Reader.list do
      return {
        start := ← Reader.u64
        name := ← Reader.string
        signature := ← Reader.string
        length := ← Reader.u32
        slot := ← Reader.u32 }

/-! Objects -/

def classOf (object : ObjectId) : Query ClassId :=
  of 9 1 (Layout.u64 object) do
    let _ ← Reader.u8
    Reader.u64

def objectValues (object : ObjectId) (fields : List FieldId) : Query (List Value) :=
  of 9 2 (Layout.u64 object ++ Layout.list Layout.u64 fields) (Reader.list Reader.tagged)

def stringValue (object : ObjectId) : Query String := of 10 1 (Layout.u64 object) Reader.string

def arrayLength (array : ObjectId) : Query Int32 := of 13 1 (Layout.u64 array) Reader.i32

def arrayValues (array : ObjectId) (first length : Int32) : Query (List Value) :=
  of 13 2 (Layout.u64 array ++ Layout.i32 first ++ Layout.i32 length) Reader.arrayRegion

/-! Threads and their frames -/

def threadName (thread : ThreadId) : Query String := of 11 1 (Layout.u64 thread) Reader.string
def suspend (thread : ThreadId) : Query Unit := order 11 2 (Layout.u64 thread)
def resume (thread : ThreadId) : Query Unit := order 11 3 (Layout.u64 thread)

/-- Frames of a thread from `start` on; a length of -1 means all of them. -/
def frames (thread : ThreadId) (start length : Int32) : Query (List Frame) :=
  of 11 6 (Layout.u64 thread ++ Layout.i32 start ++ Layout.i32 length) <| Reader.list do
    return { id := ← Reader.u64, location := ← Reader.location }

/-- A slot of a frame, and the first byte of the signature of its variable. -/
structure Slot where
  slot : UInt32
  lead : UInt8
  deriving DecidableEq, Repr

def Slot.of (slot : UInt32) (signature : String) : Slot := ⟨slot, Signature.leadByte signature⟩

def Slot.layout (s : Slot) : Bytes := Layout.u32 s.slot ++ [s.lead]

def frameValues (thread : ThreadId) (frame : FrameId) (slots : List Slot) : Query (List Value) :=
  of 16 1 (Layout.u64 thread ++ Layout.u64 frame ++ Layout.list Slot.layout slots) (Reader.list Reader.tagged)

/-- The `this` of a frame; frames of static and native methods have none. -/
def thisObject (thread : ThreadId) (frame : FrameId) : Query (Option ObjectId) :=
  of 16 3 (Layout.u64 thread ++ Layout.u64 frame) do
    let this ← Reader.taggedObject
    return if this.id = 0 then none else some this.id

/-! Event requests -/

def setRequest (r : EventRequest) : Query RequestId := of 15 1 r.layout Reader.i32

def clearRequest (kind : UInt8) (request : RequestId) : Query Unit := order 15 2 (kind :: Layout.i32 request)

end Query
end JvmDebug.Jdwp
