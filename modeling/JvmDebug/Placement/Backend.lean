import JvmDebug.Jdwp.Wire

/-!
# What placing breakpoints needs of a machine

The calls by which breakpoints, watches for classes and the request for exceptions come into a machine and out of it
again, and how they are put to a real one.
-/

namespace JvmDebug
set_option autoImplicit false

open Jdwp (LoadedClass Location RequestId Wire)

namespace Backend

inductive Call where
  | loadedClasses (name : String)
  /-- Where a line of a class begins: in each method that has it, the first place with that line. -/
  | lineLocations (c : LoadedClass) (line : UInt32)
  | setBreakpoint (l : Location)
  | clearBreakpoint (request : RequestId)
  /-- Tell when classes are prepared whose names match the pattern. -/
  | setWatch (pattern : String)
  | clearWatch (request : RequestId)
  | setException (caught uncaught : Bool)
  | clearException (request : RequestId)
  deriving DecidableEq, Repr

abbrev Answer : Call → Type
  | .loadedClasses _ => Except Jdwp.Error (List LoadedClass)
  | .lineLocations .. => Except Jdwp.Error (List Location)
  | .setBreakpoint _ | .setWatch _ | .setException .. => Except Jdwp.Error RequestId
  | .clearBreakpoint _ | .clearWatch _ | .clearException _ => Except Jdwp.Error Unit

end Backend

def Backend : Interface := ⟨Backend.Call, Backend.Answer⟩

namespace Backend

variable {S : Type}

/-- The location of a line in a method, by its line table. -/
def locationIn? (c : LoadedClass) (line : UInt32) (m : Jdwp.Method) (t : Jdwp.LineTable) : Option Location :=
  (t.firstIndexOf? line.toInt32).map fun index => ⟨c.typeTag, c.id, m.id, index⟩

/-- The locations of a line in the methods of a class. Methods without a line table have none. -/
def locationsIn (c : LoadedClass) (line : UInt32) :
    List Jdwp.Method → Routine S Wire (Except Jdwp.Error (List Location))
  | [] => return .ok []
  | m :: rest => do
    match ← Jdwp.ask (Jdwp.Query.lineTable c.id m.id) with
    | .error e => if e.isDisconnect then return .error e else locationsIn c line rest
    | .ok t => return ((locationIn? c line m t).toList ++ ·) <$> (← locationsIn c line rest)

/-- The calls as a machine answers them. What is placed stops only the thread that runs into it. -/
def serve : (c : Call) → Routine S Wire (Answer c)
  | .loadedClasses name => do
    return (·.map (·.toLoaded)) <$> (← Jdwp.ask (Jdwp.Query.classesBySignature (Jdwp.Signature.ofBinaryName name)))
  | .lineLocations c line => do
    match ← Jdwp.ask (Jdwp.Query.methods c.id) with
    | .ok methods => locationsIn c line methods
    | .error e => return .error e
  | .setBreakpoint l => Jdwp.place (.breakpoint l .eventThread)
  | .clearBreakpoint request => Jdwp.withdraw .breakpoint request
  | .setWatch pattern => Jdwp.place (.classPrepare pattern .eventThread)
  | .clearWatch request => Jdwp.withdraw .classPrepare request
  | .setException caught uncaught => Jdwp.place (.exception caught uncaught .eventThread)
  | .clearException request => Jdwp.withdraw .exception request

end Backend
end JvmDebug
