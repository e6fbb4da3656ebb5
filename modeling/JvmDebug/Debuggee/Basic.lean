import JvmDebug.Source
import JvmDebug.Jdwp.Class
import JvmDebug.Jdwp.Modifier

/-!
# What a debuggee shows

Threads, frames and variables of a stopped program, in the terms of its debugger, and the events that it publishes.
-/

namespace JvmDebug
set_option autoImplicit false

open Jdwp (ThreadId FrameId ObjectId)

structure ThreadInfo where
  id : ThreadId
  name : String
  deriving DecidableEq, Repr

inductive StepKind where
  | next
  | into
  | out
  deriving DecidableEq, Repr

def StepKind.depth : StepKind → Jdwp.StepDepth
  | next => .next
  | into => .into
  | out => .out

inductive ResumeOutcome where
  | resumed
  /-- The machine does not know the thread, or it is gone; nothing was resumed. -/
  | threadUnavailable
  deriving DecidableEq, Repr

/-- All that is needed to ask about one frame of a stopped thread. -/
structure FrameRef where
  thread : ThreadId
  id : FrameId
  location : Jdwp.Location
  deriving DecidableEq, Repr

structure StackFrame where
  name : String
  position : Option Position
  frame : FrameRef

/-- Something with children that can be looked at. -/
inductive VariableRef where
  | locals (frame : FrameRef)
  | object (thread : ThreadId) (id : ObjectId)
  | array (thread : ThreadId) (id : ObjectId) (length : Int32)
  deriving DecidableEq, Repr

/-- The thread that has to stand still for the children to be there. -/
def VariableRef.thread : VariableRef → ThreadId
  | locals frame => frame.thread
  | object thread _ => thread
  | array thread _ _ => thread

structure Scope where
  name : String
  contents : VariableRef
  deriving DecidableEq, Repr

structure Variable where
  name : String
  value : String
  type : Option String
  children : Option VariableRef
  deriving DecidableEq, Repr

inductive CompletionKind where
  | variable
  | property
  deriving DecidableEq, Repr

structure Completion where
  label : String
  kind : CompletionKind
  deriving DecidableEq, Repr

/-- An exception that stopped a thread. -/
structure Thrown where
  description : String
  message : Option String
  typeName : String
  fullTypeName : String
  caught : Bool
  deriving DecidableEq, Repr

namespace Thrown

/-- What stands behind the last dot or dollar sign of a binary name. -/
def simpleName (binaryName : String) : String :=
  String.ofList ((splitBy (fun c => c = '.' || c = '$') binaryName.toList).getLast?.getD [])

def of (binaryName : String) (message : Option String) (caught : Bool) : Thrown :=
  ⟨binaryName, message, simpleName binaryName, binaryName, caught⟩

end Thrown

inductive ThreadChange where
  | started
  | exited
  deriving DecidableEq, Repr

inductive DebugEvent where
  | breakpointHit (thread : ThreadId)
  | step (thread : ThreadId)
  | exceptionThrown (thread : ThreadId) (exception : Thrown)
  | threadChanged (thread : ThreadId) (change : ThreadChange)
  /-- A breakpoint was installed when its class was prepared. -/
  | breakpointResolved (id : Int) (line : UInt32)
  | exited (code : Option Int32)
  deriving DecidableEq, Repr

end JvmDebug
