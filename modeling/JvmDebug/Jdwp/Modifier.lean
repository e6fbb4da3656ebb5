import JvmDebug.Jdwp.Event

/-!
# Event requests

What the client asks to be told about: a kind of event, the suspend policy of its sets, and modifiers that narrow the
request down.
-/

namespace JvmDebug.Jdwp
set_option autoImplicit false

inductive Modifier where
  | count (n : Int32)
  | threadOnly (thread : ThreadId)
  | classOnly (classId : ClassId)
  | classMatch (pattern : String)
  | classExclude (pattern : String)
  | locationOnly (location : Location)
  /-- Class 0 stands for exceptions of every class. -/
  | exceptionOnly (classId : ClassId) (caught uncaught : Bool)
  | step (thread : ThreadId) (size depth : Int32)
  deriving DecidableEq, Repr

def Modifier.layout : Modifier → Bytes
  | count n => 1 :: Layout.i32 n
  | threadOnly thread => 3 :: Layout.u64 thread
  | classOnly classId => 4 :: Layout.u64 classId
  | classMatch pattern => 5 :: Layout.string pattern
  | classExclude pattern => 6 :: Layout.string pattern
  | locationOnly location => 7 :: location.layout
  | exceptionOnly classId caught uncaught => 8 :: (Layout.u64 classId ++ Layout.flag caught ++ Layout.flag uncaught)
  | step thread size depth => 10 :: (Layout.u64 thread ++ Layout.i32 size ++ Layout.i32 depth)

/-- How far a step goes. -/
inductive StepDepth where
  | into
  | next
  | out
  deriving DecidableEq, Repr

def StepDepth.toInt32 : StepDepth → Int32
  | into => 0
  | next => 1
  | out => 2

/-- The size of a step: to the next line. -/
def lineStep : Int32 := 1

structure EventRequest where
  kind : UInt8
  policy : SuspendPolicy
  modifiers : List Modifier
  deriving DecidableEq, Repr

namespace EventRequest

def layout (r : EventRequest) : Bytes :=
  r.kind :: r.policy.toByte :: Layout.list Modifier.layout r.modifiers

/-- A stop at a place in the code. -/
def breakpoint (location : Location) (policy : SuspendPolicy) : EventRequest :=
  ⟨EventKind.breakpoint.toByte, policy, [.locationOnly location]⟩

/-- Tell when a class is prepared whose name matches a pattern that may begin or end with `*`. -/
def classPrepare (pattern : String) (policy : SuspendPolicy) : EventRequest :=
  ⟨EventKind.classPrepare.toByte, policy, [.classMatch pattern]⟩

/-- A stop where an exception of any class is thrown. -/
def exception (caught uncaught : Bool) (policy : SuspendPolicy) : EventRequest :=
  ⟨EventKind.exception.toByte, policy, [.exceptionOnly 0 caught uncaught]⟩

/-- A single step of a thread to another line. -/
def step (thread : ThreadId) (depth : Int32) (policy : SuspendPolicy) : EventRequest :=
  ⟨EventKind.singleStep.toByte, policy, [.step thread lineStep depth, .count 1]⟩

def threadStarts : EventRequest := ⟨EventKind.threadStart.toByte, .none, []⟩
def threadDeaths : EventRequest := ⟨EventKind.threadDeath.toByte, .none, []⟩

end EventRequest
end JvmDebug.Jdwp
