import JvmDebug.Jdwp.Value
import JvmDebug.Text.Quoted

/-!
# Events

A machine reports events in sets: a suspend policy, and one or more events that share it. Each event names the request
it answers. An unknown kind makes the rest of a set unreadable, so such a set is refused as a whole.
-/

namespace JvmDebug.Jdwp
set_option autoImplicit false

/-- Which threads stand still after an event. -/
inductive SuspendPolicy where
  | none
  | eventThread
  | all
  deriving DecidableEq, Repr

def SuspendPolicy.toByte : SuspendPolicy → UInt8
  | none => 0
  | eventThread => 1
  | all => 2

/-- The kinds of events that the client asks for or can read. -/
inductive EventKind where
  | singleStep
  | breakpoint
  | exception
  | threadStart
  | threadDeath
  | classPrepare
  | methodEntry
  | methodExit
  | vmStart
  | vmDeath
  deriving DecidableEq, Repr

namespace EventKind

def toByte : EventKind → UInt8
  | singleStep => 1
  | breakpoint => 2
  | exception => 4
  | threadStart => 6
  | threadDeath => 7
  | classPrepare => 8
  | methodEntry => 40
  | methodExit => 41
  | vmStart => 90
  | vmDeath => 99

def all : List EventKind :=
  [singleStep, breakpoint, exception, threadStart, threadDeath, classPrepare, methodEntry, methodExit, vmStart, vmDeath]

def ofByte? (b : UInt8) : Option EventKind := all.find? (·.toByte = b)

theorem ofByte?_toByte (k : EventKind) : ofByte? k.toByte = some k := by cases k <;> decide

end EventKind

/-- What happened, and where. -/
inductive Happening where
  | vmStart (thread : ThreadId)
  | vmDeath
  | threadStart (thread : ThreadId)
  | threadDeath (thread : ThreadId)
  | classPrepare (thread : ThreadId) (typeTag : UInt8) (classId : ClassId) (signature : String) (status : Int32)
  | breakpoint (thread : ThreadId) (location : Location)
  | step (thread : ThreadId) (location : Location)
  | exception (thread : ThreadId) (location : Location) (thrown : TaggedObject) (caughtAt : Option Location)
  | methodEntry (thread : ThreadId) (location : Location)
  | methodExit (thread : ThreadId) (location : Location)
  deriving DecidableEq, Repr

namespace Happening

def kind : Happening → EventKind
  | vmStart _ => .vmStart
  | vmDeath => .vmDeath
  | threadStart _ => .threadStart
  | threadDeath _ => .threadDeath
  | classPrepare .. => .classPrepare
  | breakpoint .. => .breakpoint
  | step .. => .singleStep
  | exception .. => .exception
  | methodEntry .. => .methodEntry
  | methodExit .. => .methodExit

/-- The thread it happened on. -/
def thread? : Happening → Option ThreadId
  | vmDeath => none
  | vmStart thread | threadStart thread | threadDeath thread | classPrepare thread .. | breakpoint thread _
  | step thread _ | exception thread .. | methodEntry thread _ | methodExit thread _ => some thread

def isClassPrepare : Happening → Bool
  | classPrepare .. => true
  | _ => false

/-- The event in full, for log records. -/
def text : Happening → String
  | vmStart thread => block "VMStart" [("thread", toString thread)]
  | vmDeath => "VMDeath"
  | threadStart thread => block "ThreadStart" [("thread", toString thread)]
  | threadDeath thread => block "ThreadDeath" [("thread", toString thread)]
  | classPrepare thread typeTag classId signature status =>
    block "ClassPrepare"
      [("thread", toString thread), ("ref_type_tag", toString typeTag), ("ref_type", toString classId),
        ("signature", quoted signature), ("status", toString status)]
  | breakpoint thread location => block "Breakpoint" (place thread location)
  | step thread location => block "Step" (place thread location)
  | exception thread location thrown caughtAt =>
    let caught := match caughtAt with
      | some l => s!"Some({l.text})"
      | none => "None"
    block "Exception"
      (place thread location ++
        [("exception", block "TaggedObject" [("tag", toString thrown.tag), ("id", toString thrown.id)]),
          ("catch_location", caught)])
  | methodEntry thread location => block "MethodEntry" (place thread location)
  | methodExit thread location => block "MethodExit" (place thread location)
where
  place (thread : ThreadId) (location : Location) : List (String × String) :=
    [("thread", toString thread), ("location", location.text)]

end Happening

structure Event where
  request : RequestId
  happening : Happening
  deriving DecidableEq, Repr

def Event.kind (e : Event) : EventKind := e.happening.kind

/-- A set of events. The policy is kept as the byte that was sent. -/
structure EventSet where
  policy : UInt8
  events : List Event
  deriving DecidableEq, Repr

namespace Reader

def happening : EventKind → Reader Happening
  | .vmStart => return .vmStart (← u64)
  | .vmDeath => return .vmDeath
  | .threadStart => return .threadStart (← u64)
  | .threadDeath => return .threadDeath (← u64)
  | .classPrepare => return .classPrepare (← u64) (← u8) (← u64) (← string) (← i32)
  | .breakpoint => return .breakpoint (← u64) (← location)
  | .singleStep => return .step (← u64) (← location)
  | .exception => return .exception (← u64) (← location) (← taggedObject) (← location?)
  | .methodEntry => return .methodEntry (← u64) (← location)
  | .methodExit => return .methodExit (← u64) (← location)

def event : Reader Event := do
  let kind ← u8
  let request ← i32
  match EventKind.ofByte? kind with
  | some kind => return { request, happening := ← happening kind }
  | none => fail (.unsupportedEvent kind)

def eventSet : Reader EventSet := return { policy := ← u8, events := ← list event }

end Reader

namespace Happening

def layout : Happening → Bytes
  | vmDeath => []
  | vmStart thread | threadStart thread | threadDeath thread => Layout.u64 thread
  | classPrepare thread typeTag classId signature status =>
    Layout.u64 thread ++ typeTag :: Layout.u64 classId ++ Layout.string signature ++ Layout.i32 status
  | breakpoint thread location | step thread location | methodEntry thread location | methodExit thread location =>
    Layout.u64 thread ++ location.layout
  | exception thread location thrown caughtAt =>
    Layout.u64 thread ++ location.layout ++ thrown.layout ++ (caughtAt.getD ⟨0, 0, 0, 0⟩).layout

end Happening

def Event.layout (e : Event) : Bytes := e.kind.toByte :: (Layout.i32 e.request ++ e.happening.layout)

def EventSet.layout (s : EventSet) : Bytes := s.policy :: Layout.list Event.layout s.events

end JvmDebug.Jdwp
