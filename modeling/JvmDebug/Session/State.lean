import JvmDebug.Breakpoint.Book
import JvmDebug.Build
import JvmDebug.Bus.Basic
import JvmDebug.ClientView
import JvmDebug.Debuggee.Control
import JvmDebug.FileTree
import JvmDebug.Launch
import JvmDebug.Log.Journal
import JvmDebug.Rendezvous
import JvmDebug.SourceIndex.Basic

/-!
# The state of a session

What a debug session knows: how the client sees things, the breakpoints, the debuggee, and what is still to be done.
Requests wait on two lanes, on which they are served one after the other: those that start debuggees on the launcher
lane, all others on the default lane. Only the request that ends the configuration waits on its own. Messages to the
client are put into the outbox, and leave it in that order.
-/

namespace JvmDebug
set_option autoImplicit false

open Jdwp (ThreadId)

/-- Debuggees are known by numbers, none of which is used twice. -/
abbrev DebuggeeId := Nat

/-- A stream that a debuggee writes to. Its lines wait until they may be forwarded to the client. -/
structure OutputStream where
  debuggee : DebuggeeId
  category : String
  incoming : Bytes := []
  ended : Bool := false
  forwarded : Bool := false

/-- A job on the launcher lane: a request, or to let a debuggee run that has been started. -/
inductive LauncherJob where
  | request (r : Dap.Request)
  | run (d : DebuggeeId) (announceThreads : Bool)

structure Session where
  view : ClientView := {}
  /-- The exceptions that stopped threads. -/
  exceptions : Handles ThreadId Thrown := { kind := "exception" }
  book : BreakpointBook := {}
  phase : Phase := .idle
  /-- Whether the client has been told that the session is ready. -/
  initialized : Bool := false
  debuggee : Option DebuggeeId := none
  /-- The subscriptions to the events of debuggees, and those of them that count. -/
  bus : Bus DebuggeeId := {}
  subscriptions : List Nat := []
  streams : List (Nat × OutputStream) := []
  nextStream : Nat := 0
  defaultLane : List Dap.Request := []
  launcherLane : List LauncherJob := []
  /-- The requests that end the configuration, each with a number of its own. -/
  arrivals : List (Nat × Dap.Request) := []
  nextArrival : Nat := 0
  outbox : List Dap.Outgoing := []
  journal : Option Log.Journal := none

namespace Session

/-- What a session needs of the world. -/
inductive Call where
  | drive (d : DebuggeeId) (r : DebuggeeRequest)
  | build (c : BuildCall)
  /-- All files of the host. -/
  | files
  /-- Opens a file to which log records are added; tells the path to it that leads over no link. -/
  | openLog (file : Path)
  | launch (r : LaunchRequest) (index : SourceIndex)
  | attach (r : AttachRequest) (index : SourceIndex)

abbrev Answer : Call → Type
  | .drive _ r => r.Answer
  | .build c => c.Answer
  | .files => FileTree
  | .openLog _ => Except OsError Path
  | .launch .. | .attach .. => Except Error DebuggeeId

def World : Interface := ⟨Call, Answer⟩

abbrev Activity := Routine Session World

/-- The work of a request; it may fail. -/
abbrev Work := Attempt Error Session World

variable {I : Interface} {α : Type}

/-! Steps that ask nothing of the world -/

def look (f : Session → α) : Routine Session I α := Routine.gets f
def change (f : Session → Session) : Routine Session I Unit := Routine.modify f
def changeGet (f : Session → α × Session) : Routine Session I α := Routine.modifyGet f

def warn (text : String) : Routine Session I Unit := Routine.warn .session text
def info (text : String) : Routine Session I Unit := Routine.info .session text
def debug (text : String) : Routine Session I Unit := Routine.debug .session text

def post (m : Dap.Outgoing) (s : Session) : Session := { s with outbox := s.outbox ++ [m] }

def send (m : Dap.Outgoing) : Routine Session I Unit := change (post m)

/-! Calls -/

def drive (d : DebuggeeId) (r : DebuggeeRequest) : Activity r.Answer := Routine.ask (I := World) (.drive d r)
def build (c : BuildCall) : Activity c.Answer := Routine.ask (I := World) (.build c)
def files : Activity FileTree := Routine.ask (I := World) .files
def openLog (file : Path) : Activity (Except OsError Path) := Routine.ask (I := World) (.openLog file)

def launch (r : LaunchRequest) (index : SourceIndex) : Activity (Except Error DebuggeeId) :=
  Routine.ask (I := World) (.launch r index)

def attach (r : AttachRequest) (index : SourceIndex) : Activity (Except Error DebuggeeId) :=
  Routine.ask (I := World) (.attach r index)

/-! Work -/

/-- Does something that cannot fail. -/
def act (r : Activity α) : Work α := ExceptT.lift r

def see (f : Session → α) : Work α := act (look f)
def alter (f : Session → Session) : Work Unit := act (change f)
def alterGet (f : Session → α × Session) : Work α := act (changeGet f)

/-- Fails as the outcome of something else does. -/
def demand (r : Activity (Except Error α)) : Work α := ExceptT.mk r

def require (r : Except Error α) : Work α := demand (return r)

/-! Messages and records -/

/-- Takes all messages out of the outbox. -/
def collect (s : Session) : List Dap.Outgoing × Session := (s.outbox, { s with outbox := [] })

/-- Files a log record away: in the file, and in the console of the client. -/
def keep (r : Log.Record) (s : Session) : Session :=
  match s.journal with
  | none => s
  | some j =>
    if j.admits r then
      let s := { s with journal := some (j.write r) }
      if r.isForConsole then s.post (.output "console" r.line) else s
    else s

/-- Adds bytes that a debuggee has written to one of its streams. -/
def writeStream (d : DebuggeeId) (category : String) (bytes : Bytes) (s : Session) : Session :=
  { s with
    streams := s.streams.map fun (n, o) =>
      if o.debuggee = d ∧ o.category = category then (n, { o with incoming := o.incoming ++ bytes }) else (n, o) }

/-- The streams of a debuggee have ended. -/
def endStreams (d : DebuggeeId) (s : Session) : Session :=
  { s with streams := s.streams.map fun (n, o) => if o.debuggee = d then (n, { o with ended := true }) else (n, o) }

def addStream (o : OutputStream) (s : Session) : Session :=
  { s with streams := s.streams ++ [(s.nextStream, o)], nextStream := s.nextStream + 1 }

end Session
end JvmDebug
