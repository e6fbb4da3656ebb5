import JvmDebug.Debuggee.Machine
import JvmDebug.Routine.Crew
import JvmDebug.Session.Lanes
import JvmDebug.Adapter.Host

/-!
# The adapter

A session together with the machines that it has launched or attached to. The book of breakpoints is one for all of
them. Requests of the session to a debuggee go to its machine, and events that a machine publishes to the session; what
neither can do itself is asked of the host.
-/

namespace JvmDebug
set_option autoImplicit false

structure Adapter where
  session : Session := {}
  machines : List (DebuggeeId × Machine) := []
  nextDebuggee : DebuggeeId := 0
  /-- The program that runs machines. -/
  program : String := "java"
  /-- The build tool; without one, the host has a build service. -/
  buildTool : Option String := none
  /-- The time in milliseconds. -/
  now : Nat := 0

namespace Adapter

abbrev Activity := Routine Adapter Host

variable {α : Type}

def ask (c : Host.Call) : Activity (Host.Answer c) := Routine.ask (I := Host) c

/-! Debuggees -/

/-- A number for a debuggee. -/
def freshDebuggee (s : Adapter) : DebuggeeId × Adapter :=
  (s.nextDebuggee, { s with nextDebuggee := s.nextDebuggee + 1 })

/-- A debuggee behind a machine that is not connected yet. -/
def addMachine (origin : Origin) (root : Path) (index : SourceIndex) (s : Adapter) : DebuggeeId × Adapter :=
  let (d, s) := s.freshDebuggee
  let debuggee : Debuggee := { origin, book := s.session.book, placer := { index, root } }
  (d, { s with machines := s.machines ++ [(d, { debuggee })] })

def forget (d : DebuggeeId) (s : Adapter) : Adapter :=
  { s with
    machines := s.machines.filter (·.1 ≠ d)
    session := { s.session with streams := s.session.streams.filter (·.2.debuggee ≠ d) } }

def hasMachine (d : DebuggeeId) (s : Adapter) : Bool := s.machines.any (·.1 = d)

def noMachine : Machine := { debuggee := { origin := .attached, book := {}, placer := { index := {}, root := ⟨""⟩ } } }

/-- The machine of a debuggee, with the book as it is. -/
def machine (d : DebuggeeId) (s : Adapter) : Machine :=
  let m := ((s.machines.find? (·.1 = d)).map (·.2)).getD noMachine
  { m with debuggee := { m.debuggee with book := s.session.book } }

/-- Puts a machine back in its place, and its book in place of the book of the session. -/
def putMachine (d : DebuggeeId) (m : Machine) (s : Adapter) : Adapter :=
  { s with
    session := { s.session with book := m.debuggee.book }
    machines := s.machines.map fun e => if e.1 = d then (d, m) else e }

/-! Activities of the parts -/

def putSession (session : Session) (s : Adapter) : Adapter := { s with session }

/-- The session hears an event of a debuggee. -/
def hear (d : DebuggeeId) (e : DebugEvent) : Activity Unit := (Session.hear d e).zoom Adapter.session putSession

def answerMachine (d : DebuggeeId) : (c : Machine.Call) → Activity (Machine.Answer c)
  | .write bytes => ask (.write d bytes)
  | .publish e => hear d e
  | .exitCode => ask (.awaitExit d)
  | .kill => ask (.kill d)

def onMachine (d : DebuggeeId) (r : Machine.Activity α) : Activity α :=
  (r.zoom (machine d) (putMachine d)).interpret (answerMachine d)

/-- Asks a debuggee, which may be behind a machine or known to the host only. -/
def drive (d : DebuggeeId) (r : DebuggeeRequest) : Activity r.Answer := do
  if ← Routine.gets (hasMachine d) then onMachine d (Machine.onDebuggee (Debuggee.serve r)) else ask (.drive d r)

/-- Has something built, or a classpath told. -/
def build (c : BuildCall) : Activity c.Answer := do
  match ← Routine.gets Adapter.buildTool with
  | some tool => Bazel.serve tool (fun run => ask (.runTool run)) c
  | none => ask (.build c)

/-! Starting debuggees -/

def newConnection (d : DebuggeeId) (s : Adapter) : Adapter := putMachine d { s.machine d with connection := {} } s

def connect (d : DebuggeeId) (host : String) (port : Nat) : Activity (Except Jdwp.Error Unit) := do
  Routine.info .connection s!"Connecting to JDWP at {host}:{port}"
  match ← ask (.connect d host port) with
  | .error e => return .error (.os e)
  | .ok _ =>
    Routine.modify (newConnection d)
    onMachine d (Machine.onConnection Jdwp.Connection.establish)

def addStreams (d : DebuggeeId) (s : Adapter) : Adapter :=
  { s with
    session := (s.session.addStream { debuggee := d, category := "stdout" }).addStream
      { debuggee := d, category := "stderr" } }

def startProgram (d : DebuggeeId) (c : ToolCall) : Activity (Except OsError Unit) := do
  match ← ask (.start d c) with
  | .error e => return .error e
  | .ok _ =>
    Routine.modify (addStreams d)
    return .ok ()

def launchHost (d : DebuggeeId) (program : String) : Launch.Host Adapter Host where
  program := program
  freePort := ask .freePort
  start := startProgram d
  ended := ask (.status d)
  kill := ask (.kill d)
  connect := connect d
  takeOver := onMachine d Machine.start
  clock := Adapter.now

/-- Has a new machine started; nothing is left of it if that fails. -/
def start (origin : Origin) (root : Path) (index : SourceIndex)
    (run : Launch.Host Adapter Host → Activity (Except Error Unit)) : Activity (Except Error DebuggeeId) := do
  let program ← Routine.gets Adapter.program
  let d ← Routine.modifyGet (addMachine origin root index)
  match ← run (launchHost d program) with
  | .ok _ => return .ok d
  | .error e =>
    Routine.modify (forget d)
    return .error e

def answerSession : (c : Session.Call) → Activity (Session.Answer c)
  | .drive d r => drive d r
  | .build c => build c
  | .files => ask .files
  | .openLog file => ask (.openLog file)
  | .launch r index => start .launched r.root index fun h => Launch.launch h r
  | .attach r index => start .attached r.root index fun h => Launch.attach h r

def onSession (r : Session.Activity α) : Activity α := (r.zoom Adapter.session putSession).interpret answerSession

/-! Workers -/

inductive Worker where
  | session (w : Session.Worker)
  | machine (d : DebuggeeId) (w : Machine.Worker)
  deriving DecidableEq, Repr

def workers (s : Adapter) : List Worker :=
  (Session.Worker.all s.session).map .session ++
    s.machines.flatMap fun e => Machine.Worker.all.map (Worker.machine e.1)

def take (w : Worker) (s : Adapter) : Option (Activity Unit × Adapter) :=
  match w with
  | .session w => (w.take s.session).map fun (job, session) => (onSession job, s.putSession session)
  | .machine d w =>
    if s.hasMachine d then (w.take (s.machine d)).map fun (job, m) => (onMachine d job, s.putMachine d m) else none

/-- Who works on an adapter, and at what. -/
def plan : Plan Worker Adapter Host where
  workers := workers
  take := take
  keep r s := s.putSession (s.session.keep r)
  tick time s := { s with now := s.now + time }

/-! What comes of itself -/

def dispatch (r : Dap.Request) (s : Adapter) : Adapter := s.putSession (s.session.dispatch r)

/-- Bytes have come on the stream of a machine. -/
def receive (d : DebuggeeId) (bytes : Bytes) (s : Adapter) : Adapter :=
  putMachine d { s.machine d with connection := (s.machine d).connection.receive bytes } s

/-- The stream of a machine has ended. -/
def hangUp (d : DebuggeeId) (s : Adapter) : Adapter :=
  putMachine d { s.machine d with connection := (s.machine d).connection.hangUp } s

end Adapter
end JvmDebug
