import JvmDebug.Build
import JvmDebug.Text.Quoted

/-!
# Launching and attaching

A machine is launched under its debug agent, which lets it stand still until a debugger is there; or it runs already,
and is attached to. Both end with a machine that has been taken over, and none of whose threads runs. What is needed of
the world for that is given by a `Launch.Host`.
-/

namespace JvmDebug
set_option autoImplicit false

/-- A program to be launched. -/
structure LaunchRequest where
  root : Path
  classpath : List Path
  mainClass : String
  vmArguments : Option String
  programArguments : List String

/-- A machine to be attached to, and how many milliseconds it has for an answer. -/
structure AttachRequest where
  root : Path
  host : String
  port : Nat
  timeout : Nat

/-- A span of time in the largest unit of which it has at least one. -/
def durationText (milliseconds : Nat) : String :=
  if milliseconds = 0 then "0ns"
  else if milliseconds < 1000 then s!"{milliseconds}ms"
  else
    let thousandths := String.ofList ((toString (milliseconds % 1000 + 1000)).toList.drop 1)
    let fraction := (thousandths.toList.reverse.dropWhile (· = '0')).reverse
    if fraction.isEmpty then s!"{milliseconds / 1000}s"
    else toString (milliseconds / 1000) ++ "." ++ String.ofList fraction ++ "s"

namespace Launch

/-- What launching needs of the world. -/
structure Host (S : Type) (I : Interface) where
  /-- The program that runs machines. -/
  program : String
  freePort : Routine S I (Except OsError Nat)
  /-- Starts the program as a call says. -/
  start : ToolCall → Routine S I (Except OsError Unit)
  /-- How the program ended, if it has. -/
  ended : Routine S I (Except OsError (Option ExitStatus))
  kill : Routine S I (Except OsError Unit)
  /-- Connects to a machine that listens on a port of a host. -/
  connect : String → Nat → Routine S I (Except Jdwp.Error Unit)
  /-- Takes over the machine that has been connected to. -/
  takeOver : Routine S I (Except Error Unit)
  /-- The time in milliseconds. -/
  clock : S → Nat

def localHost : String := "127.0.0.1"

/-- How long a launched machine has to open its port, and how long to wait between two looks. -/
def limit : Nat := 10000
def interval : Nat := 100

def joinClasspath (paths : List Path) : Except Error String :=
  if paths.any (·.text.contains ':') then
    .error (.badArguments ("classpath entry cannot be joined: path segment contains separator " ++ "\x60:\x60"))
  else .ok (":".intercalate (paths.map (·.text)))

def agentArgument (port : Nat) : String :=
  s!"-agentlib:jdwp=transport=dt_socket,server=y,suspend=y,address={localHost}:{port}"

/-- The arguments with which a machine stands still and listens on a port. A main class that is named together with its
module is run from the module. -/
def arguments (r : LaunchRequest) (port : Nat) : Except Error (List String) := do
  let classpath ←
    if r.classpath.isEmpty then .ok [] else (joinClasspath r.classpath).map fun joined => ["-classpath", joined]
  let moduleFlag := if r.mainClass.contains '/' then ["-m"] else []
  return agentArgument port :: words (r.vmArguments.getD "") ++ classpath ++ moduleFlag ++ r.mainClass :: r.programArguments

variable {S : Type} {I : Interface}

def noAgent (port : Nat) (why : Jdwp.Error) : Error :=
  .connectFailed s!"no debug agent on port {port} after {durationText limit}: {why.message}"

def exitedEarly (status : ExitStatus) : Error :=
  .connectFailed s!"the VM exited before a debugger could attach ({status.text})"

/-- Tries to connect until that works, the program has ended, or the time is up. -/
def keepTrying (h : Host S I) (port deadline : Nat) (retries : Nat) : Routine S I (Except Error Unit) := do
  match ← h.connect localHost port with
  | .ok _ => return .ok ()
  | .error why =>
    match ← h.ended with
    | .error e => return .error (.os e)
    | .ok (some status) => return .error (exitedEarly status)
    | .ok none =>
      match retries with
      | 0 => giveUp why
      | retries + 1 =>
        if deadline ≤ (← Routine.gets h.clock) then giveUp why
        else
          Routine.sleep interval
          keepTrying h port deadline retries
where
  giveUp (why : Jdwp.Error) : Routine S I (Except Error Unit) := do
    let _ ← h.kill
    return .error (noAgent port why)

/-- Connects to a program that has been started, and takes it over. It does not outlive a failure. -/
def follow (h : Host S I) (port : Nat) : Routine S I (Except Error Unit) := do
  let started ← Routine.gets h.clock
  match ← keepTrying h port (started + limit) (limit / interval) with
  | .error e => return .error e
  | .ok _ =>
    match ← h.takeOver with
    | .ok _ => return .ok ()
    | .error e =>
      let _ ← h.kill
      return .error e

def launch (h : Host S I) (r : LaunchRequest) : Routine S I (Except Error Unit) := do
  match ← h.freePort with
  | .error e => return .error (.connectFailed s!"no free port for the debug agent: {e.text}")
  | .ok port =>
    match arguments r port with
    | .error e => return .error e
    | .ok args =>
      Routine.info .launcher s!"Launching {r.mainClass} on debug port {port}"
      Routine.debug .launcher (h.program ++ " [" ++ ", ".intercalate (args.map quotedArgument) ++ "]")
      match ← (ToolCall.mk h.program args r.root).run h.start with
      | .error e => return .error (.connectFailed s!"could not start {h.program}: {e.text}")
      | .ok _ => follow h port

def attach (h : Host S I) (r : AttachRequest) : Routine S I (Except Error Unit) := do
  Routine.info .launcher s!"Attaching to {r.host}:{r.port}"
  let now ← Routine.gets h.clock
  match ← (h.connect r.host r.port).before h.clock (now + r.timeout) with
  | some (.ok _) => h.takeOver
  | some (.error e) => return .error (.connectFailed s!"{r.host}:{r.port}: {e.message}")
  | none =>
    return .error (.connectFailed s!"{r.host}:{r.port} did not answer within {durationText r.timeout}")

end Launch
end JvmDebug
