import JvmDebug.Network
import JvmDebug.Session.State

/-!
# The host

What the adapter needs of the world around it: files and tools, processes, streams to machines. Each call is answered
at once; what comes later of itself, such as bytes on a stream, is put into the state of the adapter.
-/

namespace JvmDebug
set_option autoImplicit false

namespace Host

inductive Call where
  /-- Asks a debuggee that is none of the machines of the adapter. -/
  | drive (d : DebuggeeId) (r : DebuggeeRequest)
  /-- Asks a build service of the host. -/
  | build (c : BuildCall)
  | runTool (c : ToolCall)
  | files
  | openLog (file : Path)
  | freePort
  /-- Starts the program of a debuggee. -/
  | start (d : DebuggeeId) (c : ToolCall)
  /-- How the program of a debuggee ended, if it has. -/
  | status (d : DebuggeeId)
  /-- The exit code of the program of a debuggee, if it ends in time. -/
  | awaitExit (d : DebuggeeId)
  | kill (d : DebuggeeId)
  /-- Opens a stream to the machine of a debuggee. -/
  | connect (d : DebuggeeId) (host : String) (port : Nat)
  | write (d : DebuggeeId) (bytes : Bytes)

abbrev Answer : Call → Type
  | .drive _ r => r.Answer
  | .build c => c.Answer
  | .runTool _ => Except OsError ToolRun
  | .files => FileTree
  | .openLog _ => Except OsError Path
  | .freePort => Except OsError Nat
  | .start .. => Except OsError Unit
  | .status _ => Except OsError (Option ExitStatus)
  | .awaitExit _ => Option Int32
  | .kill _ => Except OsError Unit
  | .connect .. => Except OsError Unit
  | .write .. => Except OsError Unit

/-- What a host answers that can do nothing, and has no network. -/
def refuse (why : OsError) : (c : Call) → Answer c
  | .drive _ r => r.failed .disconnected
  | .build c => c.failed (.os why)
  | .files => .folder []
  | .awaitExit _ => none
  | .connect _ host _ => .error (Network.unreachable host)
  | .runTool _ | .openLog _ | .freePort | .start .. | .status _ | .kill _ | .write .. => .error why

end Host

def Host : Interface := ⟨Host.Call, Host.Answer⟩

end JvmDebug
