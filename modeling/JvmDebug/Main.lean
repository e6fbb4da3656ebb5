import JvmDebug.Server

/-!
# The command line

Serves the client on standard input and output, until the client ends the input. No tools, processes or connections can
be had from here: what needs them fails.
-/

namespace JvmDebug.Main
set_option autoImplicit false

def refusal : OsError := ⟨.other, "Function not implemented (os error 38)"⟩

def answer (c : Host.Call) : IO (Host.Answer c) := return Host.refuse refusal c

abbrev Crew := JvmDebug.Crew Server.Worker Server Host

/-- Serves for as long as something can be done, and writes what there is for the client. -/
def settle (output : IO.FS.Stream) (crew : Crew) (server : Server) : IO (Crew × Server) := do
  let (_, crew, server) ← crew.finish Server.plan answer 1000000 1000 60000 server
  let (bytes, server) := server.collect
  output.write ⟨bytes.toArray⟩
  output.flush
  return (crew, server)

partial def serve (input output : IO.FS.Stream) (crew : Crew) (server : Server) : IO Server := do
  let bytes ← input.read 65536
  let server := if bytes.isEmpty then server.endInput else server.receive bytes.toList
  let (crew, server) ← settle output crew server
  if server.result.isSome then return server else serve input output crew server

end JvmDebug.Main

def main : IO UInt32 := do
  let server : JvmDebug.Server := { adapter := { buildTool := some "bazel" } }
  let server ← JvmDebug.Main.serve (← IO.getStdin) (← IO.getStdout) {} server
  match server.result with
  | some (.error e) =>
    IO.eprintln s!"Error: {e.message}"
    return 1
  | _ => return 0
