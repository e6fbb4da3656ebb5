import JvmDebug.Dap.Framing
import JvmDebug.Json.Document
import JvmDebug.Adapter.Basic

/-!
# The server

Serves one client on a stream of bytes in either direction. Requests are read and dispatched as they come; what is no
request is passed over, but bytes that are no message end the reading. Everything for the client is numbered from 1 on
in the order in which it is written. When the client ends its stream, the debuggee is ended too.
-/

namespace JvmDebug
set_option autoImplicit false

structure Server where
  adapter : Adapter := {}
  incoming : Bytes := []
  /-- Whether the client has ended its stream. -/
  ended : Bool := false
  /-- Whether the server has looked at the end of the stream, and what came of serving. -/
  closing : Bool := false
  result : Option (Except Error Unit) := none
  /-- The number of the next message to the client. -/
  nextSeq : Int := 1
  output : Bytes := []

namespace Server

abbrev Activity := Routine Server Host

def putAdapter (adapter : Adapter) (s : Server) : Server := { s with adapter }

def onAdapter {α : Type} (r : Adapter.Activity α) : Activity α := r.zoom Server.adapter putAdapter

/-! Reading -/

def dispatch (r : Dap.Request) (s : Server) : Server := s.putAdapter (s.adapter.dispatch r)

/-- Whether a message is a request, as it says itself. -/
def isRequest (message : Json) : Bool := (message.get? "type").bind Json.string? = some "request"

/-- What a message asks for. -/
def receiveMessage (message : Json) : Activity Unit := do
  if isRequest message then
    match Dap.Request.read message with
    | .ok r => Routine.modify (dispatch r)
    | .error _ => Routine.warn .server "Invalid request"
  else Routine.debug .server "Ignoring non-request message"

def receiveText (body : String) : Activity Unit := do
  Routine.trace .server s!"Received: {body}"
  match Json.parse? body with
  | some message => receiveMessage message
  | none => Routine.error .server "Parse error"

def disconnectRequest : Dap.Request := { seq := 0, command := "disconnect", arguments := none }

/-- The client has ended its stream. A machine that was launched must not be left behind. -/
def close : Activity Unit := do
  Routine.info .server "Client disconnected"
  match ← onAdapter (Adapter.onSession (Session.answer disconnectRequest).run) with
  | .ok _ => pure ()
  | .error e => Routine.warn .server s!"Cleanup after client exit failed: {e.message}"
  Routine.modify fun s => { s with result := some (.ok ()) }

/-- The stream holds something that is no message; nothing more is read. -/
def fail (why : OsError) (s : Server) : Server := { s with closing := true, result := some (.error (.os why)) }

def takeInput (s : Server) : Option (Activity Unit × Server) :=
  if s.closing then none
  else
    match Dap.Framing.read s.ended s.incoming with
    | .incomplete => none
    | .message body rest => some (receiveText body, { s with incoming := rest })
    | .failed why => some (return (), s.fail why)
    | .ended => some (close, { s with closing := true })

/-! Writing -/

/-- Writes a message under the next number. -/
def write (m : Dap.Outgoing) (s : Server) : Server :=
  { s with nextSeq := s.nextSeq + 1, output := s.output ++ Dap.Framing.write (m.text s.nextSeq) }

def takeOutput (s : Server) : Option (Activity Unit × Server) :=
  match s.adapter.session.outbox with
  | [] => none
  | m :: rest =>
    let session := { s.adapter.session with outbox := rest }
    some (return (), (s.putAdapter (s.adapter.putSession session)).write m)

/-! Workers -/

inductive Worker where
  | reader
  | writer
  | adapter (w : Adapter.Worker)
  deriving DecidableEq, Repr

def workers (s : Server) : List Worker := [.reader, .writer] ++ s.adapter.workers.map .adapter

def take (w : Worker) (s : Server) : Option (Activity Unit × Server) :=
  match w with
  | .reader => takeInput s
  | .writer => takeOutput s
  | .adapter w => (s.adapter.take w).map fun (job, adapter) => (onAdapter job, s.putAdapter adapter)

def plan : Plan Worker Server Host where
  workers := workers
  take := take
  keep r s := s.putAdapter (Adapter.plan.keep r s.adapter)
  tick time s := s.putAdapter (Adapter.plan.tick time s.adapter)

/-- Bytes have come from the client. -/
def receive (bytes : Bytes) (s : Server) : Server := { s with incoming := s.incoming ++ bytes }

def endInput (s : Server) : Server := { s with ended := true }

/-- Takes what has been written to the client. -/
def collect (s : Server) : Bytes × Server := (s.output, { s with output := [] })

end Server
end JvmDebug
