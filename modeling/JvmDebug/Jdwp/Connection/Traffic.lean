import JvmDebug.Jdwp.Connection.Basic
import JvmDebug.Jdwp.Wire

/-!
# Traffic on a connection

What callers, the writer and the reader do on a connection, and how a connection begins: both sides say the same words,
and the ids of the machine must have the size that is supported.
-/

namespace JvmDebug.Jdwp
set_option autoImplicit false

/-- Bytes are written to the stream; all of them, unless that fails. -/
def Link : Interface := ⟨Bytes, fun _ => Except OsError Unit⟩

namespace Connection

variable {I : Interface}

/-! Callers -/

/-- Sends a command under an id and waits for what becomes of it. -/
def send (id : UInt32) (c : Command) : Routine Connection I (Except Error Reply) := do
  Routine.trace .connection s!"Sending command packet id={id} set={c.set} cmd={c.number}"
  let ticket ← Routine.modifyGet freshTicket
  Routine.waitAndChange hasRoom (enqueue ⟨id, c, ticket⟩)
  Routine.waitFor fun s => (s.outcome? ticket).isSome
  Routine.modifyGet (takeOutcome ticket)

/-- Sends a command under an id of its own. -/
def request (c : Command) : Routine Connection I (Except Error Reply) := do
  let id ← Routine.modifyGet freshId
  send id c

/-- Waits for the next event set; there is none when the events have ended. -/
def recvEvents : Routine Connection I (Option EventSet) := do
  Routine.waitFor hasEvents
  Routine.modifyGet nextEvents

/-! The writer -/

def write (bytes : Bytes) : Routine Connection Link (Except OsError Unit) := Routine.ask (I := Link) bytes

/-- A command could not be written: it fails, unless it has an outcome already. -/
def failWrite (id : UInt32) (why : OsError) : Routine Connection Link Unit := do
  Routine.error .eventLoop s!"Failed to write command id={id}: {why.text}"
  match ← Routine.modifyGet (redeem id) with
  | some ticket => Routine.modify (settle ticket (.error (.os why)))
  | none => return ()

def writeQueued (q : Queued) : Routine Connection Link Unit := do
  if ← Routine.modifyGet (owe q) then
    Routine.trace .eventLoop s!"Sending command id={q.id} set={q.command.set} cmd={q.command.number}"
    match ← write (q.command.packet q.id) with
    | .ok _ => return ()
    | .error why => failWrite q.id why

/-- What the writer has to do, if anything. -/
def write? (c : Connection) : Option (Routine Connection Link Unit × Connection) :=
  c.dequeue?.map fun (q, c) => (writeQueued q, c)

/-! The reader -/

/-- Gives a reply to whom it is owed. -/
def routeReply (id : UInt32) (packet : Bytes) : Routine Connection Link Unit := do
  match ← Routine.modifyGet (redeem id) with
  | some ticket => Routine.modify (settle ticket (Reply.ofPacket packet))
  | none => Routine.warn .eventLoop s!"Received reply for unknown command id={id}"

/-- Hands on the events of a packet; one that cannot be read is dropped. -/
def deliverEvents (packet : Bytes) : Routine Connection Link Unit := do
  match Reader.eventSet.value (packet.drop headerSize) with
  | .ok s => do
    Routine.debug .eventLoop s!"Parsed event set: {s.events.length} events, suspend_policy={s.policy}"
    unless ← Routine.modifyGet (addEvents s) do
      Routine.debug .eventLoop "Event receiver dropped, discarding event"
  | .error why => Routine.warn .eventLoop s!"Failed to parse event packet: {why.message}"

/-- The stream has ended or holds no packet: nothing is read any more. -/
def shutDown (why : Error) : Routine Connection Link Unit := do
  match why with
  | .os e =>
    if e.kind = .unexpectedEnd then Routine.info .eventLoop "VM closed the JDWP connection"
    else Routine.error .eventLoop s!"Failed to read packet: {why.message}"
  | _ => Routine.error .eventLoop s!"Failed to read packet: {why.message}"
  Routine.modify close
  Routine.info .eventLoop "Event loop shutting down"
  Routine.modify endEvents

/-- What the reader has to do, if anything. -/
def read? (c : Connection) : Option (Routine Connection Link Unit × Connection) :=
  if c.reading then
    match Packet.read c.ended c.incoming with
    | .incomplete => none
    | .packet id isReply packet rest =>
      some (if isReply then routeReply id packet else deliverEvents packet, { c with incoming := rest })
    | .failed why => some (shutDown why, { c with reading := false })
  else none

/-! The beginning -/

/-- Whether so many bytes have come, or never will. -/
def hasBytes (n : Nat) (c : Connection) : Bool := n ≤ c.incoming.length || c.ended.isSome

def takeBytes (n : Nat) (c : Connection) : Except OsError Bytes × Connection :=
  match splitExact n c.incoming with
  | some (bytes, rest) => (.ok bytes, { c with incoming := rest })
  | none => (.error (c.ended.getD OsError.shortRead), { c with incoming := [] })

def bytesText (bytes : Bytes) : String := "[" ++ ", ".intercalate (bytes.map toString) ++ "]"

/-- Says the words with which both sides begin, and hears whether the other side says them too. -/
def shakeHands : Routine Connection Link (Except Error Unit) := do
  Routine.debug .connection "Performing JDWP handshake"
  match ← write handshake with
  | .error e => return .error (.os e)
  | .ok _ =>
    Routine.waitFor (hasBytes handshake.length)
    match ← Routine.modifyGet (takeBytes handshake.length) with
    | .error e => return .error (.os e)
    | .ok answer =>
      if answer = handshake then
        Routine.info .connection "JDWP handshake successful"
        return .ok ()
      else
        Routine.warn .connection s!"Invalid handshake response: {bytesText answer}"
        return .error .badHandshake

/-- Refuses a machine whose ids are not all of the supported size. -/
def checkIdSizes (sizes : IdSizes) : Routine Connection Link (Except Error Unit) := do
  if sizes.allEqual IdSizes.supported then return .ok ()
  Routine.warn .connection s!"VM reported unsupported id sizes: {sizes.text}"
  return .error (.unsupportedIdSizes sizes.text)

/-- Begins on a stream that has just been opened. -/
def establish : Routine Connection Link (Except Error Unit) := do
  match ← shakeHands with
  | .error e => return .error e
  | .ok _ =>
    Routine.info .eventLoop "Event loop started"
    Routine.modify fun c => { c with reading := true }
    match ← (Jdwp.ask Query.idSizes).interpret request with
    | .error e => return .error e
    | .ok sizes => checkIdSizes sizes

end Connection
end JvmDebug.Jdwp
