import JvmDebug.Jdwp.Reader

/-!
# Packets

Everything on the wire is a packet: its length, an id, flags, and then a command with its body or the error code and
data of a reply. The length counts the eleven bytes of the header too. `Packet.read` takes the next packet from the
front of the bytes that have come so far.
-/

namespace JvmDebug.Jdwp
set_option autoImplicit false

def headerSize : Nat := 11
def maxPacketSize : Nat := 10 * 1024 * 1024
def replyFlag : UInt8 := 0x80

/-- The bytes with which both sides begin. -/
def handshake : Bytes := Utf8.encode "JDWP-Handshake"

/-- A command: its set, its number in the set, and its body. -/
structure Command where
  set : UInt8
  number : UInt8
  body : Bytes
  deriving DecidableEq, Repr

/-- A command as it is sent under an id. -/
def Command.packet (c : Command) (id : UInt32) : Bytes :=
  Layout.bigEndian 4 (headerSize + c.body.length) ++ Layout.u32 id ++ [0, c.set, c.number] ++ c.body

structure Reply where
  id : UInt32
  error : UInt16
  data : Bytes
  deriving DecidableEq, Repr

namespace Reply

def isError (r : Reply) : Bool := r.error ≠ 0

/-- The data of a reply that is no error. -/
def check (r : Reply) : Except Error Bytes := if r.isError then .error (.rejected r.error) else .ok r.data

def packet (r : Reply) : Bytes :=
  Layout.bigEndian 4 (headerSize + r.data.length) ++ Layout.u32 r.id ++ [replyFlag] ++ Layout.u16 r.error ++ r.data

/-- Reads a whole packet as a reply. -/
def ofPacket (bytes : Bytes) : Except Error Reply :=
  match splitExact headerSize bytes with
  | none => .error (.malformed .shortReply)
  | some (header, data) =>
    let id := (Reader.bigEndian ((header.drop 4).take 4)).toUInt32
    let flags := (header.drop 8).headD 0
    if flags ≠ replyFlag then .error (.malformed (.notReply flags))
    else .ok { id, error := (Reader.bigEndian (header.drop 9)).toUInt16, data }

end Reply

namespace Packet

/-- What the front of a stream is. -/
inductive Front where
  /-- Not yet a whole packet. -/
  | incomplete
  /-- A packet with the bytes of its header, and what follows it. -/
  | packet (id : UInt32) (isReply : Bool) (bytes rest : Bytes)
  | failed (why : Error)

/-- What it means that bytes are missing; `ended` is the error with which a stream ends. -/
def short (ended : Option OsError) : Front :=
  match ended with
  | some e => .failed (.os e)
  | none => .incomplete

/-- The next packet of a stream; `ended` says that nothing will follow the bytes. -/
def read (ended : Option OsError) (bytes : Bytes) : Front :=
  match splitExact headerSize bytes with
  | none => short ended
  | some (header, _) =>
    let length := Reader.bigEndian (header.take 4)
    if length < headerSize then .failed (.malformed (.packetTooShort length))
    else if maxPacketSize < length then .failed (.malformed (.packetTooLong length maxPacketSize))
    else
      match splitExact length bytes with
      | none => short ended
      | some (packet, rest) =>
        let id := (Reader.bigEndian ((header.drop 4).take 4)).toUInt32
        .packet id ((header.drop 8).head? = some replyFlag) packet rest

end Packet
end JvmDebug.Jdwp
