import JvmDebug.OsError
import JvmDebug.Text.Hex

/-!
# Errors of the JDWP client

What can go wrong between the client and the virtual machine, the text of each error, and which of them mean that the
machine is gone.
-/

namespace JvmDebug.Jdwp
set_option autoImplicit false

/-- The symbolic name of an error code. -/
def errorName (code : UInt16) : String :=
  match code.toNat with
  | 0 => "NONE"
  | 10 => "INVALID_THREAD"
  | 11 => "INVALID_THREAD_GROUP"
  | 12 => "INVALID_PRIORITY"
  | 13 => "THREAD_NOT_SUSPENDED"
  | 14 => "THREAD_SUSPENDED"
  | 15 => "THREAD_NOT_ALIVE"
  | 20 => "INVALID_OBJECT"
  | 21 => "INVALID_CLASS"
  | 22 => "CLASS_NOT_PREPARED"
  | 23 => "INVALID_METHODID"
  | 24 => "INVALID_LOCATION"
  | 25 => "INVALID_FIELDID"
  | 30 => "INVALID_FRAMEID"
  | 31 => "NO_MORE_FRAMES"
  | 32 => "OPAQUE_FRAME"
  | 33 => "NOT_CURRENT_FRAME"
  | 34 => "TYPE_MISMATCH"
  | 35 => "INVALID_SLOT"
  | 40 => "DUPLICATE"
  | 41 => "NOT_FOUND"
  | 50 => "INVALID_MONITOR"
  | 51 => "NOT_MONITOR_OWNER"
  | 52 => "INTERRUPT"
  | 60 => "INVALID_CLASS_FORMAT"
  | 61 => "CIRCULAR_CLASS_DEFINITION"
  | 62 => "FAILS_VERIFICATION"
  | 68 => "UNSUPPORTED_VERSION"
  | 69 => "NAMES_DONT_MATCH"
  | 99 => "NOT_IMPLEMENTED"
  | 100 => "NULL_POINTER"
  | 101 => "ABSENT_INFORMATION"
  | 102 => "INVALID_EVENT_TYPE"
  | 103 => "ILLEGAL_ARGUMENT"
  | 110 => "OUT_OF_MEMORY"
  | 111 => "ACCESS_DENIED"
  | 112 => "VM_DEAD"
  | 113 => "INTERNAL"
  | 115 => "UNATTACHED_THREAD"
  | 500 => "INVALID_TAG"
  | 502 => "ALREADY_INVOKING"
  | 503 => "INVALID_INDEX"
  | 504 => "INVALID_LENGTH"
  | 506 => "INVALID_STRING"
  | 507 => "INVALID_CLASS_LOADER"
  | 508 => "INVALID_ARRAY"
  | 509 => "TRANSPORT_LOAD"
  | 510 => "TRANSPORT_INIT"
  | 511 => "NATIVE_METHOD"
  | 512 => "INVALID_COUNT"
  | _ => "UNKNOWN_ERROR"

namespace ErrorCode

def invalidThread : UInt16 := 10
def threadNotAlive : UInt16 := 15
def invalidObject : UInt16 := 20
def invalidFrame : UInt16 := 30
def absentInformation : UInt16 := 101
def vmDead : UInt16 := 112

end ErrorCode

/-- How bytes from the machine can break the layout they should have. -/
inductive Malformed where
  | tooShort (what : String) (need available : Nat)
  | negativeCount (count : Int32)
  | badText (why : Utf8.Invalid)
  | unknownTag (tag : UInt8)
  | unknownElementTag (tag : UInt8)
  | unsupportedEvent (kind : UInt8)
  | shortReply
  | notReply (flags : UInt8)
  | packetTooShort (length : Nat)
  | packetTooLong (length limit : Nat)
  | other (text : String)
  deriving DecidableEq, Repr

def Malformed.message : Malformed → String
  | tooShort what need available => s!"Not enough data for {what}: need {need}, have {available}"
  | negativeCount count => s!"Negative count: {count}"
  | badText why => s!"Invalid UTF-8 in string: {why.message}"
  | unknownTag tag => s!"Unknown value tag: {tag}"
  | unknownElementTag tag => s!"Unknown array element tag: {tag}"
  | unsupportedEvent kind => s!"Unsupported event kind: {kind}"
  | shortReply => "Reply packet too short"
  | notReply flags => s!"Invalid reply flag: 0x{Hex.ofNat flags.toNat}"
  | packetTooShort length => s!"Invalid packet length: {length}"
  | packetTooLong length limit => s!"Packet too large: {length} bytes (max: {limit} bytes)"
  | other text => text

inductive Error where
  | os (e : OsError)
  | malformed (why : Malformed)
  | badHandshake
  | rejected (code : UInt16)
  | unsupportedIdSizes (sizes : String)
  | closed
  deriving DecidableEq, Repr

namespace Error

def message : Error → String
  | os e => s!"IO error: {e.text}"
  | malformed why => s!"Protocol error: {why.message}"
  | badHandshake => "Invalid handshake"
  | rejected code => s!"JDWP error code {code}: {errorName code}"
  | unsupportedIdSizes sizes => s!"Unsupported ID sizes reported by VM: {sizes}"
  | closed => "Connection closed"

/-- The error code with which the machine rejected a command. -/
def code? : Error → Option UInt16
  | rejected code => some code
  | _ => none

/-- Whether the machine is gone. -/
def isDisconnect : Error → Bool
  | closed => true
  | rejected code => code = ErrorCode.vmDead
  | os e => e.kind = .unexpectedEnd || e.kind = .connectionReset || e.kind = .brokenPipe
  | _ => false

end Error
end JvmDebug.Jdwp
