import JvmDebug.OsError
import JvmDebug.Text.Blank
import JvmDebug.Text.Line

/-!
# Framing

Each message is preceded by header lines and an empty line:

    Content-Length: <bytes>

`read` takes the next message from the front of the bytes that have come so far. It waits for more as long as what has
come is a proper beginning of a message, unless the stream has ended.
-/

namespace JvmDebug.Dap.Framing
set_option autoImplicit false

def maxMessageSize : Nat := 64 * 1024 * 1024

/-- What the front of a stream is. -/
inductive Front where
  /-- Not yet a whole message. -/
  | incomplete
  | message (body : String) (rest : Bytes)
  | ended
  | failed (why : OsError)

def endedInHeaders : OsError := ⟨.unexpectedEnd, "stream ended inside message headers"⟩
def missingLength : OsError := ⟨.invalidData, "missing Content-Length header"⟩
def invalidLength (text : String) : OsError := ⟨.invalidData, "invalid Content-Length: " ++ text⟩
def tooLarge (size : Nat) : OsError := ⟨.invalidData, s!"message too large: {size} bytes"⟩
def notText (why : Utf8.Invalid) : OsError := ⟨.invalidData, why.message⟩

/-- Digits, of which a plus sign may stand in front, as a number that 64 bits hold. -/
def lengthOf? (cs : List Char) : Option Nat :=
  let digits := match cs with
    | '+' :: rest => rest
    | _ => cs
  if digits.isEmpty || digits.any (!·.isDigit) then none
  else
    let n := digits.foldl (fun n c => n * 10 + (c.toNat - 48)) 0
    if n < UInt64.size then some n else none

/-- What a header line says about the length: nothing, a number, or something else. -/
def lengthHeader (line : String) : Option (Except OsError Nat) :=
  match "Content-Length:".toList.isPrefixOf? (trimmed line.toList) with
  | none => none
  | some rest =>
    let text := trimmed rest
    match lengthOf? text with
    | some n => some (.ok n)
    | none => some (.error (invalidLength (String.ofList text)))

/-- The body of a message of which the headers announced a length. -/
def readBody (ended : Bool) (length : Option Nat) (bytes : Bytes) : Front :=
  match length with
  | none => .failed missingLength
  | some n =>
    if maxMessageSize < n then .failed (tooLarge n)
    else if bytes.length < n then
      if ended then .failed OsError.shortRead else .incomplete
    else
      match Utf8.decode (bytes.take n) with
      | .ok body => .message body (bytes.drop n)
      | .error why => .failed (notText why)

/-- Reads header lines. Empty lines before the first of them are passed over. -/
def readHeaders (ended : Bool) :
    (fuel : Nat) → (length : Option Nat) → (inHeaders : Bool) → Bytes → Front
  | 0, _, _, _ => .incomplete
  | fuel + 1, length, inHeaders, bytes =>
    let (line, rest) := Line.split bytes
    if !Line.isTerminated line && !ended then .incomplete
    else if line.isEmpty then
      if inHeaders then .failed endedInHeaders else .ended
    else
      match Utf8.decode line with
      | .error why => .failed (notText why)
      | .ok text =>
        if text = "\r\n" || text = "\n" then
          if inHeaders then readBody ended length rest else readHeaders ended fuel length false rest
        else
          match lengthHeader text with
          | none => readHeaders ended fuel length true rest
          | some (.ok n) => readHeaders ended fuel (some n) true rest
          | some (.error why) => .failed why

/-- The next message of a stream; `ended` says that nothing will follow the bytes. -/
def read (ended : Bool) (bytes : Bytes) : Front := readHeaders ended (bytes.length + 1) none false bytes

/-- All messages of a whole stream, up to its end or to the first that cannot be read. -/
def readAll : (fuel : Nat) → Bytes → List (Except OsError String)
  | 0, _ => []
  | fuel + 1, bytes =>
    match read true bytes with
    | .message body rest => .ok body :: readAll fuel rest
    | .failed why => [.error why]
    | .incomplete | .ended => []

def header (size : Nat) : String := s!"Content-Length: {size}\r\n\r\n"

/-- A message with its header. -/
def write (body : String) : Bytes :=
  let bytes := Utf8.encode body
  Utf8.encode (header bytes.length) ++ bytes

end JvmDebug.Dap.Framing
