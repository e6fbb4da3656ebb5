import JvmDebug.Json.Document
import JvmDebug.Json.Printer
import JvmDebug.Text.Quoted
import JvmDebug.Text.Utf8

/-!
# JSON cursors

A cursor goes through a JSON text byte by byte. A reader takes a value of a known kind from where the cursor stands; if
it cannot, it tells the flaw, and how many bytes had been taken until then. A flaw in what is looked at and not taken
counts that byte too. What is no part of the value asked for is skipped, but has to be well formed.
-/

namespace JvmDebug.Json
set_option autoImplicit false

/-- What is wrong with a text, or with a value in it. -/
inductive Flaw where
  | endInList
  | endInObject
  | endInString
  | endInValue
  | noColon
  | noListEnd
  | noObjectEnd
  | noWord
  | noValue
  | badEscape
  | badNumber
  | tooLarge
  | brokenPair
  | noSecondHalf
  | controlCharacter
  | nameNotString
  | trailingComma
  | trailing
  | wrongType (found expected : String)
  | wrongLength (length : Nat) (expected : String)
  | missing (field : String)
  | repeated (field : String)
  deriving DecidableEq, Repr

def Flaw.message : Flaw → String
  | endInList => "EOF while parsing a list"
  | endInObject => "EOF while parsing an object"
  | endInString => "EOF while parsing a string"
  | endInValue => "EOF while parsing a value"
  | noColon => "expected \x60:\x60"
  | noListEnd => "expected \x60,\x60 or \x60]\x60"
  | noObjectEnd => "expected \x60,\x60 or \x60\x7d\x60"
  | noWord => "expected ident"
  | noValue => "expected value"
  | badEscape => "invalid escape"
  | badNumber => "invalid number"
  | tooLarge => "number out of range"
  | brokenPair => "lone leading surrogate in hex escape"
  | noSecondHalf => "unexpected end of hex escape"
  | controlCharacter => "control character (\\u0000-\\u001F) found while parsing a string"
  | nameNotString => "key must be a string"
  | trailingComma => "trailing comma"
  | trailing => "trailing characters"
  | wrongType found expected => s!"invalid type: {found}, expected {expected}"
  | wrongLength length expected => s!"invalid length {length}, expected {expected}"
  | missing field => "missing field \x60" ++ field ++ "\x60"
  | repeated field => "duplicate field \x60" ++ field ++ "\x60"

/-- A flaw, and the number of bytes after which it showed. -/
structure Fault where
  flaw : Flaw
  taken : Nat
  deriving DecidableEq, Repr

/-- The fault in words; its place is the line, and the number of bytes of that line. -/
def Fault.message (f : Fault) (text : Bytes) : String :=
  let before := text.take f.taken
  let column := (before.reverse.takeWhile (· ≠ 10)).length
  s!"{f.flaw.message} at line {before.count 10 + 1} column {column}"

/-- A place in a text of `size` bytes. -/
structure Cursor where
  size : Nat
  taken : Nat
  rest : Bytes

namespace Cursor

abbrev Reader := StateT Cursor (Except Fault)

variable {α σ : Type}

def fail (f : Flaw) : Reader α := fun c => .error ⟨f, c.taken⟩

/-- Fails because of the byte that comes next, if there is one. -/
def failNext (f : Flaw) : Reader α := fun c => .error ⟨f, c.taken + min 1 c.rest.length⟩

/-- The next byte, if it is one of ASCII: as the character that it stands for. -/
def peek : Reader (Option Char) := fun c => .ok (c.rest.head?.map fun b => Char.ofNat b.toNat, c)

def skip : Reader Unit := fun c =>
  match c.rest with
  | [] => .ok ((), c)
  | _ :: rest => .ok ((), { c with taken := c.taken + 1, rest })

def next : Reader (Option Char) := do
  let c ← peek
  skip
  return c

def takeWhile (p : Char → Bool) : Reader (List Char) := fun c =>
  let front := c.rest.takeWhile fun b => p (Char.ofNat b.toNat)
  .ok (front.map fun b => Char.ofNat b.toNat,
    { c with taken := c.taken + front.length, rest := c.rest.drop front.length })

/-- A measure for what is left. -/
def fuel : Reader Nat := fun c => .ok (2 * (c.size - c.taken) + 2, c)

/-- Skips space, and looks at what comes then. -/
def space : Reader (Option Char) := do
  let _ ← takeWhile Document.isSpace
  peek

/-! Strings -/

def hexUnit : Reader Nat := fun c =>
  match c.rest with
  | d₁ :: d₂ :: d₃ :: d₄ :: rest =>
    let digit (b : UInt8) : Char := Char.ofNat b.toNat
    match Document.hexUnit? (digit d₁) (digit d₂) (digit d₃) (digit d₄) with
    | some unit => .ok (unit, { c with taken := c.taken + 4, rest })
    | none => .error ⟨.badEscape, c.taken + 4⟩
  | _ => .error ⟨.endInString, c.taken + c.rest.length⟩

/-- The character that a letter after a backslash stands for. -/
def escaped? : Char → Option Char
  | '"' => some '"'
  | '\\' => some '\\'
  | '/' => some '/'
  | 'b' => some '\x08'
  | 'f' => some '\x0c'
  | 'n' => some '\n'
  | 'r' => some '\r'
  | 't' => some '\t'
  | _ => none

/-- The beginning of the second half of a surrogate pair. -/
def secondHalf (expected : Char) : Reader Unit := do
  match ← next with
  | none => fail .endInString
  | some c => if c = expected then return () else fail .noSecondHalf

/-- A character that is given by its number, which may take two units. -/
def unicode : Reader Char := do
  let unit ← hexUnit
  if 0xDC00 ≤ unit ∧ unit < 0xE000 then fail .brokenPair
  else if 0xD800 ≤ unit ∧ unit < 0xDC00 then
    secondHalf '\\'
    secondHalf 'u'
    let second ← hexUnit
    if 0xDC00 ≤ second ∧ second < 0xE000 then
      return Char.ofNat (0x10000 + (unit - 0xD800) * 1024 + (second - 0xDC00))
    else fail .brokenPair
  else return Char.ofNat unit

/-- What stands for a character after a backslash; units are read by `number`. -/
def escape (number : Reader Char) : Reader Char := do
  match ← next with
  | none => fail .endInString
  | some 'u' => number
  | some c =>
    match escaped? c with
    | some e => return e
    | none => fail .badEscape

/-- The rest of a string after its opening quote. -/
def stringRest : (fuel : Nat) → (reversed : Bytes) → Reader String
  | 0, _ => fail .endInString
  | fuel + 1, reversed => fun c =>
    match c.rest with
    | [] => fail .endInString c
    | b :: rest =>
      let c := { c with taken := c.taken + 1, rest }
      if b = 0x22 then .ok (Utf8.decodeLossy reversed.reverse, c)
      else if b = 0x5C then (escape unicode >>= fun e => stringRest fuel ((Utf8.encodeChar e).reverse ++ reversed)) c
      else if b < 0x20 then fail .controlCharacter c
      else stringRest fuel (b :: reversed) c

def skipStringRest : (fuel : Nat) → Reader Unit
  | 0 => fail .endInString
  | fuel + 1 => do
    match ← peek with
    | none => fail .endInString
    | some '"' => skip
    | some '\\' =>
      skip
      let _ ← escape (Char.ofNat <$> hexUnit)
      skipStringRest fuel
    | some c =>
      if c.toNat < 0x20 then fail .controlCharacter
      else
        skip
        skipStringRest fuel

/-- A string at whose opening quote the cursor stands. -/
def stringHere : Reader String := do
  skip
  stringRest (← fuel) []

def skipString : Reader Unit := do
  skip
  skipStringRest (← fuel)

/-! Words and numbers -/

def word : List Char → Reader Unit
  | [] => return ()
  | w :: rest => do
    match ← next with
    | none => fail .endInValue
    | some c => if c = w then word rest else fail .noWord

def digits : Reader (List Nat) := (·.filterMap Document.digit?) <$> takeWhile Char.isDigit

def fraction (atEnd : Flaw) : Reader (List Nat) := do
  match ← peek with
  | some '.' =>
    skip
    match ← digits with
    | [] => failNext (if (← peek).isNone then atEnd else .badNumber)
    | ds => return ds
  | _ => return []

def exponent (atEnd : Flaw) : Reader (Option (Bool × List Nat)) := do
  match ← peek with
  | some 'e' | some 'E' =>
    skip
    let sign ← peek
    if sign = some '+' ∨ sign = some '-' then skip
    match ← digits with
    | [] =>
      match ← next with
      | none => fail atEnd
      | some _ => fail .badNumber
    | ds => return some (sign = some '-', ds)
  | _ => return none

/-- A number after its sign. `atEnd` is the flaw of a text that ends before the number does. -/
def numeral (atEnd : Flaw) (negative : Bool) : Reader Numeral := do
  let start ← get
  match ← digits with
  | [] =>
    match ← next with
    | none => fail atEnd
    | some _ => fail .badNumber
  | 0 :: _ :: _ => throw ⟨.badNumber, start.taken + 2⟩
  | whole => return ⟨negative, whole, ← fraction atEnd, ← exponent atEnd⟩

/-! Values that are skipped -/

mutual

def skipValue : (fuel : Nat) → Reader Unit
  | 0 => failNext .noValue
  | fuel + 1 => do
    match ← space with
    | none => failNext .endInValue
    | some 'n' => skip; word "ull".toList
    | some 't' => skip; word "rue".toList
    | some 'f' => skip; word "alse".toList
    | some '"' => skipString
    | some '[' =>
      skip
      match ← space with
      | none => failNext .endInList
      | some ']' => skip
      | some _ => skipItems fuel
    | some '\x7b' =>
      skip
      match ← space with
      | none => failNext .endInObject
      | some '\x7d' => skip
      | some _ => skipFields fuel
    | some '-' =>
      skip
      let _ ← numeral .badNumber true
    | some c =>
      if c.isDigit then
        let _ ← numeral .badNumber false
      else failNext .noValue

def skipItems : (fuel : Nat) → Reader Unit
  | 0 => failNext .noListEnd
  | fuel + 1 => do
    skipValue fuel
    match ← space with
    | none => failNext .endInList
    | some ',' => skip; skipItems fuel
    | some ']' => skip
    | some _ => failNext .noListEnd

def skipFields : (fuel : Nat) → Reader Unit
  | 0 => failNext .noObjectEnd
  | fuel + 1 => do
    match ← space with
    | none => failNext .endInObject
    | some '"' => skipString
    | some _ => failNext .nameNotString
    match ← space with
    | none => failNext .endInObject
    | some ':' => skip
    | some _ => failNext .noColon
    skipValue fuel
    match ← space with
    | none => failNext .endInObject
    | some ',' => skip; skipFields fuel
    | some '\x7d' => skip
    | some _ => failNext .noObjectEnd

end

/-! Values that are read -/

/-- A number as it is called when something else was expected. -/
def numberName (n : Numeral) : Option String :=
  match n.value? with
  | some (.int k) => some ("integer \x60" ++ toString k ++ "\x60")
  | some (.float x) => some ("floating point \x60" ++ floatText x ++ "\x60")
  | _ => none

/-- Fails because the value that comes next is not what was expected. -/
def wrongType (expected : String) : Reader α := do
  let found (what : String) : Reader α := fail (.wrongType what expected)
  let number (negative : Bool) : Reader α := do
    match numberName (← numeral .endInValue negative) with
    | some name => found name
    | none => fail .tooLarge
  match ← peek with
  | some 'n' => skip; word "ull".toList; found "null"
  | some 't' => skip; word "rue".toList; found "boolean \x60true\x60"
  | some 'f' => skip; word "alse".toList; found "boolean \x60false\x60"
  | some '"' => found ("string " ++ quoted (← stringHere))
  | some '[' => found "sequence"
  | some '\x7b' => found "map"
  | some '-' => skip; number true
  | some c => if c.isDigit then number false else failNext .noValue
  | none => failNext .noValue

def string : Reader String := do
  match ← space with
  | none => failNext .endInValue
  | some '"' => stringHere
  | some _ => wrongType "a string"

/-- Whether a list has another item; `first` says that there was none before. -/
def hasItem (first : Bool) : Reader Bool := do
  match ← space with
  | none => failNext .endInList
  | some ']' => return false
  | some c =>
    if first then return true
    else if c = ',' then
      skip
      match ← space with
      | none => failNext .endInValue
      | some ']' => failNext .trailingComma
      | some _ => return true
    else failNext .noListEnd

/-- Whether an object has another field. -/
def hasField (first : Bool) : Reader Bool := do
  match ← space with
  | none => failNext .endInObject
  | some '\x7d' => return false
  | some c =>
    if first then
      if c = '"' then return true else failNext .nameNotString
    else if c = ',' then
      skip
      match ← space with
      | none => failNext .endInValue
      | some '"' => return true
      | some '\x7d' => failNext .trailingComma
      | some _ => failNext .nameNotString
    else failNext .noObjectEnd

def closeList : Reader Unit := do
  match ← space with
  | none => failNext .endInList
  | some ']' => skip
  | some ',' =>
    skip
    match ← space with
    | some ']' => failNext .trailingComma
    | _ => failNext .trailing
  | some _ => failNext .trailing

def closeObject : Reader Unit := do
  match ← space with
  | none => failNext .endInObject
  | some '\x7d' => skip
  | some ',' => failNext .trailingComma
  | some _ => failNext .trailing

/-- What is wrong with a list or an object as a whole is told behind its end, if that comes next. -/
def failBehind (close : Char) (f : Flaw) : Reader α := do
  if (← space) = some close then skip
  fail f

def items (item : Reader α) : (fuel : Nat) → (first : Bool) → Reader (List α)
  | 0, _ => return []
  | fuel + 1, first => do
    if ← hasItem first then
      let a ← item
      return a :: (← items item fuel false)
    else return []

def list (item : Reader α) : Reader (List α) := do
  match ← space with
  | none => failNext .endInValue
  | some '[' =>
    skip
    let all ← items item (← fuel) true
    closeList
    return all
  | some _ => wrongType "a sequence"

def colon : Reader Unit := do
  match ← space with
  | none => failNext .endInObject
  | some ':' => skip
  | some _ => failNext .noColon

/-- The fields of an object, each of which changes what was read before it. -/
def fields (field : String → σ → Reader σ) : (fuel : Nat) → (first : Bool) → σ → Reader σ
  | 0, _, s => return s
  | fuel + 1, first, s => do
    if ← hasField first then
      let s ← field (← stringHere) s
      fields field fuel false s
    else return s

/-- The value of a field, which must not have had one before. -/
def once (name : String) (before : Option α) (read : Reader α) : Reader (Option α) := do
  match before with
  | some _ => failBehind '\x7d' (.repeated name)
  | none =>
    colon
    some <$> read

/-- The value of a field that is of no interest. -/
def ignore : Reader Unit := do
  colon
  skipValue (← fuel)

/-- A record: an object with its fields, or a list of their values. -/
def record (expected : String) (ofList ofObject : Reader α) : Reader α := do
  match ← space with
  | none => failNext .endInValue
  | some '[' =>
    skip
    let a ← ofList
    closeList
    return a
  | some '\x7b' =>
    skip
    let a ← ofObject
    closeObject
    return a
  | some _ => wrongType expected

/-- Reads a text that holds one value and nothing else but space. -/
def readAll (read : Reader α) (text : Bytes) : Except Fault α := do
  let whole : Reader α := do
    let a ← read
    if (← space).isSome then failNext .trailing
    return a
  return (← whole.run ⟨text.length, 0, text⟩).1

end Cursor
end JvmDebug.Json
