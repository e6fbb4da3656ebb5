import JvmDebug.Json.Basic

/-!
# JSON text

`Document.parse?` reads JSON text into a tree that keeps what was written: numerals as digits, fields in their order
with repetitions, and strings whose escapes name no character as `none`. `Json.parse?` goes on to values. A document
may be nested 127 deep, and a numeral must fit: a whole number that no 64 bits hold becomes a floating-point number,
and one that is too large even for that is refused.
-/

namespace JvmDebug
set_option autoImplicit false

/-- A number as written: its digits, and the sign and digits of the exponent. -/
structure Numeral where
  negative : Bool
  whole : List Nat
  fraction : List Nat
  exponent : Option (Bool × List Nat)
  deriving DecidableEq, Repr

namespace Numeral

/-- The digits at the front that a significand of 64 bits can take in, and how many are left over. -/
def leading (significand : Nat) : List Nat → Nat × Nat
  | [] => (significand, 0)
  | d :: rest =>
    if significand * 10 + d < UInt64.size then leading (significand * 10 + d) rest else (significand, rest.length + 1)

/-- The number nearest to `x * 10 ^ power` for a power the doubles hold, with `10 ^ power` rounded first. -/
def timesPower (x : Nat × Nat) (power : Int) : Binary.Double :=
  let ten := Binary.Double.ofRatio false (Nat.pow 10 power.natAbs) 1
  let (num, den) := match ten.parts with
    | .finite _ m e => (m * Nat.pow 2 e.toNat, Nat.pow 2 (-e).toNat)
    | _ => (1, 1)
  if 0 ≤ power then .ofRatio false (x.1 * num) (x.2 * den) else .ofRatio false (x.1 * den) (x.2 * num)

/-- The quotient that a finite number is. -/
def ratio (x : Binary.Double) : Nat × Nat :=
  match x.parts with
  | .finite _ m e => (m * Nat.pow 2 e.toNat, Nat.pow 2 (-e).toNat)
  | _ => (0, 1)

def isInfinite (x : Binary.Double) : Bool :=
  match x.parts with
  | .infinite _ => true
  | _ => false

/-- The significand, as a double, times the power of ten. Powers below those of a double are applied in steps of
308. A number too large for a double has no value. -/
def scaled : (steps : Nat) → (x : Binary.Double) → (power : Int) → Option Binary.Double
  | 0, x, _ => some x
  | steps + 1, x, power =>
    if power.natAbs ≤ 308 then
      let y := timesPower (ratio x) power
      if isInfinite y then none else some y
    else if (ratio x).1 = 0 then some x
    else if 0 < power then none
    else scaled steps (timesPower (ratio x) (-308)) (power + 308)

def withSign (negative : Bool) (x : Binary.Double) : Binary.Double :=
  if negative then ⟨x.bits ^^^ 0x8000000000000000⟩ else x

def float (negative : Bool) (significand : Nat) (power : Int) : Option Json :=
  (scaled 8 (.ofRatio false significand 1) power).map fun x => .float (withSign negative x)

/-- The value of the exponent digits, unless they exceed 31 bits. -/
def exponent? (digits : List Nat) : Option Nat :=
  let n := digits.foldl (fun n d => n * 10 + d) 0
  if n < 0x80000000 then some n else none

def value? (n : Numeral) : Option Json :=
  let (whole, dropped) := leading 0 n.whole
  let (significand, ignored) := leading whole n.fraction
  let power : Int := dropped - (n.fraction.length - ignored : Nat)
  match n.exponent with
  | none =>
    if n.fraction.isEmpty && dropped = 0 then
      if !n.negative then some (.int whole)
      else if 0 < whole ∧ whole ≤ 0x8000000000000000 then some (.int (-(whole : Int)))
      else float true whole 0
    else float n.negative significand power
  | some (down, digits) =>
    match exponent? digits with
    | some e => float n.negative significand (if down then power - e else power + e)
    | none =>
      if significand ≠ 0 && !down then none
      else some (.float (withSign n.negative ⟨0⟩))

end Numeral

/-- A JSON text as a tree. A string is `none` if one of its escapes stands for half of a surrogate pair. -/
inductive Document where
  | null
  | bool (b : Bool)
  | number (n : Numeral)
  | text (s : Option String)
  | array (items : List Document)
  | object (fields : List (Option String × Document))
  deriving Inhabited

namespace Document

def isSpace (c : Char) : Bool := c = ' ' || c = '\n' || c = '\t' || c = '\r'

def skipSpace (cs : List Char) : List Char := cs.dropWhile isSpace

def digit? (c : Char) : Option Nat := if c.isDigit then some (c.toNat - 48) else none

def hexDigit? (c : Char) : Option Nat :=
  if c.isDigit then some (c.toNat - 48)
  else if 'a' ≤ c && c ≤ 'f' then some (c.toNat - 87)
  else if 'A' ≤ c && c ≤ 'F' then some (c.toNat - 55)
  else none

def hexUnit? (a b c d : Char) : Option Nat := do
  return ((← hexDigit? a) * 16 + (← hexDigit? b)) * 256 + (← hexDigit? c) * 16 + (← hexDigit? d)

/-- What has been read of a string: its characters, last first, the first half of a surrogate pair that waits for its
second half, and whether all escapes stood for characters. -/
structure Partial where
  reversed : List Char
  high : Option Nat
  sound : Bool

namespace Partial

def push (s : Partial) (c : Char) : Partial :=
  { reversed := c :: s.reversed, high := none, sound := s.sound && s.high.isNone }

def pushUnit (s : Partial) (unit : Nat) : Partial :=
  if 0xDC00 ≤ unit ∧ unit < 0xE000 then
    match s.high with
    | some high => { s with
        reversed := Char.ofNat (0x10000 + (high - 0xD800) * 1024 + (unit - 0xDC00)) :: s.reversed, high := none }
    | none => { s with sound := false }
  else if 0xD800 ≤ unit ∧ unit < 0xDC00 then { s with high := some unit, sound := s.sound && s.high.isNone }
  else s.push (Char.ofNat unit)

def finish (s : Partial) : Option String :=
  if s.sound && s.high.isNone then some (String.ofList s.reversed.reverse) else none

end Partial

/-- The rest of a string after its opening quote. -/
def stringRest : List Char → Partial → Option (Option String × List Char)
  | [], _ => none
  | '"' :: rest, s => some (s.finish, rest)
  | '\\' :: 'u' :: a :: b :: c :: d :: rest, s =>
    match hexUnit? a b c d with
    | some unit => stringRest rest (s.pushUnit unit)
    | none => none
  | '\\' :: e :: rest, s =>
    match e with
    | '"' | '\\' | '/' => stringRest rest (s.push e)
    | 'b' => stringRest rest (s.push '\x08')
    | 'f' => stringRest rest (s.push '\x0c')
    | 'n' => stringRest rest (s.push '\n')
    | 'r' => stringRest rest (s.push '\r')
    | 't' => stringRest rest (s.push '\t')
    | _ => none
  | c :: rest, s => if c.toNat < 0x20 ∨ c = '\\' then none else stringRest rest (s.push c)

def string (cs : List Char) : Option (Option String × List Char) := stringRest cs ⟨[], none, true⟩

def digits (cs : List Char) : List Nat × List Char := (cs.takeWhile (·.isDigit) |>.filterMap digit?, cs.dropWhile (·.isDigit))

def fractionPart : List Char → Option (List Nat × List Char)
  | '.' :: rest =>
    let (ds, rest) := digits rest
    if ds.isEmpty then none else some (ds, rest)
  | rest => some ([], rest)

def exponentSign : List Char → Bool × List Char
  | '-' :: rest => (true, rest)
  | '+' :: rest => (false, rest)
  | rest => (false, rest)

def exponentPart : List Char → Option (Option (Bool × List Nat) × List Char)
  | c :: rest =>
    if c = 'e' ∨ c = 'E' then
      let (down, rest) := exponentSign rest
      let (ds, rest) := digits rest
      if ds.isEmpty then none else some (some (down, ds), rest)
    else some (none, c :: rest)
  | [] => some (none, [])

/-- A number: no zeros before other digits, and digits on both sides of a point. -/
def numeral (negative : Bool) (cs : List Char) : Option (Document × List Char) := do
  let (whole, rest) := digits cs
  if whole.isEmpty ∨ (whole.head? = some 0 ∧ 1 < whole.length) then none
  let (fraction, rest) ← fractionPart rest
  let (exponent, rest) ← exponentPart rest
  return (.number ⟨negative, whole, fraction, exponent⟩, rest)

def keyword (word : String) (meaning : Document) (cs : List Char) : Option (Document × List Char) :=
  if word.toList.isPrefixOf cs then some (meaning, cs.drop word.length) else none

mutual

/-- Reads one value from the front of the text. -/
def value : (fuel : Nat) → List Char → Option (Document × List Char)
  | 0, _ => none
  | fuel + 1, cs =>
    match skipSpace cs with
    | [] => none
    | '"' :: rest => (string rest).map fun (s, rest) => (.text s, rest)
    | '[' :: rest =>
      match skipSpace rest with
      | ']' :: rest => some (.array [], rest)
      | rest => (items fuel rest).map fun (xs, rest) => (.array xs, rest)
    | '\x7b' :: rest =>
      match skipSpace rest with
      | '\x7d' :: rest => some (.object [], rest)
      | rest => (fields fuel rest).map fun (xs, rest) => (.object xs, rest)
    | 'n' :: rest => keyword "ull" .null rest
    | 't' :: rest => keyword "rue" (.bool true) rest
    | 'f' :: rest => keyword "alse" (.bool false) rest
    | '-' :: rest => numeral true rest
    | c :: rest => numeral false (c :: rest)

/-- The items of an array up to its closing bracket. -/
def items : (fuel : Nat) → List Char → Option (List Document × List Char)
  | 0, _ => none
  | fuel + 1, cs =>
    match value fuel cs with
    | none => none
    | some (x, rest) =>
      match skipSpace rest with
      | ',' :: rest => (items fuel rest).map fun (xs, rest) => (x :: xs, rest)
      | ']' :: rest => some ([x], rest)
      | _ => none

/-- The fields of an object up to its closing brace. -/
def fields : (fuel : Nat) → List Char → Option (List (Option String × Document) × List Char)
  | 0, _ => none
  | fuel + 1, cs =>
    match skipSpace cs with
    | '"' :: rest =>
      match string rest with
      | none => none
      | some (name, rest) =>
        match skipSpace rest with
        | ':' :: rest =>
          match value fuel rest with
          | none => none
          | some (x, rest) =>
            match skipSpace rest with
            | ',' :: rest => (fields fuel rest).map fun (xs, rest) => ((name, x) :: xs, rest)
            | '\x7d' :: rest => some ([(name, x)], rest)
            | _ => none
        | _ => none
    | _ => none

end

/-- Reads a text that holds one value and nothing else but space. -/
def parse? (text : String) : Option Document :=
  let cs := text.toList
  match value (2 * cs.length + 2) cs with
  | some (d, rest) => if (skipSpace rest).isEmpty then some d else none
  | none => none

mutual

/-- How deep arrays and objects are nested. -/
def depth : Document → Nat
  | .array items => depthOfItems items + 1
  | .object fields => depthOfFields fields + 1
  | _ => 0

def depthOfItems : List Document → Nat
  | [] => 0
  | x :: rest => max (depth x) (depthOfItems rest)

def depthOfFields : List (Option String × Document) → Nat
  | [] => 0
  | (_, x) :: rest => max (depth x) (depthOfFields rest)

end

mutual

/-- The value that a document stands for; none if one of its strings or numbers stands for nothing. -/
def value? : Document → Option Json
  | .null => some .null
  | .bool b => some (.bool b)
  | .number n => n.value?
  | .text s => s.map .str
  | .array items => (valuesOfItems items).map .arr
  | .object fields => (valuesOfFields fields).map Json.object

def valuesOfItems : List Document → Option (List Json)
  | [] => some []
  | x :: rest => do return (← value? x) :: (← valuesOfItems rest)

def valuesOfFields : List (Option String × Document) → Option (List (String × Json))
  | [] => some []
  | (name, x) :: rest => do return (← name, ← value? x) :: (← valuesOfFields rest)

end

end Document

namespace Json

def maxDepth : Nat := 127

def parse? (text : String) : Option Json := do
  let d ← Document.parse? text
  if maxDepth < d.depth then none
  d.value?

end Json
end JvmDebug
