import JvmDebug.Json.Basic
import JvmDebug.Decimal.Shortest

/-!
# Printing JSON

The text of a value, without spaces. Only quotes, backslashes and control characters are escaped. A floating-point
number has the fewest digits that read back, and a tie goes to the even digit. It is written without an exponent if its
point stands at most 16 places after and less than 5 places before its first digit, and is never taken for a whole
number. An exponent has a sign.
-/

namespace JvmDebug
set_option autoImplicit false

namespace Json

def hexDigit (n : Nat) : Char := (Nat.toDigits 16 n).getD 0 '0'

def escapeChar (c : Char) : List Char :=
  if c = '"' then ['\\', '"']
  else if c = '\\' then ['\\', '\\']
  else if c = '\n' then ['\\', 'n']
  else if c = '\r' then ['\\', 'r']
  else if c = '\t' then ['\\', 't']
  else if c = '\x08' then ['\\', 'b']
  else if c = '\x0c' then ['\\', 'f']
  else if c.toNat < 0x20 then ['\\', 'u', '0', '0', hexDigit (c.toNat / 16), hexDigit (c.toNat % 16)]
  else [c]

def quoted (s : String) : String := String.ofList ('"' :: s.toList.flatMap escapeChar ++ ['"'])

def exponentText (n : Int) : String := (if 0 ≤ n then "e+" else "e") ++ toString n

/-- A decimal with its point after `point` of its digits, in positional form or with an exponent. -/
def decimalText (s : Decimal.Scaled) : String :=
  let digits := Nat.toDigits 10 s.digits
  let point : Int := digits.length + s.power
  if 0 < point ∧ point ≤ 16 then
    let text := s.positional
    if 0 ≤ s.power then text ++ ".0" else text
  else if -5 < point ∧ point ≤ 0 then s.positional
  else
    let exponent := exponentText (point - 1)
    match digits with
    | [d] => String.ofList [d] ++ exponent
    | d :: rest => String.ofList (d :: '.' :: rest) ++ exponent
    | [] => ""

def floatText (x : Binary.Double) : String :=
  match x.parts with
  | .finite negative significand power =>
    let text :=
      if significand = 0 then "0.0" else decimalText (Decimal.shortest Binary.double .toEven significand power)
    if negative then "-" ++ text else text
  | _ => "null"

mutual

def render : Json → String
  | .null => "null"
  | .bool b => if b then "true" else "false"
  | .int n => toString n
  | .float x => floatText x
  | .str s => quoted s
  | .arr items => "[" ++ ",".intercalate (renderItems items) ++ "]"
  | .obj fields => "\x7b" ++ ",".intercalate (renderFields fields) ++ "\x7d"

def renderItems : List Json → List String
  | [] => []
  | x :: rest => render x :: renderItems rest

def renderFields : List (String × Json) → List String
  | [] => []
  | (name, x) :: rest => (quoted name ++ ":" ++ render x) :: renderFields rest

end

end Json
end JvmDebug
