import JvmDebug.Text.Utf8

/-!
# Hexadecimal digits

Numbers and bytes as lower-case digits, two for each byte.
-/

namespace JvmDebug
set_option autoImplicit false

namespace Hex

def ofNat (n : Nat) : String := String.ofList (Nat.toDigits 16 n)

/-- The digits of a number, filled up to a width with zeros. -/
def padded (width n : Nat) : String :=
  let digits := Nat.toDigits 16 n
  String.ofList (List.replicate (width - digits.length) '0' ++ digits)

def encode (bytes : Bytes) : String := "".intercalate (bytes.map fun b => padded 2 b.toNat)

def digit? (c : Char) : Option Nat :=
  if '0' ≤ c ∧ c ≤ '9' then some (c.toNat - 48)
  else if 'a' ≤ c ∧ c ≤ 'f' then some (c.toNat - 87)
  else none

def decodeChars? : List Char → Option Bytes
  | [] => some []
  | [_] => none
  | a :: b :: rest => do return ((← digit? a) * 16 + (← digit? b)).toUInt8 :: (← decodeChars? rest)

/-- The bytes that digits stand for, if there are two digits for each. -/
def decode? (s : String) : Option Bytes := decodeChars? s.toList

end Hex
end JvmDebug
