import JvmDebug.Text.Hidden

/-!
# Quoted text

A text between quotes, so that every character of it can be seen. A backslash stands before a quote or another
backslash; characters that would not be seen are named by a letter or by their number.
-/

namespace JvmDebug
set_option autoImplicit false

/-- A character named by its number. -/
def numbered (c : Char) : List Char := "\\u\x7b".toList ++ Nat.toDigits 16 c.toNat ++ ['\x7d']

namespace Quoted

/-- How a character is written if `quotes` are the characters that need a backslash. -/
def encodeChar (quotes : List Char) (c : Char) : List Char :=
  if c = '\x00' then ['\\', '0']
  else if c = '\t' then ['\\', 't']
  else if c = '\n' then ['\\', 'n']
  else if c = '\r' then ['\\', 'r']
  else if c = '\\' ∨ c ∈ quotes then ['\\', c]
  else if isHidden c then numbered c
  else [c]

def encode (quotes : List Char) (s : String) : String :=
  String.ofList ('"' :: s.toList.flatMap (encodeChar quotes) ++ ['"'])

end Quoted

/-- A text between double quotes. -/
def quoted (s : String) : String := Quoted.encode ['"'] s

/-- An argument of a program between double quotes; a backslash stands before single quotes too. -/
def quotedArgument (s : String) : String := Quoted.encode ['"', '\x27'] s

end JvmDebug
