import JvmDebug.Jdwp.Value

/-!
# Names of types

A machine names types by signatures (`Lcom/example/Outer$Inner;`, `[I`). A class has a binary name
(`com.example.Outer$Inner`), and every type has a name as it is written in source (`int[]`).
-/

namespace JvmDebug.Jdwp
set_option autoImplicit false

namespace Signature

def replaceChar (old new : Char) (cs : List Char) : List Char := cs.map fun c => if c = old then new else c

/-- The text without the semicolons at its end. -/
def withoutSemicolons (cs : List Char) : List Char := (cs.reverse.dropWhile (· = ';')).reverse

/-- The source name of a type; each `[` in front of its signature becomes a `[]` at the end. -/
def typeNameChars : List Char → List Char
  | '[' :: element => typeNameChars element ++ ['[', ']']
  | 'L' :: rest => replaceChar '/' '.' (withoutSemicolons rest)
  | 'B' :: _ => "byte".toList
  | 'C' :: _ => "char".toList
  | 'D' :: _ => "double".toList
  | 'F' :: _ => "float".toList
  | 'I' :: _ => "int".toList
  | 'J' :: _ => "long".toList
  | 'S' :: _ => "short".toList
  | 'Z' :: _ => "boolean".toList
  | 'V' :: _ => "void".toList
  | other => other

def typeName (signature : String) : String := String.ofList (typeNameChars signature.toList)

/-- What stands between the `L` and the last `;` of a class signature. -/
def classPart? : List Char → Option (List Char)
  | 'L' :: rest => if rest.getLast? = some ';' then some rest.dropLast else none
  | _ => none

/-- The binary name of a class; other types have their source name. -/
def binaryName (signature : String) : String :=
  match classPart? signature.toList with
  | some name => String.ofList (replaceChar '/' '.' name)
  | none => typeName signature

def ofBinaryName (name : String) : String := String.ofList ('L' :: replaceChar '.' '/' name.toList ++ [';'])

/-- The byte by which a variable with this signature is asked for: the first of the signature. -/
def leadByte (signature : String) : UInt8 := (Utf8.encode signature).headD 'L'.toNat.toUInt8

end Signature
end JvmDebug.Jdwp
