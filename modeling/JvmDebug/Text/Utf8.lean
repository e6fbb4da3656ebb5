/-!
# UTF-8

Bytes of text. `decode` reads UTF-8 and says where and why it fails; `encode` writes it. `scan` splits off one
character, or says how many bytes form a sequence that cannot be continued, so that `decodeLossy` can replace it.
-/

namespace JvmDebug
set_option autoImplicit false

abbrev Bytes := List UInt8

namespace Utf8

/-- Where bytes stop being UTF-8. `length` is the size of the bad sequence; it is `none` when the bytes end inside a
sequence that could still have been completed. -/
structure Invalid where
  start : Nat
  length : Option Nat
  deriving DecidableEq, Repr

def Invalid.message (e : Invalid) : String :=
  match e.length with
  | some n => s!"invalid utf-8 sequence of {n} bytes from index {e.start}"
  | none => s!"incomplete utf-8 byte sequence from index {e.start}"

def encodeChar (c : Char) : Bytes :=
  let n := c.toNat
  if n < 0x80 then [n.toUInt8]
  else if n < 0x800 then [(0xC0 + n / 64).toUInt8, (0x80 + n % 64).toUInt8]
  else if n < 0x10000 then
    [(0xE0 + n / 4096).toUInt8, (0x80 + n / 64 % 64).toUInt8, (0x80 + n % 64).toUInt8]
  else
    [(0xF0 + n / 262144).toUInt8, (0x80 + n / 4096 % 64).toUInt8, (0x80 + n / 64 % 64).toUInt8,
      (0x80 + n % 64).toUInt8]

def encode (s : String) : Bytes := s.toList.flatMap encodeChar

/-- What the front of a byte list is: a character of `size` bytes, or `size` bytes that no continuation can save, or
a sequence cut off by the end of the list. -/
inductive Front where
  | char (c : Char) (size : Nat)
  | bad (size : Nat)
  | cut
  deriving DecidableEq

def isContinuation (b : UInt8) : Bool := 0x80 ≤ b && b ≤ 0xBF

/-- The range of the second byte, which keeps out overlong forms, surrogates and numbers above `0x10FFFF`. -/
def secondRange (lead : UInt8) : UInt8 × UInt8 :=
  if lead = 0xE0 then (0xA0, 0xBF)
  else if lead = 0xED then (0x80, 0x9F)
  else if lead = 0xF0 then (0x90, 0xBF)
  else if lead = 0xF4 then (0x80, 0x8F)
  else (0x80, 0xBF)

def isSecond (lead b : UInt8) : Bool := (secondRange lead).1 ≤ b && b ≤ (secondRange lead).2

def bits (b : UInt8) : Nat := b.toNat % 64

def front (lead : UInt8) (rest : Bytes) : Front :=
  if lead < 0x80 then .char (Char.ofNat lead.toNat) 1
  else if lead < 0xC2 || 0xF4 < lead then .bad 1
  else match rest with
    | [] => .cut
    | b1 :: rest =>
      if !isSecond lead b1 then .bad 1
      else if lead < 0xE0 then .char (Char.ofNat (lead.toNat % 32 * 64 + bits b1)) 2
      else match rest with
        | [] => .cut
        | b2 :: rest =>
          if !isContinuation b2 then .bad 2
          else if lead < 0xF0 then
            .char (Char.ofNat (lead.toNat % 16 * 4096 + bits b1 * 64 + bits b2)) 3
          else match rest with
            | [] => .cut
            | b3 :: _ =>
              if !isContinuation b3 then .bad 3
              else .char (Char.ofNat (lead.toNat % 8 * 262144 + bits b1 * 4096 + bits b2 * 64 + bits b3)) 4

/-- Reads characters from a list whose first byte has the index `start`; `skip` bytes of it belong to the character
before. -/
def decodeFrom (start : Nat) : (skip : Nat) → Bytes → Except Invalid (List Char)
  | _, [] => .ok []
  | skip + 1, _ :: rest => decodeFrom (start + 1) skip rest
  | 0, b :: rest =>
    match front b rest with
    | .char c size => (decodeFrom (start + 1) (size - 1) rest).map (c :: ·)
    | .bad size => .error ⟨start, some size⟩
    | .cut => .error ⟨start, none⟩

def decode (bytes : Bytes) : Except Invalid String := (decodeFrom 0 0 bytes).map String.ofList

/-- Reads all characters, with U+FFFD for each sequence that is not UTF-8. -/
def lossyFrom : (skip : Nat) → Bytes → List Char
  | _, [] => []
  | skip + 1, _ :: rest => lossyFrom skip rest
  | 0, b :: rest =>
    match front b rest with
    | .char c size => c :: lossyFrom (size - 1) rest
    | .bad size => '\ufffd' :: lossyFrom (size - 1) rest
    | .cut => ['\ufffd']

def decodeLossy (bytes : Bytes) : String := String.ofList (lossyFrom 0 bytes)

end Utf8
end JvmDebug
