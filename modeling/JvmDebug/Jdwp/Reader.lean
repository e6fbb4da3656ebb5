import JvmDebug.Jdwp.Error

/-!
# Reading and writing bytes

A `Reader` takes what it needs from the front of the bytes. A field that is not there in full is an error, and takes
nothing; what a reader took before it failed stays taken. All numbers are big-endian. Beside each reader stands the
writer of the same layout.
-/

namespace JvmDebug.Jdwp
set_option autoImplicit false

abbrev Reader := ExceptT Error (StateM Bytes)

/-- The first `n` bytes and the others, if there are that many. -/
def splitExact : (n : Nat) → Bytes → Option (Bytes × Bytes)
  | 0, rest => some ([], rest)
  | _ + 1, [] => none
  | n + 1, b :: rest =>
    match splitExact n rest with
    | some (first, others) => some (b :: first, others)
    | none => none

theorem splitExact_append (first rest : Bytes) : splitExact first.length (first ++ rest) = some (first, rest) := by
  induction first with
  | nil => simp [splitExact]
  | cons b first ih => simp [splitExact, ih]

theorem splitExact_eq_none {n : Nat} {bytes : Bytes} : splitExact n bytes = none ↔ bytes.length < n := by
  induction n generalizing bytes with
  | zero => simp [splitExact]
  | succ n ih =>
    cases bytes with
    | nil => simp [splitExact]
    | cons b rest =>
      have := @ih rest
      rw [splitExact]
      split <;> simp_all

namespace Reader

def take (what : String) (n : Nat) : Reader Bytes :=
  ExceptT.mk fun bytes =>
    match splitExact n bytes with
    | some (first, others) => (.ok first, others)
    | none => (.error (.malformed (.tooShort what n bytes.length)), bytes)

/-- What the reader makes of the bytes, and the bytes it leaves. -/
def run {α : Type} (r : Reader α) (bytes : Bytes) : Except Error α × Bytes := StateT.run (ExceptT.run r) bytes

/-- What the reader makes of the bytes; it need not take all of them. -/
def value {α : Type} (r : Reader α) (bytes : Bytes) : Except Error α := (run r bytes).1

def fail {α : Type} (why : Malformed) : Reader α := throw (.malformed why)

/-- The number that bytes stand for, the first of them being the highest. -/
def bigEndian (bytes : Bytes) : Nat := bytes.foldl (fun n b => n * 256 + b.toNat) 0

def u8 : Reader UInt8 := return (bigEndian (← take "u8" 1)).toUInt8
def i8 : Reader Int8 := return (bigEndian (← take "i8" 1)).toUInt8.toInt8
def u16 : Reader UInt16 := return (bigEndian (← take "u16" 2)).toUInt16
def i16 : Reader Int16 := return (bigEndian (← take "i16" 2)).toUInt16.toInt16
def u32 : Reader UInt32 := return (bigEndian (← take "u32" 4)).toUInt32
def i32 : Reader Int32 := return (bigEndian (← take "i32" 4)).toUInt32.toInt32
def u64 : Reader UInt64 := return (bigEndian (← take "u64" 8)).toUInt64
def i64 : Reader Int64 := return (bigEndian (← take "i64" 8)).toUInt64.toInt64

/-- The bits of a 32-bit floating-point number. -/
def f32 : Reader UInt32 := return (bigEndian (← take "f32" 4)).toUInt32

/-- The bits of a 64-bit floating-point number. -/
def f64 : Reader UInt64 := return (bigEndian (← take "f64" 8)).toUInt64

/-- A string: its length in bytes, then its bytes. -/
def string : Reader String := do
  let length := bigEndian (← take "string length" 4)
  let bytes ← take "string" length
  match Utf8.decode bytes with
  | .ok s => return s
  | .error why => fail (.badText why)

/-- The length of a list. It is a signed number on the wire, but may not be negative. -/
def count : Reader Nat := do
  let n ← i32
  if n < 0 then fail (.negativeCount n) else return n.toInt.toNat

def times {α : Type} (r : Reader α) : Nat → Reader (List α)
  | 0 => return []
  | n + 1 => do
    let a ← r
    return a :: (← times r n)

/-- A list: its length, then its items. -/
def list {α : Type} (r : Reader α) : Reader (List α) := do times r (← count)

/-- Reads one after the other, up to the end of the bytes or to the first that cannot be read. -/
def all {α : Type} (r : Reader α) (bytes : Bytes) : List (Except Error α) := go bytes.length bytes
where
  go : Nat → Bytes → List (Except Error α)
    | 0, _ => []
    | _, [] => []
    | fuel + 1, bytes =>
      match r.run bytes with
      | (.ok a, left) => .ok a :: go fuel left
      | (.error e, _) => [.error e]

end Reader

namespace Layout

def bigEndian : (width : Nat) → Nat → Bytes
  | 0, _ => []
  | width + 1, n => bigEndian width (n / 256) ++ [n.toUInt8]

def u8 (n : UInt8) : Bytes := [n]
def u16 (n : UInt16) : Bytes := bigEndian 2 n.toNat
def u32 (n : UInt32) : Bytes := bigEndian 4 n.toNat
def u64 (n : UInt64) : Bytes := bigEndian 8 n.toNat
def i8 (n : Int8) : Bytes := u8 n.toUInt8
def i16 (n : Int16) : Bytes := u16 n.toUInt16
def i32 (n : Int32) : Bytes := u32 n.toUInt32
def i64 (n : Int64) : Bytes := u64 n.toUInt64

def flag (b : Bool) : Bytes := [if b then 1 else 0]

def string (s : String) : Bytes :=
  let bytes := Utf8.encode s
  bigEndian 4 bytes.length ++ bytes

def count (n : Nat) : Bytes := bigEndian 4 n

def list {α : Type} (item : α → Bytes) (items : List α) : Bytes := count items.length ++ items.flatMap item

end Layout
end JvmDebug.Jdwp
