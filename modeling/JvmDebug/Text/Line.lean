import JvmDebug.Text.Utf8

/-!
# Lines

A stream of bytes is read line by line. A line ends with a line feed, or with the end of the stream.
-/

namespace JvmDebug
set_option autoImplicit false

namespace Line

/-- A line with the line feed that ends it, and what follows; the line may be the unfinished last one. -/
def split : Bytes → Bytes × Bytes
  | [] => ([], [])
  | b :: rest =>
    if b = 10 then ([b], rest)
    else
      let (line, others) := split rest
      (b :: line, others)

theorem split_append (bytes : Bytes) : (split bytes).1 ++ (split bytes).2 = bytes := by
  induction bytes with
  | nil => rfl
  | cons b rest ih => by_cases h : b = 10 <;> simp [split, h, ih]

def isTerminated (line : Bytes) : Bool := line.getLast? = some 10

/-- The line without the line feed, or carriage return and line feed, that ends it. -/
def content (line : Bytes) : Bytes :=
  match line.reverse with
  | 10 :: 13 :: rest => rest.reverse
  | 10 :: rest => rest.reverse
  | _ => line

/-- What the front of a stream is. -/
inductive Next where
  /-- Not yet a whole line. -/
  | incomplete
  | line (text : String) (rest : Bytes)
  | ended
  | invalid (why : Utf8.Invalid)

/-- The next line of a stream; `ended` says that nothing will follow the bytes. -/
def next (ended : Bool) (bytes : Bytes) : Next :=
  let (line, rest) := split bytes
  if !isTerminated line && !ended then .incomplete
  else if line.isEmpty then .ended
  else
    match Utf8.decode line with
    | .ok _ =>
      match Utf8.decode (content line) with
      | .ok text => .line text rest
      | .error why => .invalid why
    | .error why => .invalid why

/-- All lines of a whole stream up to the first that is no text, and what was wrong with that. -/
def all : (fuel : Nat) → Bytes → List String × Option Utf8.Invalid
  | 0, _ => ([], none)
  | fuel + 1, bytes =>
    match next true bytes with
    | .line text rest =>
      let (lines, why) := all fuel rest
      (text :: lines, why)
    | .invalid why => ([], some why)
    | .incomplete | .ended => ([], none)

def ofStream (bytes : Bytes) : List String × Option Utf8.Invalid := all (bytes.length + 1) bytes

end Line
end JvmDebug
