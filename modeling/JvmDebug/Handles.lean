import JvmDebug.Error

/-!
# Handles

The client knows frames, variables and exceptions by numbers. A handle is a number that stands for a value and belongs
to an owner, as a rule the thread that was stopped when the value was looked at. Handles count up from 1 and are never
given out twice; 0 stands for nothing.
-/

namespace JvmDebug
set_option autoImplicit false

structure Handles (ω α : Type) where
  /-- What the handles stand for, as errors call it. -/
  kind : String
  next : Int := 1
  /-- The handles that are valid, oldest first. -/
  entries : List (Int × ω × α) := []

namespace Handles

variable {ω α : Type}

def store (h : Handles ω α) (owner : ω) (value : α) : Int × Handles ω α :=
  (h.next, { h with next := h.next + 1, entries := h.entries ++ [(h.next, owner, value)] })

def find? (h : Handles ω α) (handle : Int) : Option α := (h.entries.find? (·.1 == handle)).map (·.2.2)

def get (h : Handles ω α) (handle : Int) : Except Error α :=
  match h.find? handle with
  | some value => .ok value
  | none => .error (.notFound s!"{h.kind} {handle}")

variable [DecidableEq ω]

/-- The handles of an owner, oldest first. -/
def ownedBy (h : Handles ω α) (owner : ω) : List Int := (h.entries.filter (·.2.1 = owner)).map (·.1)

/-- The value that an owner stored last. -/
def latest? (h : Handles ω α) (owner : ω) : Option α := ((h.entries.filter (·.2.1 = owner)).map (·.2.2)).getLast?

def release (h : Handles ω α) (owner : ω) : Handles ω α :=
  { h with entries := h.entries.filter fun e => e.2.1 ≠ owner }

omit [DecidableEq ω] in
def releaseAll (h : Handles ω α) : Handles ω α := { h with entries := [] }

def size (h : Handles ω α) : Nat := h.entries.length

end Handles
end JvmDebug
