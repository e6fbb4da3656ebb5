import JvmDebug.Breakpoint.Basic

/-!
# The book of breakpoints

`BreakpointBook` holds what the client asked for, and which of it is installed. The breakpoints and the filters are
watched cells: whoever watches one finds its newest value, and is told that it changed since it was last looked at.
Each change of the breakpoints makes a new generation, and gives the source that was set a revision.
-/

namespace JvmDebug
set_option autoImplicit false

/-- A value that can be watched; `version` counts its changes. -/
structure Watched (α : Type) where
  value : α
  version : Nat := 0

namespace Watched

variable {α : Type}

def put (w : Watched α) (value : α) : Watched α := ⟨value, w.version + 1⟩

/-- A change to the same value is none. -/
def putIfNew [DecidableEq α] (w : Watched α) (value : α) : Watched α :=
  if value = w.value then w else w.put value

end Watched

structure BreakpointSet where
  generation : Nat := 0
  bySource : PathMap (List Breakpoint) := []
  /-- The generation in which each source was last set. -/
  revisions : PathMap Nat := []

namespace BreakpointSet

def all (s : BreakpointSet) : List Breakpoint := s.bySource.flatMap (·.2)

/-- Takes the first breakpoint out of a list that stands at the line and column asked for. -/
def takeAt (r : RequestedBreakpoint) : List Breakpoint → Option (Breakpoint × List Breakpoint)
  | [] => none
  | b :: rest =>
    if b.position.line = r.position.line ∧ b.position.column = r.position.column then some (b, rest)
    else (takeAt r rest).map fun (found, others) => (found, b :: others)

/-- Gives numbers to breakpoints: that of an earlier one at the same line and column, as long as there are such, else
the next free number. -/
def number : (earlier : List Breakpoint) → (next : Int) → List RequestedBreakpoint → List Breakpoint × Int
  | _, next, [] => ([], next)
  | earlier, next, r :: rest =>
    match takeAt r earlier with
    | some (old, others) =>
      let (stored, next) := number others next rest
      (⟨old.id, r.position, r.condition⟩ :: stored, next)
    | none =>
      let (stored, last) := number earlier (next + 1) rest
      (⟨next, r.position, r.condition⟩ :: stored, last)

/-- The set after the breakpoints of a source were replaced, the stored breakpoints, and the next free number. -/
def replace (s : BreakpointSet) (path : Path) (requested : List RequestedBreakpoint) (next : Int) :
    BreakpointSet × List Breakpoint × Int :=
  let (stored, next) := number ((s.bySource.find? path).getD []) next requested
  let others := PathMap.erase s.bySource path
  let generation := s.generation + 1
  if stored.isEmpty then
    ({ generation, bySource := others, revisions := PathMap.erase s.revisions path }, stored, next)
  else
    ({ generation, bySource := PathMap.insert path stored others,
       revisions := PathMap.insert path generation s.revisions }, stored, next)

end BreakpointSet

structure BreakpointBook where
  breakpoints : Watched BreakpointSet := ⟨{}, 0⟩
  filters : Watched ExceptionFilters := ⟨{}, 0⟩
  /-- The newest generation that a debuggee has installed. -/
  synced : Nat := 0
  /-- The breakpoints that have code, in no order. -/
  verified : List Int := []
  next : Int := 1

namespace BreakpointBook

def current (b : BreakpointBook) : BreakpointSet := b.breakpoints.value

/-- Replaces the breakpoints of a source. Yields the new generation and the stored breakpoints. -/
def set (b : BreakpointBook) (source : Source) (requested : List RequestedBreakpoint) :
    (Nat × List Breakpoint) × BreakpointBook :=
  let (set, stored, next) := b.current.replace source.path requested b.next
  ((set.generation, stored), { b with breakpoints := b.breakpoints.put set, next })

def setFilters (b : BreakpointBook) (filters : ExceptionFilters) : BreakpointBook :=
  { b with filters := b.filters.putIfNew filters }

/-- Notes which breakpoints of a generation have code; first the set of them, then the generation. -/
def putVerified (b : BreakpointBook) (verified : List Int) : BreakpointBook := { b with verified }

def putSynced (b : BreakpointBook) (generation : Nat) : BreakpointBook := { b with synced := max b.synced generation }

def reportSynced (b : BreakpointBook) (generation : Nat) (verified : List Int) : BreakpointBook :=
  (b.putVerified verified).putSynced generation

def markVerified (b : BreakpointBook) (id : Int) : BreakpointBook :=
  if id ∈ b.verified then b else { b with verified := b.verified ++ [id] }

/-- Nothing stays installed in a debuggee that is gone. -/
def clearVerified (b : BreakpointBook) : BreakpointBook := { b with verified := [] }

def isVerified (b : BreakpointBook) (id : Int) : Bool := id ∈ b.verified

def isSynced (b : BreakpointBook) (generation : Nat) : Bool := generation ≤ b.synced

end BreakpointBook
end JvmDebug
