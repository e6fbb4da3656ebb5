import JvmDebug.Text.Blank

/-!
# Paths

A path keeps the spelling it was given, but it is its components that count: two paths with the same components are
equal, and order, ends and beginnings go by components. Empty components and `.` do not count, except for a `.` at
the very beginning.
-/

namespace JvmDebug
set_option autoImplicit false

structure Path where
  text : String
  deriving Repr

namespace Path

inductive Component where
  | root
  | here
  | up
  | name (s : String)
  deriving DecidableEq, Repr

namespace Component

def rank : Component → Nat
  | root => 0
  | here => 1
  | up => 2
  | name _ => 3

/-- The order of components: the root, `.`, `..`, then names. -/
def before : Component → Component → Bool
  | name s, name t => s < t
  | a, b => a.rank < b.rank

end Component

/-- A piece between separators as a component of the body of a path. -/
def bodyComponent? (piece : List Char) : Option Component :=
  if piece = [] ∨ piece = ['.'] then none
  else if piece = ['.', '.'] then some .up
  else some (.name (String.ofList piece))

def bodyComponents (cs : List Char) : List Component := (splitBy (· = '/') cs).filterMap bodyComponent?

def isAbsolute (p : Path) : Bool := p.text.toList.head? = some '/'

/-- What stands before the body of a path: its root, or a `.` that begins it, with the rest of the text. -/
def opening (cs : List Char) : Option (Component × List Char) :=
  match cs with
  | '/' :: rest => some (.root, rest)
  | ['.'] => some (.here, [])
  | '.' :: '/' :: rest => some (.here, '/' :: rest)
  | _ => none

def componentsOf (cs : List Char) : List Component :=
  match opening cs with
  | some (c, rest) => c :: bodyComponents rest
  | none => bodyComponents cs

def components (p : Path) : List Component := componentsOf p.text.toList

instance : BEq Path := ⟨fun p q => p.components == q.components⟩

def beforeComponents : List Component → List Component → Bool
  | [], [] => false
  | [], _ :: _ => true
  | _ :: _, [] => false
  | a :: as, b :: bs => a.before b || (a == b && beforeComponents as bs)

/-- The order of paths. -/
def before (p q : Path) : Bool := beforeComponents p.components q.components

/-- The last component, if it is a name. -/
def fileName? (p : Path) : Option String :=
  match p.components.getLast? with
  | some (.name s) => some s
  | _ => none

/-- The other path as seen from this one: itself if it is absolute, else appended to this one. -/
def join (p q : Path) : Path :=
  if q.isAbsolute then q
  else
    match p.text.toList.getLast? with
    | none => q
    | some '/' => ⟨p.text ++ q.text⟩
    | some _ => ⟨p.text ++ "/" ++ q.text⟩

def ofPieces (pieces : List String) : Path := pieces.foldl (fun p piece => p.join ⟨piece⟩) ⟨""⟩

/-- Drops pieces that are no components from the front. -/
def dropEmpty : (fuel : Nat) → List Char → List Char
  | 0, cs => cs
  | fuel + 1, cs =>
    let piece := cs.takeWhile (· ≠ '/')
    if cs ≠ [] ∧ bodyComponent? piece = none then dropEmpty fuel (cs.drop (piece.length + 1)) else cs

/-- Drops pieces that are no components from the end, but never more than leaves `kept` characters. -/
def dropEmptyEnd (kept : Nat) : (fuel : Nat) → List Char → List Char
  | 0, cs => cs
  | fuel + 1, cs =>
    if cs.length ≤ kept then cs
    else
      let body := cs.drop kept
      let piece := (body.reverse.takeWhile (· ≠ '/')).reverse
      if bodyComponent? piece = none then
        let size := if piece.length < body.length then piece.length + 1 else piece.length
        dropEmptyEnd kept fuel (cs.take (cs.length - size))
      else cs

/-- Takes the components of `base` off the front of a body, in its own spelling. -/
def stripBody? : (base : List Component) → List Char → Option (List Char)
  | [], cs => some cs
  | c :: base, cs =>
    let rest := dropEmpty (cs.length + 1) cs
    let piece := rest.takeWhile (· ≠ '/')
    if rest ≠ [] ∧ bodyComponent? piece = some c then stripBody? base (rest.drop (piece.length + 1)) else none

def trimBody (cs : List Char) : List Char :=
  dropEmptyEnd 0 (cs.length + 1) (dropEmpty (cs.length + 1) cs)

/-- The path below `base`, if it begins with the components of `base`. -/
def below? (p base : Path) : Option Path :=
  let cs := p.text.toList
  match base.components with
  | [] =>
    let kept := match opening cs with
      | some _ => 1
      | none => 0
    some ⟨String.ofList (dropEmptyEnd kept (cs.length + 1) cs)⟩
  | c :: rest =>
    match opening cs with
    | some (d, body) =>
      if c = d then (stripBody? rest body).map fun cs => ⟨String.ofList (trimBody cs)⟩ else none
    | none => (stripBody? (c :: rest) cs).map fun cs => ⟨String.ofList (trimBody cs)⟩

/-- The path below `root`, or the path itself if it lies outside. -/
def relativeTo (p root : Path) : Path := (p.below? root).getD p

end Path

/-- A map with paths as keys, in the order of paths. A key keeps the spelling under which it was first put in. -/
abbrev PathMap (α : Type) := List (Path × α)

namespace PathMap

variable {α : Type}

def find? (m : PathMap α) (p : Path) : Option α := (List.find? (fun e => e.1 == p) m).map (·.2)

def insert (p : Path) (a : α) : PathMap α → PathMap α
  | [] => [(p, a)]
  | (q, b) :: rest =>
    if q == p then (q, a) :: rest
    else if p.before q then (p, a) :: (q, b) :: rest
    else (q, b) :: insert p a rest

def erase (m : PathMap α) (p : Path) : PathMap α := m.filter fun e => !(e.1 == p)

end PathMap
end JvmDebug
