import JvmDebug.Breakpoint.Book
import JvmDebug.Placement.Backend
import JvmDebug.SourceIndex.Basic

/-!
# Placing breakpoints

A source may be compiled into several classes. A class that is loaded gets its breakpoints at once; one that is not is
watched for, and gets them when it is prepared. Lambdas and nested classes are compiled into classes of their own, so
these are always watched for. When the breakpoints of a source change, all that was placed for it is cleared, and
placed anew. A request that the machine rejects is passed over; only a machine that is gone ends the work.
-/

namespace JvmDebug
set_option autoImplicit false

open Jdwp (LoadedClass Location RequestId)

/-- A request to stop at a location, and the breakpoint for which it was made. -/
structure Placement where
  request : RequestId
  breakpoint : Int
  location : Location
  deriving DecidableEq, Repr

/-- All that was placed for one source. -/
structure Installed where
  revision : Nat
  breakpoints : List Breakpoint
  placements : List Placement := []
  watches : List RequestId := []
  /-- The breakpoints that have code, in the order in which it was found. -/
  verified : List Int := []

structure Placer where
  index : SourceIndex
  root : Path
  installed : PathMap Installed := []
  /-- The source for which each watch was set. -/
  watches : List (RequestId × Path) := []
  exception : Option (RequestId × Bool × Bool) := none

namespace Placer

/-- Work on the whole of what is placed. -/
abbrev Work := Attempt Error Placer Backend

/-- Work on one source; what was placed before a failure stays on record. -/
abbrev SourceWork (α : Type) := ExceptT Error (StateT Installed (Routine Placer Backend)) α

def routine {α : Type} (r : Routine Placer Backend α) : SourceWork α := ExceptT.lift (StateT.lift r)

/-- Goes on without an answer if a request was rejected, but not if the machine is gone. -/
def tolerate {α : Type} (what : String) (answer : Except Jdwp.Error α) : Work (Option α) :=
  match answer with
  | .ok a => return some a
  | .error e => do
    if e.isDisconnect then throw .disconnected
    Attempt.ofRoutine (Except.ok <$> Routine.warn .placement s!"Could not {what}: {e.message}")
    return none

def try_ {α : Type} (what : String) (r : Routine Placer Backend (Except Jdwp.Error α)) : Work (Option α) := do
  tolerate what (← ExceptT.lift r)

def trySource {α : Type} (what : String) (r : Routine Placer Backend (Except Jdwp.Error α)) : SourceWork (Option α) := do
  match ← routine (try_ what r).run with
  | .ok a => return a
  | .error e => throw e

def request {c : Backend.Call} : Routine Placer Backend (Backend.Answer c) := Routine.ask (I := Backend) c

def loadedClasses (name : String) : Routine Placer Backend (Except Jdwp.Error (List LoadedClass)) :=
  request (c := .loadedClasses name)

def lineLocations (c : LoadedClass) (line : UInt32) : Routine Placer Backend (Except Jdwp.Error (List Location)) :=
  request (c := .lineLocations c line)

def setBreakpoint (l : Location) : Routine Placer Backend (Except Jdwp.Error RequestId) :=
  request (c := .setBreakpoint l)

def clearBreakpoint (r : RequestId) : Routine Placer Backend (Except Jdwp.Error Unit) :=
  request (c := .clearBreakpoint r)

def setWatch (pattern : String) : Routine Placer Backend (Except Jdwp.Error RequestId) :=
  request (c := .setWatch pattern)

def clearWatch (r : RequestId) : Routine Placer Backend (Except Jdwp.Error Unit) := request (c := .clearWatch r)

def setException (caught uncaught : Bool) : Routine Placer Backend (Except Jdwp.Error RequestId) :=
  request (c := .setException caught uncaught)

def clearException (r : RequestId) : Routine Placer Backend (Except Jdwp.Error Unit) :=
  request (c := .clearException r)

/-- The ids of all breakpoints that have code. -/
def verified (p : Placer) : List Int := p.installed.flatMap (·.2.verified)

def dropWatch (r : RequestId) (p : Placer) : Placer := { p with watches := p.watches.filter (·.1 ≠ r) }

def addWatch (r : RequestId) (path : Path) (p : Placer) : Placer :=
  { p with watches := p.watches.filter (·.1 ≠ r) ++ [(r, path)] }

def take (path : Path) (p : Placer) : Option Installed × Placer :=
  (p.installed.find? path, { p with installed := PathMap.erase p.installed path })

def put (path : Path) (i : Installed) (p : Placer) : Placer := { p with installed := PathMap.insert path i p.installed }

/-! Clearing a source -/

def clearLocations : List RequestId → Work Unit
  | [] => return ()
  | r :: rest => do
    let _ ← try_ "clear breakpoint request" (clearBreakpoint r)
    clearLocations rest

def clearWatches : List RequestId → Work Unit
  | [] => return ()
  | r :: rest => do
    ExceptT.lift (Routine.modify (dropWatch r))
    let _ ← try_ "clear class watch" (clearWatch r)
    clearWatches rest

def clearSource (path : Path) : Work Unit := do
  match ← ExceptT.lift (Routine.modifyGet (take path)) with
  | none => return ()
  | some i => do
    let counts := s!"{i.placements.length} breakpoint and {i.watches.length} watch"
    ExceptT.lift (Routine.debug .placement s!"Clearing {counts} requests for {path.text}")
    clearLocations (i.placements.map (·.request))
    clearWatches i.watches

def clearSources : List Path → Work Unit
  | [] => return ()
  | path :: rest => do
    clearSource path
    clearSources rest

/-! Placing a source -/

def watch (path : Path) (pattern : String) : SourceWork Unit := do
  match ← trySource "watch class" (setWatch pattern) with
  | none => return ()
  | some r => do
    routine (Routine.debug .placement s!"Watching for {pattern} (request {r})")
    modifyThe Installed fun i => { i with watches := i.watches ++ [r] }
    routine (Routine.modify (addWatch r path))

/-- Stops for a breakpoint at all the locations that the machine accepts; says whether there are any. -/
def placeAt (id : Int) : List Location → SourceWork Bool
  | [] => return false
  | l :: rest => do
    match ← trySource "set breakpoint" (setBreakpoint l) with
    | none => placeAt id rest
    | some r => do
      modifyThe Installed fun i => { i with placements := i.placements ++ [⟨r, id, l⟩] }
      let _ ← placeAt id rest
      return true

/-- Notes that a breakpoint has code; says whether that is new. -/
def markVerified (id : Int) : SourceWork Bool := do
  if id ∈ (← getThe Installed).verified then return false
  modifyThe Installed fun i => { i with verified := i.verified ++ [id] }
  return true

/-- Places breakpoints in a class. Yields those that had no code before, with their lines. -/
def placeEach (c : LoadedClass) : List Breakpoint → SourceWork (List (Int × UInt32))
  | [] => return []
  | b :: rest => do
    let locations := (← trySource "read line table" (lineLocations c b.line)).getD []
    let placed ← placeAt b.id locations
    let isNew ← if placed then markVerified b.id else pure false
    let others ← placeEach c rest
    return if isNew then (b.id, b.line) :: others else others

def placeInClass (c : LoadedClass) : SourceWork (List (Int × UInt32)) := do
  placeEach c (← getThe Installed).breakpoints

def placeInClasses : List LoadedClass → SourceWork Unit
  | [] => return ()
  | c :: rest => do
    let _ ← placeInClass c
    placeInClasses rest

/-- The pattern of the classes nested in a class. -/
def nestedPattern (name : String) : String := name ++ "$*"

def placeCandidates (path : Path) : List String → SourceWork Unit
  | [] => return ()
  | name :: rest => do
    let loaded := (← trySource "look up loaded classes" (loadedClasses name)).getD []
    if loaded.isEmpty then watch path name
    placeInClasses loaded
    watch path (nestedPattern name)
    placeCandidates path rest

/-- Places breakpoints for the candidates of a source. What was placed is forgotten if the machine goes meanwhile. -/
def installCandidates (path relative : Path) (candidates : List String) (revision : Nat)
    (breakpoints : List Breakpoint) : Work Unit := do
  let (outcome, i) ← ExceptT.lift ((placeCandidates path candidates).run.run { revision, breakpoints })
  ExceptT.mk (pure outcome)
  ExceptT.lift (Routine.info .placement
    s!"Placed {i.verified.length} of {breakpoints.length} breakpoints in {relative.text}")
  ExceptT.lift (Routine.modify (put path i))

def installSource (path : Path) (revision : Nat) (breakpoints : List Breakpoint) : Work Unit := do
  let p ← ExceptT.lift Routine.get
  let relative := path.relativeTo p.root
  let candidates := p.index.binaryNames relative
  if candidates.isEmpty then
    ExceptT.lift
      (Routine.warn .classpath s!"No JVM class names known for {relative.text}, its breakpoints may not resolve")
  installCandidates path relative candidates revision breakpoints

/-- The sources that were placed in another revision than the one wanted. -/
def stale (p : Placer) (wanted : BreakpointSet) : List Path :=
  (p.installed.filter fun e => wanted.revisions.find? e.1 != some e.2.revision).map (·.1)

def installMissing (wanted : BreakpointSet) : PathMap (List Breakpoint) → Work Unit
  | [] => return ()
  | (path, breakpoints) :: rest => do
    if ((← ExceptT.lift Routine.get).installed.find? path).isNone then
      installSource path ((wanted.revisions.find? path).getD 0) breakpoints
    installMissing wanted rest

/-- Brings what is placed in line with what is wanted. -/
def sync (wanted : BreakpointSet) : Work (List Int) := do
  clearSources ((← ExceptT.lift Routine.get).stale wanted)
  installMissing wanted wanted.bySource
  return (← ExceptT.lift Routine.get).verified

/-- Takes out what was placed for the source of a watch. -/
def takeWatched (r : RequestId) (p : Placer) : Option (Path × Installed) × Placer :=
  match p.watches.find? (·.1 = r) with
  | none => (none, p)
  | some (_, path) =>
    match p.take path with
    | (some i, p) => (some (path, i), p)
    | (none, p) => (none, p)

/-- A watch has reported a class. Yields the breakpoints that have code now and had none before. -/
def classPrepared (r : RequestId) (c : LoadedClass) : Work (List (Int × UInt32)) := do
  match ← ExceptT.lift (Routine.modifyGet (takeWatched r)) with
  | none => return []
  | some (path, i) => do
    let (outcome, i) ← ExceptT.lift ((placeInClass c).run.run i)
    ExceptT.lift (Routine.modify (put path i))
    ExceptT.mk (pure outcome)

/-- Keeps one request for exceptions that matches the filters, and none if there are no filters. -/
def setFilters (filters : ExceptionFilters) : Work Unit := do
  let p ← ExceptT.lift Routine.get
  let wanted := if filters.isEmpty then none else some (filters.caught, filters.uncaught)
  if wanted = p.exception.map (·.2) then return ()
  match p.exception with
  | none => pure ()
  | some (r, _) => do
    ExceptT.lift (Routine.modify fun p => { p with exception := none })
    let _ ← try_ "clear exception request" (clearException r)
  match wanted with
  | none => return ()
  | some (caught, uncaught) => do
    match ← try_ "set exception request" (setException caught uncaught) with
    | none => return ()
    | some r => do
      ExceptT.lift (Routine.debug .placement s!"Exception request {r} (caught={caught}, uncaught={uncaught})")
      ExceptT.lift (Routine.modify fun p => { p with exception := some (r, caught, uncaught) })

end Placer
end JvmDebug
