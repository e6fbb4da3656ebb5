import JvmDebug.Debuggee.Control

/-!
# The pump and the rehook

The pump handles the event sets of a machine in their order, and publishes what they mean. It ends with the machine,
and then publishes the end, once. The rehook brings the requests in the machine up to date when the client has changed
breakpoints or filters.
-/

namespace JvmDebug.Debuggee
set_option autoImplicit false

open Jdwp (ThreadId RequestId LoadedClass Query)

/-! Events -/

def publishResolved : List (Int × UInt32) → Activity Unit
  | [] => return ()
  | (id, line) :: rest => do
    Routine.modify fun d => { d with book := d.book.markVerified id }
    publish (.breakpointResolved id line)
    publishResolved rest

/-- A class has been prepared: places its breakpoints, and publishes those that have code now. -/
def classPrepared (request : RequestId) (c : LoadedClass) : Work Unit := do
  ExceptT.lift (takePlacer .pump)
  let placed ← ExceptT.lift (onPlacer (Placer.classPrepared request c))
  ExceptT.lift leavePlacer
  let resolved ← ExceptT.mk (pure placed)
  ExceptT.lift (publishResolved resolved)

/-- Handles one event; says whether the machine is gone. -/
def handle (e : Jdwp.Event) : Work Bool := do
  ExceptT.lift (Routine.trace .debuggee s!"VM event: {e.happening.text}")
  match e.happening with
  | .breakpoint thread _ => ExceptT.lift (publish (.breakpointHit thread))
  | .step thread _ => do
    clearStep thread
    ExceptT.lift (publish (.step thread))
  | .exception thread _ thrown caughtAt => do
    let exception ← describeException thrown.id caughtAt.isSome
    ExceptT.lift (publish (.exceptionThrown thread exception))
  | .threadStart thread => ExceptT.lift (publish (.threadChanged thread .started))
  | .threadDeath thread => do
    ExceptT.lift (Routine.modify fun d => (takeStep thread d).2)
    ExceptT.lift (publish (.threadChanged thread .exited))
  | .classPrepare _ typeTag classId signature _ => do
    ExceptT.lift (Routine.debug .debuggee s!"Prepared {Jdwp.Signature.binaryName signature}")
    classPrepared e.request ⟨typeTag, classId⟩
  | .vmDeath => do
    ExceptT.lift (Routine.info .debuggee "VM terminated")
    return true
  | .vmStart _ | .methodEntry .. | .methodExit .. => pure ()
  return false

/-- Handles events in their order, up to the one with which the machine is gone; says whether there was such a one. -/
def handleAll : List Jdwp.Event → Activity Bool
  | [] => return false
  | e :: rest => do
    match ← (handle e).run with
    | .ok gone => if gone then return true else handleAll rest
    | .error why => do
      if why.isDisconnect then return true
      Routine.warn .debuggee s!"Failed to handle {e.happening.text}: {why.message}"
      handleAll rest

/-- What lets a machine run on after classes were prepared, as its suspend policy asks for. -/
def resumeQuery? (s : Jdwp.EventSet) : Option (Query Unit) :=
  if s.policy = Jdwp.SuspendPolicy.all.toByte then some Query.resumeAll
  else if s.policy = Jdwp.SuspendPolicy.eventThread.toByte then
    (s.events.head?.bind (·.happening.thread?)).map Query.resume
  else none

def resumeAfterPrepare (s : Jdwp.EventSet) : Activity Unit := do
  match resumeQuery? s with
  | none => return ()
  | some q => do
    match ← (query q).run with
    | .ok _ => return ()
    | .error e => Routine.debug .debuggee s!"Could not resume after class prepare: {e.message}"

/-- Threads stand still where classes are prepared only so that breakpoints go in first. -/
def isPrepareSet (s : Jdwp.EventSet) : Bool := s.events.all (·.happening.isClassPrepare)

/-- Publishes the end of the debuggee, once. -/
def finish : Activity Unit := do
  if ← Routine.modifyGet fun d => (d.exited, { d with exited := true }) then return ()
  Routine.modify stopRehook
  let d ← Routine.get
  let code ← match d.origin with
    | .launched => exitCode
    | .attached => pure none
  let shown := match code with
    | some n => s!"Some({n})"
    | none => "None"
  Routine.info .debuggee s!"Debuggee exited (code {shown})"
  publish (.exited code)

/-- Handles one event set; says whether the machine is gone. -/
def pump (s : Jdwp.EventSet) : Activity Bool := do
  if ← handleAll s.events then return true
  if isPrepareSet s then resumeAfterPrepare s
  return false

/-! Changes of the book -/

def hasNewBreakpoints (d : Debuggee) : Bool := d.rehooking && d.book.breakpoints.version ≠ d.seenBreakpoints
def hasNewFilters (d : Debuggee) : Bool := d.rehooking && d.book.filters.version ≠ d.seenFilters

def seeBreakpoints (d : Debuggee) : BreakpointSet × Debuggee :=
  (d.book.current, { d with seenBreakpoints := d.book.breakpoints.version })

def seeFilters (d : Debuggee) : ExceptionFilters × Debuggee :=
  (d.book.filters.value, { d with seenFilters := d.book.filters.version })

/-- Notes what was placed for a generation; the breakpoints first, then the generation. -/
def report (generation : Nat) (verified : List Int) : Activity Unit := do
  Routine.modify fun d => { d with book := d.book.putVerified verified }
  Routine.modify fun d => { d with book := d.book.putSynced generation }

def endRehook : Activity Unit := do
  Routine.modify fun d => { d with rehooking := false }
  Routine.debug .debuggee "Breakpoint re-hook task stopped"

/-- Places the newest breakpoints. It is reported also if that failed, so that nobody waits for it in vain. -/
def rehookBreakpoints : Activity Unit := do
  let wanted ← Routine.modifyGet seeBreakpoints
  takePlacer .rehook
  let outcome ← onPlacer (Placer.sync wanted)
  let verified ← Routine.gets (·.placer.verified)
  leavePlacer
  report wanted.generation verified
  match outcome with
  | .ok _ => return ()
  | .error e => do
    Routine.warn .debuggee s!"Could not update breakpoints: {e.message}"
    if e.isDisconnect then endRehook

def rehookFilters : Activity Unit := do
  let wanted ← Routine.modifyGet seeFilters
  takePlacer .rehook
  let outcome ← onPlacer (Placer.setFilters wanted)
  leavePlacer
  match outcome with
  | .ok _ => return ()
  | .error e => do
    Routine.warn .debuggee s!"Could not update exception breakpoints: {e.message}"
    if e.isDisconnect then endRehook

/-- What the rehook has to do, if anything. -/
def rehook? (d : Debuggee) : Option (Activity Unit) :=
  if hasNewBreakpoints d then some rehookBreakpoints
  else if hasNewFilters d then some rehookFilters
  else none

/-! The beginning -/

/-- Takes over a machine that stands still: places the breakpoints and filters of the book, and begins to follow it.
An attached machine is brought to a stop first. -/
def start : Work Unit := do
  let version ← ask Query.version
  ExceptT.lift (Routine.info .debuggee s!"Connected to {version.name} ({version.version})")
  let _ ← exchange (placeRequest .threadStarts)
  let _ ← exchange (placeRequest .threadDeaths)
  match (← ExceptT.lift Routine.get).origin with
  | .launched => pure ()
  | .attached => ask Query.suspendAll
  let wanted ← ExceptT.lift (Routine.modifyGet seeBreakpoints)
  let verified ← ExceptT.mk (onPlacer (Placer.sync wanted))
  let filters ← ExceptT.lift (Routine.modifyGet seeFilters)
  ExceptT.mk (onPlacer (Placer.setFilters filters))
  ExceptT.lift (report wanted.generation verified)
  ExceptT.lift (Routine.modify fun d => { d with rehooking := true })

end JvmDebug.Debuggee
