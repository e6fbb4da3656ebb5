import JvmDebug.Session.Start

/-!
# Requests

What a session does for each request of its client, and what it answers. Handles are looked up before the debuggee is
asked for; a thread that is to run on loses its handles first.
-/

namespace JvmDebug.Session
set_option autoImplicit false

open Jdwp (ThreadId)

/-- The debuggee of the session. -/
def theDebuggee : Work DebuggeeId := do
  match ← see (·.debuggee) with
  | some d => return d
  | none => throw .noDebuggee

/-! Configuration -/

def serveInitialize (a : Dap.InitializeArguments) : Work (Option Json) := do
  let client := a.clientId.getD "an unnamed client"
  act (info s!"Initializing for {client}")
  alter fun s => { s with view := { s.view with numbering := ⟨a.linesStartAt1, a.columnsStartAt1⟩ } }
  return some (Dap.capabilities (ExceptionFilter.all.map fun f => (f.id, f.label)))

def noteCondition (b : Dap.BreakpointArgument) : Activity Unit :=
  if b.condition.isSome then debug s!"Ignoring the condition of the breakpoint at line {b.line}" else return ()

/-- A breakpoint that the client asks for; a column that makes no sense is left out. -/
def requested (n : Numbering) (source : Source) (b : Dap.BreakpointArgument) : Except Error RequestedBreakpoint := do
  let line ← n.lineFromClient b.line
  return ⟨⟨source, line, b.column.bind n.columnFromClient?⟩, b.condition⟩

def readBreakpoint (source : Source) (b : Dap.BreakpointArgument) : Work RequestedBreakpoint := do
  act (noteCondition b)
  require (requested (← see (·.view.numbering)) source b)

def setBreakpoints (source : Source) (requested : List RequestedBreakpoint) (s : Session) :
    (Nat × List Breakpoint) × Session :=
  let (stored, book) := s.book.set source requested
  (stored, { s with book })

/-- How long the answer to `setBreakpoints` waits for a debuggee to install them. -/
def syncLimit : Nat := 5000

/-- Waits until the debuggee, if there is one, has installed a generation of breakpoints. -/
def awaitSync (source : Source) (generation : Nat) : Activity Unit := do
  match ← look (·.debuggee) with
  | none => return ()
  | some _ =>
    if ← Routine.waitUpTo syncLimit (·.book.isSynced generation) then return ()
    warn s!"Breakpoints for {source.path.text} were not installed in time"

def breakpointJson (b : Breakpoint) : Work Json := do
  let verified ← see (·.book.isVerified b.id)
  return (ClientView.breakpointView (← see (·.view.numbering)) b verified).json

def serveSetBreakpoints (a : Dap.SetBreakpointsArguments) : Work (Option Json) := do
  let source ← require (ClientView.sourceFromClient a.source)
  let requested ← a.breakpoints.mapM (readBreakpoint source)
  let (generation, stored) ← alterGet (setBreakpoints source requested)
  act (Routine.debug .breakpoints
    s!"Breakpoints for {source.path.text} replaced ({stored.length} set, generation {generation})")
  act (awaitSync source generation)
  return some (Dap.listBody "breakpoints" (← stored.mapM breakpointJson))

def noteUnknownFilter (id : String) : Activity Unit :=
  if (ExceptionFilter.ofId? id).isNone then warn s!"Unknown exception filter {id}" else return ()

def serveSetExceptionBreakpoints (ids : List String) : Work (Option Json) := do
  act (Routine.each ids noteUnknownFilter)
  let filters := ExceptionFilters.ofList (ids.filterMap ExceptionFilter.ofId?)
  alter fun s => { s with book := s.book.setFilters filters }
  return none

/-- The client has finished configuring; it is answered when a debuggee is about to run, or the session ends. -/
def arrive : Activity Unit := onPhase Rendezvous.arriveAndWait

def serveConfigurationDone : Work (Option Json) := do
  act arrive
  return none

/-! Running -/

def serveThreads : Work (Option Json) := do
  let threads ← match ← see (·.debuggee) with
    | some d => demand (drive d .threads)
    | none => pure []
  return some (Dap.listBody "threads" (threads.map fun t => (ClientView.threadView t).json))

/-- Resumes a thread, or the whole debuggee if the thread is not there to be resumed on its own. -/
def serveContinue (thread : ThreadId) : Work (Option Json) := do
  let d ← theDebuggee
  act (releaseThread thread)
  let all ← match ← demand (drive d (.resume thread)) with
    | .resumed => pure false
    | .threadUnavailable =>
      act (debug s!"Thread {thread} cannot be resumed alone, resuming all threads")
      act releaseAll
      demand (drive d .resumeAll)
      pure true
  return some (Json.object [("allThreadsContinued", .bool all)])

def serveStep (thread : ThreadId) (kind : StepKind) : Work (Option Json) := do
  let d ← theDebuggee
  act (releaseThread thread)
  demand (drive d (.step thread kind))
  return none

def servePause (thread : ThreadId) : Work (Option Json) := do
  let d ← theDebuggee
  demand (drive d (.pause thread))
  return none

/-! Inspection -/

/-- Shows something to the client, under new handles where it needs any. -/
def show_ {α β : Type} (add : ClientView → α → β × ClientView) (a : α) : Work β :=
  alterGet fun s =>
    let (b, view) := add s.view a
    (b, { s with view })

/-- The part of a stack that is asked for; without a positive number of frames, all from the first one on. -/
def stackPart (a : Dap.StackTraceArguments) (frames : List StackFrame) : List StackFrame :=
  let from_ := frames.drop (a.start.getD 0).toNat
  match a.levels with
  | some levels => if 0 < levels then from_.take levels.toNat else from_
  | none => from_

def serveStackTrace (a : Dap.StackTraceArguments) : Work (Option Json) := do
  let d ← theDebuggee
  let frames ← demand (drive d (.stackTrace (threadFromClient a.thread)))
  let shown ← (stackPart a frames).mapM (show_ ClientView.addFrame)
  return some (Json.object [("stackFrames", .arr (shown.map (·.json))), ("totalFrames", .int frames.length)])

def theFrame (handle : Int) : Work FrameRef := do require (← see (·.view.frame handle))

def serveScopes (handle : Int) : Work (Option Json) := do
  let frame ← theFrame handle
  let d ← theDebuggee
  let scopes ← demand (drive d (.scopes frame))
  let shown ← scopes.mapM (show_ ClientView.addScope)
  return some (Dap.listBody "scopes" (shown.map (·.json)))

def serveVariables (handle : Int) : Work (Option Json) := do
  let reference ← require (← see (·.view.reference handle))
  let d ← theDebuggee
  let children ← demand (drive d (.expand reference))
  let shown ← children.mapM (show_ ClientView.addVariable)
  return some (Dap.listBody "variables" (shown.map (·.json)))

def serveEvaluate (a : Dap.EvaluateArguments) : Work (Option Json) := do
  let expression := trim a.expression
  match a.frame with
  | none => throw (.badArguments "evaluate needs a frameId")
  | some handle =>
    let frame ← theFrame handle
    let d ← theDebuggee
    match ← demand (drive d (.evaluate frame expression)) with
    | none => throw (.notFound s!"{expression} is not in scope")
    | some found => return some (Dap.evaluated (← show_ ClientView.addVariable found))

/-- The text before the cursor; columns lie between characters. -/
def textBefore (n : Numbering) (column : Int) (text : String) : String :=
  match n.columnFromClient? column with
  | some c => String.ofList (text.toList.take (c.toNat - 1))
  | none => ""

def serveCompletions (a : Dap.CompletionsArguments) : Work (Option Json) := do
  match a.frame with
  | none => return some (Dap.listBody "targets" [])
  | some handle =>
    let frame ← theFrame handle
    let text := textBefore (← see (·.view.numbering)) a.column a.text
    let d ← theDebuggee
    let items ← demand (drive d (.completions frame text))
    return some (Dap.listBody "targets" (items.map fun item => (ClientView.completionView item).json))

def exceptionView (e : Thrown) : Dap.ExceptionView where
  id := e.fullTypeName
  description := e.message.getD e.description
  message := e.message
  typeName := e.typeName
  fullTypeName := e.fullTypeName

/-- Tells of the exception that stopped a thread last. -/
def serveExceptionInfo (thread : ThreadId) : Work (Option Json) := do
  match ← see (·.exceptions.latest? thread) with
  | some e => return some (exceptionView e).json
  | none => return some Dap.ExceptionView.unknown

/-! The end -/

def takeDebuggee (s : Session) : Option DebuggeeId × Session := (s.debuggee, { s with debuggee := none })

/-- Ends the debuggee. A client that waits for the end of the configuration is released; it must not outlive the
session. -/
def serveDisconnect : Work (Option Json) := do
  alter fun s => { s with phase := s.phase.release }
  alter (replaceSubscriptions [])
  let d ← alterGet takeDebuggee
  act releaseAll
  match d with
  | none => return none
  | some d =>
    match ← act (drive d .disconnect) with
    | .ok _ => return none
    | .error e =>
      if !e.isDisconnect then throw e
      act (debug "Debuggee already gone")
      return none

/-! All requests -/

/-- Requests of the protocol that are not served, and are answered so. -/
def notImplemented : List String :=
  ["restart", "reverseContinue", "stepBack", "restartFrame", "goto", "setFunctionBreakpoints", "setVariable", "source",
    "modules", "loadedSources", "stepInTargets", "gotoTargets"]

/-- Serves a request that takes arguments. -/
def withArguments {α : Type} (r : Dap.Request) (read : Json.Reading α) (serve : α → Work (Option Json)) :
    Work (Option Json) := do
  serve (← require (r.argumentsAs read))

def withThread (r : Dap.Request) (serve : ThreadId → Work (Option Json)) : Work (Option Json) :=
  withArguments r Dap.threadArgument fun thread => serve (threadFromClient thread)

def serveNamed (r : Dap.Request) : Work (Option Json) :=
  match r.command with
  | "initialize" => withArguments r Dap.InitializeArguments.read serveInitialize
  | "configurationDone" => serveConfigurationDone
  | "launch" => withArguments r Dap.LaunchArguments.read serveLaunch
  | "attach" => withArguments r Dap.AttachArguments.read serveAttach
  | "setBreakpoints" => withArguments r Dap.SetBreakpointsArguments.read serveSetBreakpoints
  | "setExceptionBreakpoints" => withArguments r Dap.filtersArgument serveSetExceptionBreakpoints
  | "threads" => serveThreads
  | "continue" => withThread r serveContinue
  | "next" => withThread r (serveStep · .next)
  | "stepIn" => withThread r (serveStep · .into)
  | "stepOut" => withThread r (serveStep · .out)
  | "pause" => withThread r servePause
  | "stackTrace" => withArguments r Dap.StackTraceArguments.read serveStackTrace
  | "scopes" => withArguments r Dap.frameArgument serveScopes
  | "variables" => withArguments r Dap.variablesArgument serveVariables
  | "evaluate" => withArguments r Dap.EvaluateArguments.read serveEvaluate
  | "completions" => withArguments r Dap.CompletionsArguments.read serveCompletions
  | "exceptionInfo" => withThread r serveExceptionInfo
  | "disconnect" => serveDisconnect
  | command => throw (if command ∈ notImplemented then .notImplemented command else .unrecognized command)

/-- What a request is answered with. -/
def answer (r : Dap.Request) : Work (Option Json) := do
  act (debug s!"Handling {r.command} (seq {r.seq})")
  serveNamed r

/-! Responses -/

def respond (r : Dap.Request) (result : Except Error (Option Json)) : Activity Unit := do
  match result with
  | .ok _ => pure ()
  | .error e => Routine.warn .client s!"Request {r.command} failed: {e.message}"
  send (.response (.of r result))

def setInitialized (s : Session) : Bool × Session := (s.initialized, { s with initialized := true })

/-- What the client is told after a request has succeeded. -/
def follow (r : Dap.Request) : Activity Unit := do
  match r.command with
  | "initialize" => unless ← changeGet setInitialized do send .initialized
  | "pause" =>
    match r.argumentsAs Dap.threadArgument with
    | .ok thread => stopped "pause" (threadFromClient thread)
    | .error _ => return ()
  | _ => return ()

/-- Serves a request and sends the response. -/
def serve (r : Dap.Request) : Activity Unit := do
  let result ← (answer r).run
  respond r result
  match result with
  | .ok _ => follow r
  | .error _ => return ()

end JvmDebug.Session
