import JvmDebug.Debuggee.Inspect

/-!
# What a session asks of a debuggee

Resuming, pausing and stepping threads, looking at them, and ending the debuggee. A session may have other debuggees
than those behind a machine; it knows them by these requests only.
-/

namespace JvmDebug
set_option autoImplicit false

open Jdwp (ThreadId RequestId Query)

inductive DebuggeeRequest where
  | threads
  /-- Resumes one thread, unless the machine does not know it. -/
  | resume (thread : ThreadId)
  | resumeAll
  | pause (thread : ThreadId)
  /-- Starts a step; its end is an event of its own. -/
  | step (thread : ThreadId) (kind : StepKind)
  | stackTrace (thread : ThreadId)
  | scopes (frame : FrameRef)
  | expand (reference : VariableRef)
  | evaluate (frame : FrameRef) (expression : String)
  | completions (frame : FrameRef) (text : String)
  /-- Ends a machine that was launched, and leaves one that was attached to. -/
  | disconnect

namespace DebuggeeRequest

abbrev Answer : DebuggeeRequest → Type
  | threads => Except Error (List ThreadInfo)
  | resume _ => Except Error ResumeOutcome
  | resumeAll | pause _ | step .. | disconnect => Except Error Unit
  | stackTrace _ => Except Error (List StackFrame)
  | scopes _ => Except Error (List Scope)
  | expand _ => Except Error (List Variable)
  | evaluate .. => Except Error (Option Variable)
  | completions .. => Except Error (List Completion)

/-- The answer that a request has failed. -/
def failed (why : Error) : (r : DebuggeeRequest) → r.Answer
  | threads | resume _ | resumeAll | pause _ | step .. | stackTrace _ | scopes _ | expand _ | evaluate ..
  | completions .. | disconnect => .error why

end DebuggeeRequest

namespace Debuggee

/-- The names of threads; a thread that died meanwhile is left out. -/
def named : List ThreadId → Work (List ThreadInfo)
  | [] => return []
  | id :: rest => do
    match ← ExceptT.lift (query (Query.threadName id)).run with
    | .ok name => return ⟨id, name⟩ :: (← named rest)
    | .error e => do
      if e.isDisconnect then throw (Error.ofJdwp e)
      ExceptT.lift (Routine.debug .debuggee s!"Skipping thread {id}: {e.message}")
      named rest

def threads : Work (List ThreadInfo) := do named (← ask Query.allThreads)

/-- Whether an error says that a thread is not there to be resumed. -/
def isUnavailable (e : Jdwp.Error) : Bool :=
  e.code? = some Jdwp.ErrorCode.invalidThread || e.code? = some Jdwp.ErrorCode.threadNotAlive ||
    e.code? = some Jdwp.ErrorCode.invalidObject

def resume (thread : ThreadId) : Work ResumeOutcome := do
  match ← ExceptT.lift (query (Query.resume thread)).run with
  | .ok _ => return .resumed
  | .error e => do
    if !isUnavailable e then throw (Error.ofJdwp e)
    ExceptT.lift (Routine.debug .debuggee s!"Thread {thread} cannot be resumed on its own: {e.message}")
    return .threadUnavailable

def takeStep (thread : ThreadId) (d : Debuggee) : Option RequestId × Debuggee :=
  (lookup thread d.pendingSteps, { d with pendingSteps := d.pendingSteps.filter (·.1 ≠ thread) })

def putStep (thread : ThreadId) (request : RequestId) (d : Debuggee) : Debuggee :=
  { d with pendingSteps := (thread, request) :: d.pendingSteps.filter (·.1 ≠ thread) }

/-- Withdraws the step request of a thread, if one is out. -/
def clearStep (thread : ThreadId) : Work Unit := do
  match ← ExceptT.lift (Routine.modifyGet (takeStep thread)) with
  | none => return ()
  | some request => do
    match ← ExceptT.lift (withdrawRequest .singleStep request).run with
    | .ok _ => return ()
    | .error e => do
      if e.isDisconnect then throw (Error.ofJdwp e)
      ExceptT.lift (Routine.debug .debuggee s!"Step request {request} already gone: {e.message}")

/-- Lets a thread make a step. A machine takes one step request per thread. -/
def step (thread : ThreadId) (kind : StepKind) : Work Unit := do
  clearStep thread
  let request ← exchange (placeRequest (.step thread kind.depth.toInt32 .eventThread))
  ExceptT.lift (Routine.modify (putStep thread request))
  ask (Query.resume thread)

def endLaunched : Work Unit := do
  ExceptT.lift (Routine.info .debuggee "Terminating the debuggee")
  match ← ExceptT.lift (query (Query.exit 0)).run with
  | .ok _ => pure ()
  | .error e => ExceptT.lift (Routine.debug .debuggee s!"VM exit: {e.message}")
  match ← ExceptT.lift kill with
  | .ok _ => return ()
  | .error e => ExceptT.lift (Routine.debug .debuggee s!"Debuggee process already gone: {e.text}")

def leaveAttached : Work Unit := do
  ExceptT.lift (Routine.info .debuggee "Detaching from the debuggee")
  match ← ExceptT.lift (query Query.dispose).run with
  | .ok _ => return ()
  | .error e => if e.isDisconnect then return () else throw (Error.ofJdwp e)

/-- Ends the debuggee, the first time it is asked for. -/
def disconnect : Work Unit := do
  if ← ExceptT.lift (Routine.modifyGet fun d => (d.disconnected, { d with disconnected := true })) then return ()
  ExceptT.lift (Routine.modify stopRehook)
  match (← ExceptT.lift Routine.get).origin with
  | .launched => endLaunched
  | .attached => leaveAttached

/-- Has errors about things that are gone read as handles that are not valid. -/
def orNotFound {α : Type} (w : Work α) : Work α := w.mapError staleAsNotFound

def serve : (r : DebuggeeRequest) → Activity r.Answer
  | .threads => threads.run
  | .resume thread => (resume thread).run
  | .resumeAll => (ask Query.resumeAll).run
  | .pause thread => (ask (Query.suspend thread)).run
  | .step thread kind => (step thread kind).run
  | .stackTrace thread => (orNotFound (stackTrace thread)).run
  | .scopes frame => return .ok (scopes frame)
  | .expand reference => (orNotFound (expand reference)).run
  | .evaluate frame expression => (orNotFound (evaluate frame expression)).run
  | .completions frame text => (orNotFound (completions frame text)).run
  | .disconnect => disconnect.run

end Debuggee
end JvmDebug
