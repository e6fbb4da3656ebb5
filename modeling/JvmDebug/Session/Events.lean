import JvmDebug.Session.State

/-!
# Events of a debuggee

How a session hears the events of its debuggee, and what it tells the client about them. It asks nothing of the world
meanwhile.
-/

namespace JvmDebug.Session
set_option autoImplicit false

open Jdwp (ThreadId)

variable {I : Interface}

def stopped (reason : String) (thread : ThreadId) : Routine Session I Unit := send (.stopped reason (threadToClient thread))

/-- Forgets what belongs to a thread that runs on. -/
def releaseThread (thread : ThreadId) : Routine Session I Unit := do
  change fun s => { s with view := s.view.releaseFrames thread }
  change fun s => { s with view := s.view.releaseVariables thread }
  change fun s => { s with exceptions := s.exceptions.release thread }

/-- Forgets what belongs to any thread. -/
def releaseAll : Routine Session I Unit := do
  change fun s => { s with view := s.view.releaseAll }
  change fun s => { s with exceptions := s.exceptions.releaseAll }

/-- The debuggee is gone: nothing is left that breakpoints could be placed in or that could be resumed. -/
def onExit (code : Option Int32) : Routine Session I Unit := do
  info "Debuggee exited"
  change fun s => { s with debuggee := none }
  change fun s => { s with book := s.book.clearVerified }
  releaseAll
  change fun s => { s with phase := s.phase.release }
  send (.exited ((code.map (·.toInt)).getD 0))
  send .terminated

def onEvent : DebugEvent → Routine Session I Unit
  | .breakpointHit thread => stopped "breakpoint" thread
  | .step thread => stopped "step" thread
  | .exceptionThrown thread exception => do
    change fun s => { s with exceptions := (s.exceptions.store thread exception).2 }
    stopped "exception" thread
  | .threadChanged thread .started => send (.thread "started" (threadToClient thread))
  | .threadChanged thread .exited => do
    releaseThread thread
    send (.thread "exited" (threadToClient thread))
  | .breakpointResolved id _ => do
    let current ← look (·.book.current)
    match current.all.find? (·.id = id) with
    | some b => send (.breakpointChanged (ClientView.breakpointView (← look (·.view.numbering)) b true))
    | none => return ()
  | .exited code => onExit code

/-- A debuggee publishes an event: those hear it who have subscribed by then. -/
def hear (d : DebuggeeId) (e : DebugEvent) : Routine Session I Unit := do
  let listeners ← look fun s => s.bus.listeners.filter (· = d)
  Routine.each listeners fun _ => onEvent e

/-- Listens to a debuggee. -/
def subscribe (d : DebuggeeId) (s : Session) : Nat × Session :=
  let (subscription, bus) := s.bus.subscribe d
  (subscription, { s with bus })

/-- Ends all subscriptions that count, and puts others in their place. -/
def replaceSubscriptions (subscriptions : List Nat) (s : Session) : Session :=
  { s with bus := s.subscriptions.foldl Bus.unsubscribe s.bus, subscriptions }

/-- Makes a debuggee that of the session. It may publish events between these steps. -/
def install (d : DebuggeeId) : Routine Session I Unit := do
  let subscription ← changeGet (subscribe d)
  change (replaceSubscriptions [subscription])
  change fun s => { s with debuggee := some d }

end JvmDebug.Session
