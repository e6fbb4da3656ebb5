import JvmDebug.Dap.Arguments
import JvmDebug.Session.Events
import JvmDebug.SourceIndex.Scan
import JvmDebug.Text.Line

/-!
# Starting a debuggee

Launching and attaching. A debuggee that has been started stands still until the client has finished configuring: the
job that lets it run waits for that on the launcher lane. Only then is its output forwarded, line by line.
-/

namespace JvmDebug.Session
set_option autoImplicit false

open Jdwp (ThreadId)

/-! Preparations -/

/-- The file for log records, if the arguments ask for one. -/
def logFile (a : Dap.LoggingArguments) : Except Error (Option Path) :=
  if !a.toFile then .ok none
  else
    match a.file with
    | some file => .ok (some ⟨file⟩)
    | none => .error (.badArguments "jsonLogFile is required when enableJsonLogging is set")

def onJournal (f : Log.Journal → Log.Journal) (s : Session) : Session := { s with journal := s.journal.map f }

/-- Opens the log file. -/
def startLogFile (file : Path) : Work Unit := do
  match ← act (openLog file) with
  | .ok file => alter (onJournal fun j => { j with file := some file })
  | .error e => throw (.os e)

/-- Does what the arguments say about logging, if there is a journal. -/
def applyLogging (a : Dap.LoggingArguments) : Work Unit := do
  let choice ← require (a.level.mapM Log.Choice.parse)
  let file ← require (logFile a)
  if (← see (·.journal)).isNone then return ()
  match choice with
  | some choice => alter (onJournal fun j => { j with choice })
  | none => pure ()
  match file with
  | some file => startLogFile file
  | none => pure ()

/-- Notes which target files were passed over, and why. -/
def noteSkipped (root : Path) (targets : List (FileTree.Found × Except String (List TargetSource))) : Activity Unit :=
  Routine.each targets fun (found, listed) =>
    match listed with
    | .ok _ => return ()
    | .error why =>
      let file := (SourceIndex.output root).join (Path.ofPieces found.path)
      Routine.warn .classpath s!"Skipping {file.text}: {why}"

/-- Indexes the sources of a workspace. -/
def scanSources (root : Path) : Activity SourceIndex := do
  let tree ← files
  if SourceIndex.isBuilt tree root then
    let targets := SourceIndex.targetFiles tree root
    noteSkipped root targets
    let index := SourceIndex.ofTargets (targets.filterMap (·.2.toOption))
    let read := (targets.filter (·.2.isOk)).length
    Routine.debug .classpath s!"Indexed {read} target-info files, {index.bySource.length} sources"
    return index
  else
    Routine.warn .classpath
      s!"{(SourceIndex.output root).text} does not exist, breakpoints will stay unverified until the workspace is built"
    return {}

/-! Running -/

def onPhase {α : Type} (r : Routine Phase World α) : Activity α := r.zoom Session.phase fun phase s => { s with phase }

/-- Makes a debuggee that of the session, and has it run when the client has finished configuring. -/
def startDebuggee (d : DebuggeeId) (announceThreads : Bool) : Activity Unit := do
  install d
  change fun s => { s with launcherLane := s.launcherLane ++ [.run d announceThreads] }

/-- Tells the client of the threads that a debuggee has already. -/
def announce (d : DebuggeeId) : Activity Unit := do
  match ← drive d .threads with
  | .ok threads => Routine.each threads fun t => send (.thread "started" (threadToClient t.id))
  | .error e => warn s!"Could not list the attached VM's threads: {e.message}"

/-- Lets the debuggee of the session run, if there is one. -/
def resumeDebuggee : Activity Unit := do
  match ← look (·.debuggee) with
  | none => return ()
  | some d => do
    info "Resuming the debuggee"
    match ← drive d .resumeAll with
    | .ok _ => return ()
    | .error e => warn s!"Could not resume the debuggee: {e.message}"

def forwardStreams (d : DebuggeeId) (s : Session) : Session :=
  { s with streams := s.streams.map fun (n, o) => if o.debuggee = d then (n, { o with forwarded := true }) else (n, o) }

/-- The job of a debuggee that has been started. -/
def runDebuggee (d : DebuggeeId) (announceThreads : Bool) : Activity Unit := do
  onPhase Rendezvous.releaseWhenWaiting
  if announceThreads then announce d
  change (forwardStreams d)
  resumeDebuggee

/-! Output -/

def setIncoming (n : Nat) (rest : Bytes) (s : Session) : Session :=
  { s with streams := s.streams.map fun (k, o) => if k = n then (k, { o with incoming := rest }) else (k, o) }

def dropStream (n : Nat) (s : Session) : Session := { s with streams := s.streams.filter (·.1 ≠ n) }

def forwardLine (category line : String) : Activity Unit := send (.output category (line ++ "\n"))

def closed (category : String) : Activity Unit := debug s!"Debuggee {category} closed"

/-- What is to be forwarded next of a stream: a line, or that it has ended. -/
def takeOutput (n : Nat) (s : Session) : Option (Activity Unit × Session) :=
  match s.streams.find? (·.1 = n) with
  | none => none
  | some (_, o) =>
    if !o.forwarded then none
    else
      match Line.next o.ended o.incoming with
      | .incomplete => none
      | .line text rest => some (forwardLine o.category text, s.setIncoming n rest)
      | .ended => some (closed o.category, s.dropStream n)
      | .invalid why =>
        some (do
          warn s!"Error reading debuggee {o.category}: {why.message}"
          closed o.category, s.dropStream n)

/-! Requests -/

def serveLaunch (a : Dap.LaunchArguments) : Work (Option Json) := do
  applyLogging a.logging
  let root : Path := ⟨a.workspaceRoot⟩
  demand (build (.build root [a.target] a.buildFlags))
  let classpath ← demand (build (.classpath root a.target a.buildFlags))
  let index ← act (scanSources root)
  let request : LaunchRequest :=
    { root, classpath, mainClass := a.mainClass, vmArguments := a.vmArguments, programArguments := a.programArguments }
  let d ← demand (launch request index)
  act (startDebuggee d false)
  return none

def serveAttach (a : Dap.AttachArguments) : Work (Option Json) := do
  applyLogging a.logging
  let root : Path := ⟨a.workspaceRoot⟩
  let index ← act (scanSources root)
  let d ← demand (attach { root, host := a.host, port := a.port, timeout := a.timeout } index)
  act (startDebuggee d true)
  return none

end JvmDebug.Session
