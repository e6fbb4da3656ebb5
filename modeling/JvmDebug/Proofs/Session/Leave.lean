import JvmDebug.Proofs.Session.Calm

/-!
# What jobs need leave for

What each kind of job may tell the client beside answering, what it may call, and whether it may let a debuggee run
freely, is said here once for all jobs. Every job is within any bounds that allow it what it needs: `Allows` lists that,
step by step, so that bounds of any kind need only be looked at one step at a time.
-/

namespace JvmDebug.Session
set_option autoImplicit false

open Attempt (within_seq)
open Jdwp (ThreadId)

/-- A line of the log, as it is shown in the console of the client. -/
def isConsole (m : Dap.Outgoing) : Prop := ∃ text, m = .output "console" text

/-- What the client is told when a request has been served: the response, and what follows a success. -/
def IsReply (m : Dap.Outgoing) : Prop := (∃ r, m = .response r) ∨ m = .initialized ∨ ∃ t, m = .stopped "pause" t

/-- What the client is told by an event. -/
def Notifies : DebugEvent → Dap.Outgoing → Prop
  | .breakpointHit t, m => m = .stopped "breakpoint" (threadToClient t)
  | .step t, m => m = .stopped "step" (threadToClient t)
  | .exceptionThrown t _, m => m = .stopped "exception" (threadToClient t)
  | .threadChanged t .started, m => m = .thread "started" (threadToClient t)
  | .threadChanged t .exited, m => m = .thread "exited" (threadToClient t)
  | .breakpointResolved id _, m => ∃ n b, b.id = id ∧ m = .breakpointChanged (ClientView.breakpointView n b true)
  | .exited code, m => m = .exited ((code.map (·.toInt)).getD 0) ∨ m = .terminated

/-- What a job may do beside answering: which messages it may send, which calls it may make, and whether it may have to
do with the end of the configuration, or with the output of debuggees. -/
structure Leave where
  tells : Dap.Outgoing → Prop
  calls : Call → Prop
  opens : Prop
  forwards : Prop

def Job.leave : Job → Leave
  | .request q =>
    { tells := fun _ => False
      calls := fun c => resumes c → q.command ∈ ["continue", "next", "stepIn", "stepOut"]
      opens := q.command ∈ ["configurationDone", "disconnect"]
      forwards := False }
  | .run _ _ =>
    { tells := fun m => ∃ t, m = .thread "started" t
      calls := fun _ => True
      opens := True
      forwards := True }
  | .forward _ =>
    { tells := fun m => ∃ category line, m = .output category line
      calls := fun _ => False
      opens := False
      forwards := False }
  | .event e =>
    { tells := Notifies e
      calls := fun _ => False
      opens := ∃ code, e = .exited code
      forwards := False }

/-- The requests that make a debuggee that of the session. -/
def Job.starts : Job → Prop
  | .request q => q.command ∈ ["launch", "attach"]
  | _ => False

/-- The request that takes the debuggee out of the session. -/
def Job.disconnects : Job → Prop
  | .request q => q.command = "disconnect"
  | _ => False

/-- The event that the debuggee has ended. -/
def Job.isEnd : Job → Prop
  | .event e => ∃ code, e = .exited code
  | _ => False

/-- The request that tells how the client counts. -/
def Job.numbers : Job → Prop
  | .request q => q.command = "initialize"
  | _ => False

/-- The request that sets breakpoints. -/
def Job.sets : Job → Prop
  | .request q => q.command = "setBreakpoints"
  | _ => False

/-- The jobs that note an exception, or forget some. -/
def Job.excepts : Job → Prop
  | .request q => q.command ∈ ["continue", "next", "stepIn", "stepOut", "disconnect"]
  | .event (.exceptionThrown ..) | .event (.threadChanged _ .exited) | .event (.exited _) => True
  | _ => False

/-- Bounds that allow a job all its steps. -/
structure Allows (job : Job) (b : Bounds Session World) : Prop extends Plain b where
  calls : ∀ c, job.leave.calls c → b.calls c
  tells : ∀ m s, job.leave.tells m → b.changes s (post m s)
  phase : job.leave.opens → ∀ phase s, b.changes s { s with phase }
  forwards : job.leave.forwards → ∀ d s, b.changes s (forwardStreams d s)
  views : ∀ view s, view.numbering = s.view.numbering → b.changes s { s with view }
  numbers : job.numbers → ∀ numbering s, b.changes s { s with view := { s.view with numbering } }
  exceptions : job.excepts → ∀ exceptions s, b.changes s { s with exceptions }
  sets : job.sets → ∀ source requested s, b.changes s (setBreakpoints source requested s).2
  filters : ∀ filters s, b.changes s { s with book := s.book.setFilters filters }
  subscribes : ∀ d s, b.changes s (subscribe d s).2
  replaces : ∀ subscriptions s, b.changes s (replaceSubscriptions subscriptions s)
  installs : job.starts → ∀ d s, b.changes s { s with debuggee := some d }
  enlists : job.starts → ∀ d announceThreads s,
    b.changes s { s with launcherLane := s.launcherLane ++ [.run d announceThreads] }
  loses : job.disconnects ∨ job.isEnd → ∀ s, b.changes s { s with debuggee := none }
  clears : job.isEnd → ∀ s, b.changes s { s with book := s.book.clearVerified }

variable {b : Bounds Session World} {job : Job} {q : Dap.Request} {α β : Type}

theorem numbering_addFrame (v : ClientView) (f : StackFrame) : (v.addFrame f).2.numbering = v.numbering := rfl

theorem numbering_addVariable (v : ClientView) (x : Variable) : (v.addVariable x).2.numbering = v.numbering := by
  unfold ClientView.addVariable
  split <;> rfl

theorem Plain.onLane {name : String} {r : Activity Unit} (h : Plain b) (hr : r.Within b fun _ => True) :
    (Worker.onLane name r).Within b fun _ => True :=
  Routine.within_then h.note fun _ => hr

/-- What is done when it is known how a request is answered. -/
theorem Plain.reply (h : Plain b) (hReplies : ∀ m s, IsReply m → b.changes s (post m s))
    (hInitialized : ∀ s, b.changes s { s with initialized := true }) (q : Dap.Request) (result : Except Error (Option Json)) :
    (do respond q result; match result with | .ok _ => follow q | .error _ => return () : Activity Unit).Within b
      fun _ => True := by
  have hSend : ∀ {m}, IsReply m → (send m : Activity Unit).Within b fun _ => True :=
    fun hReply s => ⟨hReplies _ s hReply, trivial⟩
  refine Routine.within_then ?_ fun _ => ?_
  · cases result with
    | ok body => exact hSend (.inl ⟨_, rfl⟩)
    | error e => exact Routine.within_then h.note fun _ => hSend (.inl ⟨_, rfl⟩)
  · cases result with
    | error e => trivial
    | ok body =>
      dsimp only
      unfold follow
      split
      · refine Routine.within_then (fun s => ⟨hInitialized s, trivial⟩) fun already => ?_
        cases already with
        | true => trivial
        | false => exact hSend (.inr (.inl rfl))
      · split
        · exact hSend (.inr (.inr ⟨_, rfl⟩))
        · trivial
      · trivial

namespace Allows

/-! ## Steps -/

theorem changed {f : Session → Session} (hf : ∀ s, b.changes s (f s)) : (change f : Activity Unit).Within b fun _ => True :=
  fun s => ⟨hf s, trivial⟩

theorem altered {f : Session → Session} (hf : ∀ s, b.changes s (f s)) : (alter f).run.Within b fun _ => True :=
  fun s => ⟨hf s, trivial⟩

section Steps

variable (h : Allows job b)
include h

theorem sends {m : Dap.Outgoing} (hTells : job.leave.tells m) : (send m : Activity Unit).Within b fun _ => True :=
  changed fun s => h.tells m s hTells

theorem release (hExcepts : job.excepts) (t : ThreadId) : (releaseThread t : Activity Unit).Within b fun _ => True := by
  refine Routine.within_then (changed fun _ => h.views _ _ rfl) fun _ => ?_
  refine Routine.within_then (changed fun _ => h.views _ _ rfl) fun _ => ?_
  exact changed fun _ => h.exceptions hExcepts _ _

theorem releaseAll (hExcepts : job.excepts) : (releaseAll : Activity Unit).Within b fun _ => True :=
  Routine.within_then (changed fun _ => h.views _ _ rfl) fun _ => changed fun _ => h.exceptions hExcepts _ _

theorem onPhase {r : Routine Phase World α} {c : Bounds Phase World} (hOpens : job.leave.opens) (hCalls : ∀ x, ¬c.calls x)
    (hPhase : r.Within c fun _ => True) : (onPhase r).Within b fun _ => True :=
  hPhase.zoom (fun _ _ _ => h.phase hOpens _ _) (fun x hx => absurd hx (hCalls x)) h.stays h.notes

theorem shows {γ : Type} {add : ClientView → α → γ × ClientView} (hAdd : ∀ v a, (add v a).2.numbering = v.numbering)
    (a : α) : (show_ add a).run.Within b fun _ => True :=
  fun _ => ⟨h.views _ _ (hAdd _ a), trivial⟩

end Steps

/-! ## Requests -/

section Requests

variable (h : Allows (.request q) b)
include h

/-- A call that lets nothing run may be made for any request. -/
theorem asked {c : Call} (hNot : ¬resumes c) : (Routine.ask (I := World) c : Activity (Answer c)).Within b fun _ => True :=
  h.asks (h.calls c fun hResumes => absurd hResumes hNot)

theorem serveInitialize (hCommand : q.command = "initialize") (a : Dap.InitializeArguments) :
    (serveInitialize a).run.Within b fun _ => True :=
  within_seq (within_act.mpr h.note) fun _ => within_seq (altered fun _ => h.numbers hCommand _ _) fun _ => trivial

theorem serveSetBreakpoints (hCommand : q.command = "setBreakpoints") (a : Dap.SetBreakpointsArguments) :
    (serveSetBreakpoints a).run.Within b fun _ => True := by
  refine within_seq trivial fun source => ?_
  refine within_seq (Attempt.within_items fun x _ => h.readBreakpoint source x) fun requested => ?_
  refine within_seq (fun s => ⟨h.sets hCommand source requested s, trivial⟩) fun stored => ?_
  refine within_seq (within_act.mpr h.note) fun _ => ?_
  refine within_seq (within_act.mpr (h.awaitSync source _)) fun _ => ?_
  exact within_seq (Attempt.within_items fun x _ => h.breakpointJson x) fun _ => trivial

theorem serveSetExceptionBreakpoints (ids : List String) :
    (serveSetExceptionBreakpoints ids).run.Within b fun _ => True := by
  refine within_seq (within_act.mpr (Routine.within_each fun id _ => h.noteUnknownFilter id)) fun _ => ?_
  exact within_seq (altered fun _ => h.filters _ _) fun _ => trivial

theorem serveConfigurationDone (hCommand : q.command = "configurationDone") :
    serveConfigurationDone.run.Within b fun _ => True := by
  refine within_seq (within_act.mpr ?_) fun _ => trivial
  refine h.onPhase (c := ⟨fun _ _ => True, fun _ => False, fun _ p => p⟩) (by simp [Job.leave, hCommand]) (fun _ => id) ?_
  exact fun _ => ⟨trivial, fun _ => ⟨fun _ => trivial, fun _ => trivial⟩, fun _ => trivial⟩

theorem serveThreads : serveThreads.run.Within b fun _ => True := by
  refine within_seq (h.seen _) fun found => ?_
  cases found with
  | none => exact within_seq (w := pure []) trivial fun _ => trivial
  | some d => exact within_seq (w := demand _) (h.asked id) fun _ => trivial

theorem serveContinue (hCommand : q.command = "continue") (t : ThreadId) : (serveContinue t).run.Within b fun _ => True := by
  have hAsk : ∀ c : Call, (Routine.ask (I := World) c : Activity (Answer c)).Within b fun _ => True :=
    fun c => h.asks (h.calls c fun _ => by simp [hCommand])
  have hExcepts : (Job.request q).excepts := by simp [Job.excepts, hCommand]
  refine within_seq h.theDebuggee fun d => within_seq (within_act.mpr (h.release hExcepts t)) fun _ => ?_
  refine within_seq (w := demand _) (hAsk _) fun outcome => ?_
  split
  · exact within_seq (w := pure _) trivial fun _ => trivial
  · refine within_seq (within_act.mpr h.note) fun _ => within_seq (within_act.mpr (h.releaseAll hExcepts)) fun _ => ?_
    exact within_seq (w := demand _) (hAsk _) fun _ => trivial

theorem serveStep (hCommand : q.command ∈ ["next", "stepIn", "stepOut"]) (t : ThreadId) (kind : StepKind) :
    (serveStep t kind).run.Within b fun _ => True := by
  have hExcepts : (Job.request q).excepts := by
    simp only [List.mem_cons, List.not_mem_nil, or_false] at hCommand
    rcases hCommand with h | h | h <;> simp [Job.excepts, h]
  refine within_seq h.theDebuggee fun d => within_seq (within_act.mpr (h.release hExcepts t)) fun _ => ?_
  exact within_seq (w := demand _) (h.asks (h.calls _ fun _ => List.mem_cons_of_mem _ hCommand)) fun _ => trivial

theorem servePause (t : ThreadId) : (servePause t).run.Within b fun _ => True :=
  within_seq h.theDebuggee fun _ => within_seq (w := demand _) (h.asked id) fun _ => trivial

theorem serveStackTrace (a : Dap.StackTraceArguments) : (serveStackTrace a).run.Within b fun _ => True := by
  refine within_seq h.theDebuggee fun d => within_seq (w := demand _) (h.asked id) fun frames => ?_
  exact within_seq (Attempt.within_items fun x _ => h.shows numbering_addFrame x) fun _ => trivial

theorem theFrame (handle : Int) : (theFrame handle).run.Within b fun _ => True := within_seq (h.seen _) fun _ => trivial

theorem serveScopes (handle : Int) : (serveScopes handle).run.Within b fun _ => True := by
  refine within_seq (h.theFrame handle) fun frame => within_seq h.theDebuggee fun d => ?_
  refine within_seq (w := demand _) (h.asked id) fun scopes => ?_
  exact within_seq (Attempt.within_items fun x _ => h.shows (fun _ _ => rfl) x) fun _ => trivial

theorem serveVariables (handle : Int) : (serveVariables handle).run.Within b fun _ => True := by
  refine within_seq (h.seen _) fun found => within_seq (w := require found) trivial fun reference => ?_
  refine within_seq h.theDebuggee fun d => within_seq (w := demand _) (h.asked id) fun children => ?_
  exact within_seq (Attempt.within_items fun x _ => h.shows numbering_addVariable x) fun _ => trivial

theorem serveEvaluate (a : Dap.EvaluateArguments) : (serveEvaluate a).run.Within b fun _ => True := by
  unfold Session.serveEvaluate
  cases a.frame with
  | none => trivial
  | some handle =>
    refine within_seq (h.theFrame handle) fun frame => within_seq h.theDebuggee fun d => ?_
    refine within_seq (w := demand _) (h.asked id) fun found => ?_
    cases found with
    | none => trivial
    | some x => exact within_seq (h.shows numbering_addVariable _) fun _ => trivial

theorem serveCompletions (a : Dap.CompletionsArguments) : (serveCompletions a).run.Within b fun _ => True := by
  unfold Session.serveCompletions
  cases a.frame with
  | none => trivial
  | some handle =>
    refine within_seq (h.theFrame handle) fun frame => within_seq (h.seen _) fun numbering => ?_
    exact within_seq h.theDebuggee fun d => within_seq (w := demand _) (h.asked id) fun _ => trivial

theorem serveExceptionInfo (t : ThreadId) : (serveExceptionInfo t).run.Within b fun _ => True := by
  refine within_seq (h.seen _) fun found => ?_
  cases found <;> trivial

theorem serveDisconnect (hCommand : q.command = "disconnect") : serveDisconnect.run.Within b fun _ => True := by
  refine within_seq (altered fun s => h.phase (by simp [Job.leave, hCommand]) _ s) fun _ => ?_
  refine within_seq (altered fun s => h.replaces [] s) fun _ => ?_
  refine within_seq (fun s => ⟨h.loses (.inl hCommand) s, trivial⟩) fun taken => ?_
  refine within_seq (within_act.mpr (h.releaseAll (by simp [Job.excepts, hCommand]))) fun _ => ?_
  cases taken with
  | none => trivial
  | some d =>
    refine within_seq (within_act.mpr (h.asked (c := .drive d .disconnect) id)) fun outcome => ?_
    cases outcome with
    | ok _ => trivial
    | error e =>
      dsimp only
      split
      · trivial
      · exact within_seq (within_act.mpr h.note) fun _ => trivial

/-! Requests that start a debuggee -/

theorem startDebuggee (hStarts : (Job.request q).starts) (d : DebuggeeId) (announceThreads : Bool) :
    (startDebuggee d announceThreads).Within b fun _ => True := by
  have hInstall : (install d).Within b fun _ => True := by
    refine Routine.within_then (fun s => ⟨h.subscribes d s, trivial⟩) fun subscription => ?_
    refine Routine.within_then (changed fun s => h.replaces _ s) fun _ => ?_
    exact changed fun s => h.installs hStarts d s
  exact Routine.within_then hInstall fun _ => changed fun s => h.enlists hStarts d announceThreads s

theorem serveLaunch (hStarts : (Job.request q).starts) (a : Dap.LaunchArguments) :
    (serveLaunch a).run.Within b fun _ => True := by
  have hCalls : ∀ {c}, ¬resumes c → b.calls c := fun hNot => h.calls _ fun hResumes => absurd hResumes hNot
  refine within_seq (h.applyLogging (fun _ => hCalls id) _) fun _ => ?_
  refine within_seq (w := demand _) (h.asked id) fun _ => ?_
  refine within_seq (w := demand _) (h.asked id) fun classpath => ?_
  refine within_seq (within_act.mpr (h.scanSources (hCalls id) _)) fun index => ?_
  refine within_seq (w := demand _) (h.asked id) fun d => ?_
  exact within_seq (within_act.mpr (h.startDebuggee hStarts d _)) fun _ => trivial

theorem serveAttach (hStarts : (Job.request q).starts) (a : Dap.AttachArguments) :
    (serveAttach a).run.Within b fun _ => True := by
  have hCalls : ∀ {c}, ¬resumes c → b.calls c := fun hNot => h.calls _ fun hResumes => absurd hResumes hNot
  refine within_seq (h.applyLogging (fun _ => hCalls id) _) fun _ => ?_
  refine within_seq (within_act.mpr (h.scanSources (hCalls id) _)) fun index => ?_
  refine within_seq (w := demand _) (h.asked id) fun d => ?_
  exact within_seq (within_act.mpr (h.startDebuggee hStarts d _)) fun _ => trivial

/-! All requests -/

omit h in
theorem withArguments {read : Json.Reading α} {serve : α → Work (Option Json)}
    (hServe : ∀ a, (serve a).run.Within b fun _ => True) : (withArguments q read serve).run.Within b fun _ => True :=
  within_seq trivial hServe

/-- What a request does until it is answered. -/
theorem answer : (answer q).run.Within b fun _ => True := by
  refine within_seq (within_act.mpr h.note) fun _ => ?_
  unfold serveNamed
  split
  case h_1 hCommand => exact withArguments (h.serveInitialize hCommand)
  case h_2 hCommand => exact h.serveConfigurationDone hCommand
  case h_3 hCommand => exact withArguments (h.serveLaunch (by simp [Job.starts, hCommand]))
  case h_4 hCommand => exact withArguments (h.serveAttach (by simp [Job.starts, hCommand]))
  case h_5 hCommand => exact withArguments (h.serveSetBreakpoints hCommand)
  case h_6 => exact withArguments h.serveSetExceptionBreakpoints
  case h_7 => exact h.serveThreads
  case h_8 hCommand => exact withArguments fun _ => h.serveContinue hCommand _
  case h_9 hCommand => exact withArguments fun _ => h.serveStep (by simp [hCommand]) _ _
  case h_10 hCommand => exact withArguments fun _ => h.serveStep (by simp [hCommand]) _ _
  case h_11 hCommand => exact withArguments fun _ => h.serveStep (by simp [hCommand]) _ _
  case h_12 => exact withArguments fun _ => h.servePause _
  case h_13 => exact withArguments h.serveStackTrace
  case h_14 => exact withArguments h.serveScopes
  case h_15 => exact withArguments h.serveVariables
  case h_16 => exact withArguments h.serveEvaluate
  case h_17 => exact withArguments h.serveCompletions
  case h_18 => exact withArguments fun _ => h.serveExceptionInfo _
  case h_19 hCommand => exact h.serveDisconnect hCommand
  case h_20 => trivial

/-- A request is served within bounds that allow to send the response, and what follows it. -/
theorem serve (hReplies : ∀ m s, IsReply m → b.changes s (post m s))
    (hInitialized : ∀ s, b.changes s { s with initialized := true }) : (serve q).Within b fun _ => True :=
  Routine.within_then h.answer fun result => h.toPlain.reply hReplies hInitialized q result

end Requests

/-! ## Other jobs -/

theorem onEvent {e : DebugEvent} (h : Allows (.event e) b) : (onEvent e : Activity Unit).Within b fun _ => True := by
  cases e with
  | breakpointHit t => exact h.sends rfl
  | step t => exact h.sends rfl
  | exceptionThrown t x => exact Routine.within_then (changed fun s => h.exceptions trivial _ s) fun _ => h.sends rfl
  | threadChanged t c =>
    cases c with
    | started => exact h.sends rfl
    | exited => exact Routine.within_then (h.release trivial t) fun _ => h.sends rfl
  | breakpointResolved id line =>
    refine Routine.within_then (fun s => ⟨h.stays s, trivial⟩) fun current => ?_
    split
    · next x hFound =>
      refine Routine.within_then (fun s => ⟨h.stays s, trivial⟩) fun numbering => ?_
      exact h.sends ⟨numbering, x, by simpa using List.find?_some hFound, rfl⟩
    · trivial
  | exited code =>
    have hEnd : (Job.event (.exited code)).isEnd := ⟨code, rfl⟩
    refine Routine.within_then h.note fun _ => ?_
    refine Routine.within_then (changed fun s => h.loses (.inr hEnd) s) fun _ => ?_
    refine Routine.within_then (changed fun s => h.clears hEnd s) fun _ => ?_
    refine Routine.within_then (h.releaseAll trivial) fun _ => ?_
    refine Routine.within_then (changed fun s => h.phase ⟨code, rfl⟩ _ s) fun _ => ?_
    exact Routine.within_then (h.sends (.inl rfl)) fun _ => h.sends (.inr rfl)

theorem hear {e : DebugEvent} (h : Allows (.event e) b) (d : DebuggeeId) : (hear d e).Within b fun _ => True := by
  refine Routine.within_then (fun s => ⟨h.stays s, trivial⟩) fun listeners => ?_
  exact Routine.within_each fun _ _ => h.onEvent

theorem runDebuggee {d : DebuggeeId} {announceThreads : Bool} (h : Allows (.run d announceThreads) b) :
    (runDebuggee d announceThreads).Within b fun _ => True := by
  have hAsk : ∀ c : Call, (Routine.ask (I := World) c : Activity (Answer c)).Within b fun _ => True :=
    fun c => h.asks (h.calls c trivial)
  have hAnnounce : (announce d).Within b fun _ => True := by
    refine Routine.within_then (hAsk _) fun listed => ?_
    split
    · exact Routine.within_each fun t _ => h.sends ⟨_, rfl⟩
    · exact h.note
  have hResume : resumeDebuggee.Within b fun _ => True := by
    refine Routine.within_then (fun s => ⟨h.stays s, trivial⟩) fun found => ?_
    split
    · trivial
    · refine Routine.within_then h.note fun _ => Routine.within_then (hAsk _) fun outcome => ?_
      split
      · trivial
      · exact h.note
  have hForward : (do change (forwardStreams d); resumeDebuggee : Activity Unit).Within b fun _ => True :=
    Routine.within_then (changed fun s => h.forwards trivial d s) fun _ => hResume
  refine Routine.within_then (h.onPhase (c := ⟨fun _ _ => True, fun _ => False, fun _ p => p⟩) trivial (fun _ => id) ?_)
    fun _ => ?_
  · exact ⟨fun _ => ⟨fun _ => trivial, fun _ => trivial⟩, fun _ _ => ⟨trivial, trivial⟩⟩
  · split
    · exact Routine.within_then hAnnounce fun _ => hForward
    · exact hForward

theorem takeOutput {n : Nat} {r : Activity Unit} {s s' : Session} (h : Allows (.forward n) b)
    (hTake : takeOutput n s = some (r, s')) : r.Within b fun _ => True := by
  unfold Session.takeOutput at hTake
  split at hTake
  · cases hTake
  · split at hTake
    · cases hTake
    · split at hTake
      · cases hTake
      · cases hTake
        exact h.sends ⟨_, _, rfl⟩
      · cases hTake
        exact h.note
      · cases hTake
        exact Routine.within_then h.note fun _ => h.note

end Allows

/-! ## Beside answering

A request is taken up, answered, and followed up at certain steps only. All that jobs do beside these steps leaves alone
which requests wait, and whether the client has been told that the session is ready. -/

/-- A change that leaves the requests and their answers alone. -/
structure Aside (l : Leave) (s s' : Session) : Prop where
  sends : ∃ new, s'.outbox = s.outbox ++ new ∧ ∀ m ∈ new, isConsole m ∨ l.tells m
  defaultLane : s'.defaultLane = s.defaultLane
  launcherLane : ∃ new, s'.launcherLane = s.launcherLane ++ new ∧ ∀ j ∈ new, LauncherJob.request? j = none
  arrivals : s'.arrivals = s.arrivals ∧ s'.nextArrival = s.nextArrival
  initialized : s'.initialized = s.initialized
  phase : l.opens ∨ s'.phase = s.phase
  streams : l.forwards ∨ s'.streams = s.streams

def beside (job : Job) : Bounds Session World := ⟨Aside job.leave, job.leave.calls, keep⟩

variable {l : Leave} {s s' s'' : Session}

/-- A change of what has nothing to do with requests. -/
theorem aside_of_eq (h : s' = { s with
      view := s'.view, exceptions := s'.exceptions, book := s'.book, debuggee := s'.debuggee, bus := s'.bus,
      subscriptions := s'.subscriptions, journal := s'.journal }) : Aside l s s' := by
  generalize s'.view = view, s'.exceptions = exceptions, s'.book = book, s'.debuggee = debuggee, s'.bus = bus,
    s'.subscriptions = subscriptions, s'.journal = journal at h
  subst h
  exact ⟨⟨[], by simp, by simp⟩, rfl, ⟨[], by simp, by simp⟩, ⟨rfl, rfl⟩, rfl, .inr rfl, .inr rfl⟩

/-- The same for a job that may have to do with the end of the configuration. -/
theorem aside_of_opens (hOpens : l.opens) (h : s' = { s with
      view := s'.view, exceptions := s'.exceptions, book := s'.book, debuggee := s'.debuggee, bus := s'.bus,
      subscriptions := s'.subscriptions, journal := s'.journal, phase := s'.phase }) : Aside l s s' := by
  have hBut : Aside l { s with phase := s'.phase } s' := aside_of_eq h
  exact { hBut with phase := .inl hOpens }

@[simp] theorem aside_refl (l : Leave) (s : Session) : Aside l s s := aside_of_eq rfl

theorem aside_post {m : Dap.Outgoing} (h : isConsole m ∨ l.tells m) (s : Session) : Aside l s (post m s) :=
  { aside_refl l s with sends := ⟨[m], rfl, by simpa using h⟩ }

theorem Aside.trans (hFirst : Aside l s s') (hSecond : Aside l s' s'') : Aside l s s'' where
  sends := by
    obtain ⟨new, hNew, hTold⟩ := hFirst.sends
    obtain ⟨more, hMore, hMoreTold⟩ := hSecond.sends
    refine ⟨new ++ more, by rw [hMore, hNew, List.append_assoc], fun m hm => ?_⟩
    exact (List.mem_append.mp hm).elim (hTold m) (hMoreTold m)
  defaultLane := hSecond.defaultLane.trans hFirst.defaultLane
  launcherLane := by
    obtain ⟨new, hNew, hNone⟩ := hFirst.launcherLane
    obtain ⟨more, hMore, hMoreNone⟩ := hSecond.launcherLane
    refine ⟨new ++ more, by rw [hMore, hNew, List.append_assoc], fun j hj => ?_⟩
    exact (List.mem_append.mp hj).elim (hNone j) (hMoreNone j)
  arrivals := ⟨hSecond.arrivals.1.trans hFirst.arrivals.1, hSecond.arrivals.2.trans hFirst.arrivals.2⟩
  initialized := hSecond.initialized.trans hFirst.initialized
  phase := by
    rcases hFirst.phase, hSecond.phase with ⟨h | h, h' | h'⟩
    · exact .inl h
    · exact .inl h
    · exact .inl h'
    · exact .inr (h'.trans h)
  streams := by
    rcases hFirst.streams, hSecond.streams with ⟨h | h, h' | h'⟩
    · exact .inl h
    · exact .inl h
    · exact .inl h'
    · exact .inr (h'.trans h)

@[simp] theorem aside_keep (l : Leave) (r : Log.Record) (s : Session) : Aside l s (keep r s) := by
  unfold keep
  split
  · exact aside_refl l s
  · split
    · split
      · exact (aside_of_eq rfl).trans (aside_post (.inl ⟨_, rfl⟩) _)
      · exact aside_of_eq rfl
    · exact aside_refl l s

theorem allows_beside (job : Job) : Allows job (beside job) where
  stays := aside_refl _
  notes := aside_keep _
  journal _ _ := aside_of_eq rfl
  calls _ h := h
  tells _ s h := aside_post (.inr h) s
  phase h _ _ := aside_of_opens h rfl
  forwards h _ s := { aside_refl _ s with streams := .inl h }
  views _ _ _ := aside_of_eq rfl
  numbers _ _ _ := aside_of_eq rfl
  exceptions _ _ _ := aside_of_eq rfl
  sets _ _ _ _ := aside_of_eq rfl
  filters _ _ := aside_of_eq rfl
  subscribes _ _ := aside_of_eq rfl
  replaces _ _ := aside_of_eq rfl
  installs _ _ _ := aside_of_eq rfl
  enlists _ d announceThreads s :=
    { aside_refl _ s with launcherLane := ⟨[.run d announceThreads], rfl, by simp [LauncherJob.request?]⟩ }
  loses _ _ := aside_of_eq rfl
  clears _ _ := aside_of_eq rfl

end JvmDebug.Session
