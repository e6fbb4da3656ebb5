import JvmDebug.Proofs.Handles
import JvmDebug.Proofs.Session.Messages
import JvmDebug.Proofs.Session.Scene

/-!
# How the jobs of a session treat handles

What each job may do to the frames and references that the client knows, and what a request that shows some has to tell
of them. Only requests give handles out; they, and the events of debuggees, give them up again.
-/

namespace JvmDebug.Session
set_option autoImplicit false

open Jdwp (ThreadId)

def frames (s : Session) : Handles ThreadId FrameRef := s.view.frames
def references (s : Session) : Handles ThreadId VariableRef := s.view.references

/-! ## What is given up -/

structure Sheds (may : ThreadId → Prop) (s s' : Session) : Prop where
  frames : s.frames.Sheds may s'.frames
  references : s.references.Sheds may s'.references

namespace Sheds

variable {may may' : ThreadId → Prop} {s s' s'' : Session}

theorem refl (may : ThreadId → Prop) (s : Session) : s.Sheds may s := ⟨.refl .., .refl ..⟩

theorem trans (hFirst : s.Sheds may s') (hSecond : s'.Sheds may s'') : s.Sheds may s'' :=
  ⟨hFirst.frames.trans hSecond.frames, hFirst.references.trans hSecond.references⟩

theorem mono (hMay : ∀ t, may t → may' t) (h : s.Sheds may s') : s.Sheds may' s' :=
  ⟨h.frames.mono hMay, h.references.mono hMay⟩

theorem of_view_eq (may : ThreadId → Prop) (hFrames : s'.frames = s.frames) (hReferences : s'.references = s.references) :
    s.Sheds may s' :=
  ⟨hFrames ▸ .refl .., hReferences ▸ .refl ..⟩

end Sheds

/-- A change that gives up no handles but those of certain threads, and sends only certain messages. -/
structure Modest (may : ThreadId → Prop) (tells : Dap.Outgoing → Prop) (s s' : Session) : Prop
    extends s.Sheds may s' where
  sends : ∃ new, s'.outbox = s.outbox ++ new ∧ ∀ m ∈ new, tells m
  launcherLane : ∃ new, s'.launcherLane = s.launcherLane ++ new ∧ ∀ j ∈ new, ∃ d announce, j = .run d announce
  arrivals : s'.arrivals = s.arrivals

/-- Such a change, with no response among the messages. -/
abbrev Quiet (may : ThreadId → Prop) : Session → Session → Prop := Modest may Dap.Outgoing.isEvent

/-- Whether a call lets threads of a debuggee run. -/
def resumes : Call → Prop
  | .drive _ (.resume _) | .drive _ (.step ..) | .drive _ .resumeAll => True
  | _ => False

def resumesAll : Call → Prop
  | .drive _ .resumeAll => True
  | _ => False

/-- Gives up no handles but those of certain threads, and sends and calls only certain things. -/
def modestly (may : ThreadId → Prop) (tells : Dap.Outgoing → Prop) (calls : Call → Prop) : Bounds Session World :=
  ⟨Modest may tells, calls, keep⟩

/-! ## What is given out -/

/-- The handles that were given out. -/
def issued {β : Type} (pool : Session → Handles ThreadId β) (did : List Act) : List (Int × ThreadId × β) :=
  did.flatMap fun x => added (pool x.before).entries (pool x.after).entries

/-- What a debuggee was asked, and what it answered. -/
abbrev asked (d : DebuggeeId) (r : DebuggeeRequest) (a : r.Answer) : Option (Asked World) := some ⟨.drive d r, a⟩

/-- What a debuggee has told that a request is to show: frames and references. -/
inductive Told (q : Dap.Request) (did : List Act) : List FrameRef → List VariableRef → Prop where
  | stackTrace {a : Dap.StackTraceArguments} {d : DebuggeeId} {stack : List StackFrame} {x : Act} :
      q.command = "stackTrace" → q.argumentsAs Dap.StackTraceArguments.read = .ok a → x ∈ did →
      x.asked = asked d (.stackTrace (threadFromClient a.thread)) (.ok stack) →
      Told q did ((stackPart a stack).map (·.frame)) []
  | scopes {handle : Int} {frame : FrameRef} {d : DebuggeeId} {scopes : List Scope} {x y : Act} :
      q.command = "scopes" → q.argumentsAs Dap.frameArgument = .ok handle →
      y ∈ did → y.before.view.frame handle = .ok frame → x ∈ did → x.asked = asked d (.scopes frame) (.ok scopes) →
      Told q did [] (scopes.map (·.contents))
  | expand {handle : Int} {reference : VariableRef} {d : DebuggeeId} {children : List Variable} {x y : Act} :
      q.command = "variables" → q.argumentsAs Dap.variablesArgument = .ok handle →
      y ∈ did → y.before.view.reference handle = .ok reference →
      x ∈ did → x.asked = asked d (.expand reference) (.ok children) →
      Told q did [] (children.filterMap (·.children))
  | evaluate {a : Dap.EvaluateArguments} {handle : Int} {frame : FrameRef} {d : DebuggeeId} {found : Variable}
      {x y : Act} :
      q.command = "evaluate" → q.argumentsAs Dap.EvaluateArguments.read = .ok a → a.frame = some handle →
      y ∈ did → y.before.view.frame handle = .ok frame →
      x ∈ did → x.asked = asked d (.evaluate frame (trim a.expression)) (.ok (some found)) →
      Told q did [] found.children.toList

/-- What has been shown so far was told, and is shown in that order. -/
def Shown (q : Dap.Request) (did : List Act) : Prop :=
  ∃ frames references, Told q did frames references ∧
    (issued Session.frames did).map (·.2.2) <+: frames ∧ (issued Session.references did).map (·.2.2) <+: references

/-- All that was told has been shown. -/
def AllShown (q : Dap.Request) (did : List Act) : Prop :=
  Told q did ((issued Session.frames did).map (·.2.2)) ((issued Session.references did).map (·.2.2))

end Session

/-! ## Requests -/

namespace Dap.Request

open Jdwp (ThreadId)

/-- Whether a request, if it is understood, has a thread run. -/
def resumes (q : Request) (t : ThreadId) : Prop :=
  q.command ∈ ["continue", "next", "stepIn", "stepOut"] ∧
    ∃ n, q.argumentsAs threadArgument = .ok n ∧ threadFromClient n = t

/-- The requests that show frames or references. -/
def shows (q : Request) : Prop := q.command ∈ ["stackTrace", "scopes", "variables", "evaluate"]

/-- Whether a request is about a frame that the client knows by a handle. -/
def asksFrame (q : Request) (handle : Int) : Prop :=
  q.command = "scopes" ∧ q.argumentsAs frameArgument = .ok handle ∨
    q.command = "evaluate" ∧ (∃ a, q.argumentsAs EvaluateArguments.read = .ok a ∧ a.frame = some handle) ∨
    q.command = "completions" ∧ ∃ a, q.argumentsAs CompletionsArguments.read = .ok a ∧ a.frame = some handle

def asksReference (q : Request) (handle : Int) : Prop :=
  q.command = "variables" ∧ q.argumentsAs variablesArgument = .ok handle

end Dap.Request

namespace Session

open Jdwp (ThreadId)

/-- Whether a thread could not be resumed on its own. -/
def fellBack (did : List Act) : Prop :=
  ∃ x ∈ did, ∃ d t, x.asked = asked d (.resume t) (.ok .threadUnavailable)

/-- The threads whose handles a request may give up. -/
def MayFree (q : Dap.Request) (did : List Act) (t : ThreadId) : Prop :=
  q.resumes t ∨ q.command = "disconnect" ∨ fellBack did

def sendsNoResponse (did : List Act) : Prop := ∀ x ∈ did, ∃ new, x.after.outbox = x.before.outbox ++ new ∧
  ∀ m ∈ new, m.isEvent

/-- What holds of a request when it is answered. -/
structure Answered (q : Dap.Request) (did : List Act) (result : Except Error (Option Json)) : Prop where
  unanswered : sendsNoResponse did
  frameIds : (Dap.Outgoing.response (.of q result)).frameIds = (issued frames did).map (·.1)
  references : (Dap.Outgoing.response (.of q result)).references = (issued references did).map (·.1)
  shown : q.shows → result.isOk → AllShown q did
  frame : ∀ handle, q.asksFrame handle → ∃ x ∈ did, ∀ why, x.before.view.frame handle = .error why → result = .error why
  reference : ∀ handle, q.asksReference handle →
    ∃ x ∈ did, ∀ why, x.before.view.reference handle = .error why → result = .error why

def withFrame (f : FrameRef) (s : Session) : Session :=
  { s with view := { s.view with frames := (s.view.frames.store f.thread f).2 } }

def withReference (r : VariableRef) (s : Session) : Session :=
  { s with view := { s.view with references := (s.view.references.store r.thread r).2 } }

/-- One step of a request. -/
inductive Conduct (q : Dap.Request) (did : List Act) (x : Act) : Prop where
  | quiet : Quiet (MayFree q did) x.before x.after → Conduct q did x
  | frame (f : FrameRef) : x.after = x.before.withFrame f → Shown q (did ++ [x]) → Conduct q did x
  | reference (r : VariableRef) : x.after = x.before.withReference r → Shown q (did ++ [x]) → Conduct q did x
  | responds (result : Except Error (Option Json)) :
      x.after = x.before.post (.response (.of q result)) → Answered q did result → Conduct q did x

/-- At some moment a thread has no handles left. -/
def Frees (t : ThreadId) (did : List Act) : Prop :=
  (∃ x ∈ did, x.after.frames.ownedBy t = []) ∧ ∃ x ∈ did, x.after.references.ownedBy t = []

/-- The threads whose handles a request has given up in the end. -/
def HasFreed (q : Dap.Request) (did : List Act) (t : ThreadId) : Prop :=
  q.resumes t ∧ (∀ x ∈ did, x.before.debuggee.isSome) ∨ q.command = "disconnect" ∨ fellBack did

/-- Whether an event tells that the handles of a thread mean nothing any more. -/
def ends (t : ThreadId) : DebugEvent → Prop
  | .threadChanged u .exited => u = t
  | .exited _ => True
  | _ => False

/-! ## Terms -/

/-- A thread has no handles. -/
structure Bare (t : ThreadId) (s : Session) : Prop where
  frames : s.frames.ownedBy t = []
  references : s.references.ownedBy t = []

/-- Whether a call may be made: what it lets run has no handles. -/
def Safe : Call → Session → Prop
  | .drive _ (.resume t), s | .drive _ (.step t _), s => Bare t s
  | .drive _ .resumeAll, s => ∀ t, Bare t s
  | _, _ => True

theorem safe_of_not_resumes {c : Call} (h : ¬resumes c) (s : Session) : Safe c s := by
  unfold Safe
  split
  · exact absurd trivial h
  · exact absurd trivial h
  · exact absurd trivial h
  · trivial

/-- What is true of every session: references count from 1, and the requests that wait beside the default lane are those
that belong there. -/
structure Sound (s : Session) : Prop where
  next : 1 ≤ s.references.next
  launcherLane : ∀ q, .request q ∈ s.launcherLane → q.command = "launch" ∨ q.command = "attach"
  arrivals : ∀ x ∈ s.arrivals, x.2.command = "configurationDone"

def requestTerms (q : Dap.Request) : Terms Session World where
  valid := Sound
  others := Sheds fun _ => True
  refl := Sheds.refl _
  trans := Sheds.trans
  asks _ c s := Safe c s
  does := Conduct q
  keep := keep

/-- The terms of a job that tells no handles, and keeps within bounds. -/
def modestTerms (may : ThreadId → Prop) (calls : Call → Prop) : Terms Session World where
  valid := Sound
  others _ _ := True
  refl _ := trivial
  trans _ _ := trivial
  asks _ c _ := calls c
  does _ x := Modest may Dap.Outgoing.tellsNone x.before x.after
  keep := keep

def terms : Hand → Job → Terms Session World
  | .worker .defaultLane, .request q => requestTerms q
  | .worker .launcherLane, .run _ _ => modestTerms (fun _ => False) fun c => resumes c → resumesAll c
  | .event _, .event e => modestTerms (ends · e) fun _ => False
  | _, _ => modestTerms (fun _ => False) fun c => ¬resumes c

def ending : Hand → Job → Unit → List Act → Session → Prop
  | .worker .defaultLane, .request q => fun _ did _ => ∀ t, HasFreed q did t → Frees t did
  | .event _, .event e => fun _ did _ => ∀ t, ends t e → Frees t did
  | _, _ => fun _ _ _ => True

end JvmDebug.Session
