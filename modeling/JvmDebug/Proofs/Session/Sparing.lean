import JvmDebug.Proofs.Routine.Sparing
import JvmDebug.Proofs.Session.Steps

/-!
# What a failed request leaves behind

A request reads its arguments, looks things up and asks the debuggee before it writes anything down, and once it writes
it does not fail any more. So a request that fails has changed nothing of what the session has in mind. That is not so
for those that let threads run or end the session: they give handles up before they ask.
-/

namespace JvmDebug.Session
set_option autoImplicit false

open Attempt (never_bind never_mapM never_pure within_seq)
open Jdwp (ThreadId)

variable {α β : Type}

/-- What a session has in mind: what it has shown and under which handles, what it has been asked for, whose debuggee it
has and to whose events it listens, and how far it is with its configuration. -/
structure Memory where
  view : ClientView
  exceptions : Handles ThreadId Thrown
  book : BreakpointBook
  phase : Phase
  debuggee : Option DebuggeeId
  bus : Bus DebuggeeId
  subscriptions : List Nat

def memory (s : Session) : Memory := ⟨s.view, s.exceptions, s.book, s.phase, s.debuggee, s.bus, s.subscriptions⟩

theorem memory_keep (r : Log.Record) (s : Session) : (keep r s).memory = s.memory := by
  unfold keep
  split
  · rfl
  · split
    · split <;> rfl
    · rfl

/-! ## Within bounds -/

def startsDebuggee : Call → Prop
  | .launch .. | .attach .. => True
  | _ => False

/-- A debuggee has been started. That may have written into the book. -/
def started : Asked World → Prop
  | ⟨.launch _ _, .ok _⟩ | ⟨.attach _ _, .ok _⟩ => True
  | _ => False

theorem not_started {c : Call} (a : Answer c) (h : ¬startsDebuggee c) : ¬started ⟨c, a⟩ := by
  cases c with
  | launch | attach => exact absurd trivial h
  | drive | build | files | openLog => exact id

/-- What leaves alone what the session has in mind, and starts no debuggee. -/
def mindful : Bounds Session World := ⟨fun s s' => s'.memory = s.memory, fun c => ¬startsDebuggee c, keep⟩

theorem plain_mindful : Plain mindful where
  stays _ := rfl
  notes := memory_keep
  journal _ _ := rfl

theorem mindful_drive (d : DebuggeeId) (r : DebuggeeRequest) : (drive d r).Within mindful fun _ => True :=
  plain_mindful.asks id

theorem mindful_theFrame (handle : Int) : (theFrame handle).run.Within mindful fun _ => True :=
  within_seq (plain_mindful.seen _) fun _ => trivial

theorem mindful_serveThreads : serveThreads.run.Within mindful fun _ => True := by
  refine within_seq (plain_mindful.seen _) fun found => ?_
  cases found with
  | none => trivial
  | some d => exact within_seq (w := demand _) (mindful_drive d .threads) fun _ => trivial

theorem mindful_servePause (thread : ThreadId) : (servePause thread).run.Within mindful fun _ => True :=
  within_seq plain_mindful.theDebuggee fun d =>
    within_seq (w := demand _) (mindful_drive d (.pause thread)) fun _ => trivial

theorem mindful_serveCompletions (a : Dap.CompletionsArguments) :
    (serveCompletions a).run.Within mindful fun _ => True := by
  unfold serveCompletions
  split
  · trivial
  · refine within_seq (mindful_theFrame _) fun frame => within_seq (plain_mindful.seen _) fun numbering => ?_
    refine within_seq plain_mindful.theDebuggee fun d => ?_
    exact within_seq (w := demand _) (mindful_drive d (.completions frame _)) fun _ => trivial

theorem mindful_serveExceptionInfo (thread : ThreadId) :
    (serveExceptionInfo thread).run.Within mindful fun _ => True := by
  refine within_seq (plain_mindful.seen _) fun found => ?_
  split <;> trivial

/-! ## Work that does not fail -/

theorem never_act {r : Activity α} : (act r).run.Never Failed := Attempt.never_lift

theorem never_show {γ : Type} (add : ClientView → α → γ × ClientView) (a : α) : (show_ add a).run.Never Failed :=
  never_act

theorem never_shown {γ : Type} (add : ClientView → α → γ × ClientView) (items : List α) :
    (items.mapM (show_ add)).run.Never Failed :=
  never_mapM (never_show add) items

theorem never_breakpointJson (b : Breakpoint) : (breakpointJson b).run.Never Failed :=
  never_bind never_act fun _ => never_bind never_act fun _ => never_pure _

theorem never_serveInitialize (a : Dap.InitializeArguments) : (serveInitialize a).run.Never Failed :=
  never_bind never_act fun _ => never_bind never_act fun _ => never_pure _

theorem never_serveConfigurationDone : serveConfigurationDone.run.Never Failed :=
  never_bind never_act fun _ => never_pure _

theorem never_serveSetExceptionBreakpoints (ids : List String) : (serveSetExceptionBreakpoints ids).run.Never Failed :=
  never_bind never_act fun _ => never_bind never_act fun _ => never_pure _

/-! ## Work that spares the memory -/

/-- Where the work fails, the session has the same in mind as before. -/
abbrev SparesMemory (w : Work α) : Prop := w.run.Spares memory started Failed

theorem SparesMemory.of_within {w : Work α} (h : w.run.Within mindful fun _ => True) : SparesMemory w :=
  h.spares (fun _ _ => id) fun _ a => not_started a

theorem SparesMemory.of_never {w : Work α} (h : w.run.Never Failed) : SparesMemory w := h.spares

theorem sparesMemory_after {w : Work α} {k : α → Work β} (h : w.run.Within mindful fun _ => True)
    (hNext : ∀ a, SparesMemory (k a)) : SparesMemory (w >>= k) :=
  Attempt.spares_after h (fun _ _ => id) (fun _ a => not_started a) hNext

theorem serveSetBreakpoints_spares (a : Dap.SetBreakpointsArguments) : SparesMemory (serveSetBreakpoints a) := by
  refine sparesMemory_after (w := require _) trivial fun source => ?_
  refine sparesMemory_after (Attempt.within_items fun x _ => plain_mindful.readBreakpoint source x) fun requested => ?_
  -- All lines are in range, so that they are stored and answered for.
  refine .of_never (never_bind never_act fun stored => ?_)
  refine never_bind never_act fun _ => never_bind never_act fun _ => ?_
  exact never_bind (never_mapM never_breakpointJson _) fun _ => never_pure _

theorem serveStackTrace_spares (a : Dap.StackTraceArguments) : SparesMemory (serveStackTrace a) := by
  refine sparesMemory_after plain_mindful.theDebuggee fun d => ?_
  refine sparesMemory_after (w := demand _) (mindful_drive d (.stackTrace _)) fun frames => ?_
  exact .of_never (never_bind (never_shown _ _) fun _ => never_pure _)

theorem serveScopes_spares (handle : Int) : SparesMemory (serveScopes handle) := by
  refine sparesMemory_after (mindful_theFrame handle) fun frame => ?_
  refine sparesMemory_after plain_mindful.theDebuggee fun d => ?_
  refine sparesMemory_after (w := demand _) (mindful_drive d (.scopes frame)) fun scopes => ?_
  exact .of_never (never_bind (never_shown _ _) fun _ => never_pure _)

theorem serveVariables_spares (handle : Int) : SparesMemory (serveVariables handle) := by
  refine sparesMemory_after (plain_mindful.seen _) fun found => ?_
  refine sparesMemory_after (w := require _) trivial fun reference => ?_
  refine sparesMemory_after plain_mindful.theDebuggee fun d => ?_
  refine sparesMemory_after (w := demand _) (mindful_drive d (.expand reference)) fun children => ?_
  exact .of_never (never_bind (never_shown _ _) fun _ => never_pure _)

theorem serveEvaluate_spares (a : Dap.EvaluateArguments) : SparesMemory (serveEvaluate a) := by
  unfold serveEvaluate
  extract_lets expression
  split
  · trivial
  · refine sparesMemory_after (mindful_theFrame _) fun frame => sparesMemory_after plain_mindful.theDebuggee fun d => ?_
    refine sparesMemory_after (w := demand _) (mindful_drive d (.evaluate frame expression)) fun found => ?_
    split
    · trivial
    · exact .of_never (never_bind (never_show _ _) fun _ => never_pure _)

/-- A debuggee that has been started becomes that of the session; one that has not leaves nothing to be done. -/
theorem startsDebuggee_spares {c : Activity (Except Error DebuggeeId)} {announceThreads : Bool}
    (h : SparesMemory (demand c)) : SparesMemory (do
      let d ← demand c
      act (startDebuggee d announceThreads)
      return (none : Option Json)) :=
  Attempt.spares_then h fun _ => never_bind never_act fun _ => never_pure _

theorem launch_spares (r : LaunchRequest) (index : SourceIndex) : SparesMemory (demand (launch r index)) := by
  rintro (e | d)
  · exact .inl ⟨id, trivial⟩
  · exact .inr id

theorem attach_spares (r : AttachRequest) (index : SourceIndex) : SparesMemory (demand (attach r index)) := by
  rintro (e | d)
  · exact .inl ⟨id, trivial⟩
  · exact .inr id

theorem serveLaunch_spares (a : Dap.LaunchArguments) : SparesMemory (serveLaunch a) := by
  refine sparesMemory_after (plain_mindful.applyLogging (fun _ => id) _) fun _ => ?_
  refine sparesMemory_after (w := demand _) (plain_mindful.asks id) fun _ => ?_
  refine sparesMemory_after (w := demand _) (plain_mindful.asks id) fun classpath => ?_
  refine sparesMemory_after (within_act.mpr (plain_mindful.scanSources id _)) fun index => ?_
  exact startsDebuggee_spares (launch_spares _ _)

theorem serveAttach_spares (a : Dap.AttachArguments) : SparesMemory (serveAttach a) := by
  refine sparesMemory_after (plain_mindful.applyLogging (fun _ => id) _) fun _ => ?_
  refine sparesMemory_after (within_act.mpr (plain_mindful.scanSources id _)) fun index => ?_
  exact startsDebuggee_spares (attach_spares _ _)

/-! ## All requests -/

/-- The requests that let threads run, or end the session. -/
def letsGo : List String := ["continue", "next", "stepIn", "stepOut", "disconnect"]

theorem withArguments_spares {q : Dap.Request} {read : Json.Reading α} {serve : α → Work (Option Json)}
    (h : ∀ a, SparesMemory (serve a)) : SparesMemory (withArguments q read serve) :=
  sparesMemory_after (w := require _) trivial h

theorem serveNamed_spares {q : Dap.Request} (hCommand : q.command ∉ letsGo) : SparesMemory (serveNamed q) := by
  unfold serveNamed
  split
  case h_1 => exact withArguments_spares fun a => .of_never (never_serveInitialize a)
  case h_2 => exact .of_never never_serveConfigurationDone
  case h_3 => exact withArguments_spares serveLaunch_spares
  case h_4 => exact withArguments_spares serveAttach_spares
  case h_5 => exact withArguments_spares serveSetBreakpoints_spares
  case h_6 => exact withArguments_spares fun a => .of_never (never_serveSetExceptionBreakpoints a)
  case h_7 => exact .of_within mindful_serveThreads
  case h_12 => exact withArguments_spares fun _ => .of_within (mindful_servePause _)
  case h_13 => exact withArguments_spares serveStackTrace_spares
  case h_14 => exact withArguments_spares serveScopes_spares
  case h_15 => exact withArguments_spares serveVariables_spares
  case h_16 => exact withArguments_spares serveEvaluate_spares
  case h_17 => exact withArguments_spares fun a => .of_within (mindful_serveCompletions a)
  case h_18 => exact withArguments_spares fun _ => .of_within (mindful_serveExceptionInfo _)
  case h_20 => trivial
  all_goals simp_all [letsGo]

theorem answer_spares {q : Dap.Request} (hCommand : q.command ∉ letsGo) : SparesMemory (answer q) :=
  sparesMemory_after (within_act.mpr plain_mindful.note) fun _ => serveNamed_spares hCommand

end JvmDebug.Session
