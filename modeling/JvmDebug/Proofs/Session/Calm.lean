import JvmDebug.Proofs.Session.Conduct
import JvmDebug.Proofs.Session.Steps

/-!
# Requests that leave handles alone

Most requests give no handles out and none up, let nothing run, and tell no handles when they are answered.
-/

namespace JvmDebug.Session
set_option autoImplicit false

open Jdwp (ThreadId)

variable {may : ThreadId → Prop} {tells : Dap.Outgoing → Prop} {calls : Call → Prop} {s s' : Session} {α β : Type}

theorem quiet_of_eq (may : ThreadId → Prop) (hFrames : s'.view.frames = s.view.frames)
    (hReferences : s'.view.references = s.view.references) (hOutbox : s'.outbox = s.outbox)
    (hLauncher : s'.launcherLane = s.launcherLane) (hArrivals : s'.arrivals = s.arrivals) : Quiet may s s' where
  toSheds := .of_view_eq may hFrames hReferences
  sends := ⟨[], by simpa using hOutbox, by simp⟩
  launcherLane := ⟨[], by simpa using hLauncher, by simp⟩
  arrivals := hArrivals

theorem quiet_refl (may : ThreadId → Prop) (s : Session) : Quiet may s s := quiet_of_eq may rfl rfl rfl rfl rfl

theorem quiet_post (may : ThreadId → Prop) {m : Dap.Outgoing} (h : m.isEvent) (s : Session) :
    Quiet may s (post m s) where
  toSheds := .of_view_eq may rfl rfl
  sends := ⟨[m], rfl, by simpa using h⟩
  launcherLane := ⟨[], by simp [post], by simp⟩
  arrivals := rfl

theorem Modest.trans {s'' : Session} (hFirst : Modest may tells s s') (hSecond : Modest may tells s' s'') :
    Modest may tells s s'' where
  toSheds := hFirst.toSheds.trans hSecond.toSheds
  sends := by
    obtain ⟨new, hNew, hEvents⟩ := hFirst.sends
    obtain ⟨more, hMore, hMoreEvents⟩ := hSecond.sends
    refine ⟨new ++ more, by rw [hMore, hNew, List.append_assoc], ?_⟩
    exact fun m hm => (List.mem_append.mp hm).elim (hEvents m) (hMoreEvents m)
  launcherLane := by
    obtain ⟨new, hNew, hRuns⟩ := hFirst.launcherLane
    obtain ⟨more, hMore, hMoreRuns⟩ := hSecond.launcherLane
    refine ⟨new ++ more, by rw [hMore, hNew, List.append_assoc], ?_⟩
    exact fun j hj => (List.mem_append.mp hj).elim (hRuns j) (hMoreRuns j)
  arrivals := hSecond.arrivals.trans hFirst.arrivals

theorem quiet_keep (may : ThreadId → Prop) (r : Log.Record) (s : Session) : Quiet may s (keep r s) := by
  unfold keep
  split
  · exact quiet_refl may s
  next j _ =>
    have hWritten : Quiet may s { s with journal := some (j.write r) } := quiet_of_eq may rfl rfl rfl rfl rfl
    split
    · dsimp only
      split
      · exact hWritten.trans (quiet_post (m := .output "console" r.line) may trivial _)
      · exact hWritten
    · exact quiet_refl may s

attribute [simp] quiet_refl quiet_keep

@[simp] theorem modestly_changes : (modestly may tells calls).changes = Modest may tells := rfl
@[simp] theorem modestly_calls : (modestly may tells calls).calls = calls := rfl
@[simp] theorem modestly_keep : (modestly may tells calls).keep = keep := rfl

/-! ## Requests -/

/-- A result that tells the client no handles. -/
def Handless : Except Error (Option Json) → Prop
  | .ok (some body) => Dap.Handless body
  | _ => True

@[simp] theorem handless_error {e : Error} : Handless (.error e) := trivial
@[simp] theorem handless_none : Handless (.ok none) := trivial

/-- Gives no handles out and none up, and lets nothing run. -/
abbrev calm : Bounds Session World := modestly (fun _ => False) Dap.Outgoing.isEvent fun c => ¬resumes c

theorem plain_calm : Plain calm where
  stays := quiet_refl _
  notes x s := quiet_keep _ x s
  journal _ _ := quiet_of_eq _ rfl rfl rfl rfl rfl

/-- What fails tells the client no handles either. -/
theorem calm_then {α : Type} {w : Work α} {k : α → Work (Option Json)} (hFirst : w.run.Within calm fun _ => True)
    (hNext : ∀ a, (k a).run.Within calm Handless) : (w >>= k).run.Within calm Handless :=
  Attempt.within_then hFirst hNext fun _ => handless_error

theorem serveInitialize_calm (a : Dap.InitializeArguments) : (serveInitialize a).run.Within calm Handless := by
  have hBody : Handless (.ok (some (Dap.capabilities (ExceptionFilter.all.map fun f => (f.id, f.label))))) :=
    Dap.handless_object (by simp [Dap.handleFields])
  refine calm_then (w := act _) (by simp [info, Routine.info]) fun _ => ?_
  exact fun s => ⟨quiet_of_eq _ rfl rfl rfl rfl rfl, hBody⟩

theorem serveConfigurationDone_calm : serveConfigurationDone.run.Within calm Handless := by
  simp only [serveConfigurationDone, Attempt.within_bind, within_act, Attempt.within_pure, Attempt.andThen_ok]
  refine fun s => ⟨quiet_of_eq _ rfl rfl rfl rfl rfl, fun s => ⟨fun _ => ?_, fun hLimit => ?_⟩, fun _ => handless_none⟩
  · exact quiet_of_eq _ rfl rfl rfl rfl rfl
  · cases hLimit

theorem serveSetExceptionBreakpoints_calm (ids : List String) :
    (serveSetExceptionBreakpoints ids).run.Within calm Handless := by
  refine calm_then (within_act.mpr (Routine.within_each fun id _ => plain_calm.noteUnknownFilter id)) fun _ => ?_
  exact fun s => ⟨quiet_of_eq _ rfl rfl rfl rfl rfl, handless_none⟩

theorem serveThreads_calm : serveThreads.run.Within calm Handless := by
  have hBody : ∀ threads : List ThreadInfo,
      Handless (.ok (some (Dap.listBody "threads" (threads.map fun t => (ClientView.threadView t).json)))) :=
    fun _ => Dap.handless_listBody (by simp [Dap.handleFields])
  simp only [serveThreads, Attempt.within_bind, within_see, Attempt.andThen_ok]
  intro s
  refine ⟨quiet_refl _ s, ?_⟩
  split
  · refine ⟨by simp [resumes], quiet_refl _, ?_⟩
    rintro (e | threads)
    · exact handless_error
    · exact hBody threads
  · exact hBody []

theorem servePause_calm (t : ThreadId) : (servePause t).run.Within calm Handless := by
  refine calm_then plain_calm.theDebuggee fun d => ?_
  refine ⟨by simp [resumes], quiet_refl _, ?_⟩
  rintro (e | a)
  · exact handless_error
  · exact handless_none

theorem serveExceptionInfo_calm (t : ThreadId) : (serveExceptionInfo t).run.Within calm Handless := by
  simp only [serveExceptionInfo, Attempt.within_bind, within_see, Attempt.andThen_ok]
  intro s
  refine ⟨quiet_refl _ s, ?_⟩
  split
  · exact Dap.handless_object (by simp [Dap.handleFields])
  · exact Dap.handless_object (by simp [Dap.handleFields])

theorem serveSetBreakpoints_calm (a : Dap.SetBreakpointsArguments) :
    (serveSetBreakpoints a).run.Within calm Handless := by
  refine calm_then trivial fun source => ?_
  refine calm_then (Attempt.within_items fun x _ => plain_calm.readBreakpoint source x) fun requested => ?_
  refine fun s => ⟨quiet_of_eq _ rfl rfl rfl rfl rfl, ?_⟩
  refine calm_then (w := act _) (by simp [Routine.debug]) fun _ => ?_
  refine calm_then (within_act.mpr (plain_calm.awaitSync source _)) fun _ => ?_
  refine calm_then (Attempt.within_items fun x _ => plain_calm.breakpointJson x) fun bodies => ?_
  exact Dap.handless_listBody (by simp [Dap.handleFields])

/-! ## Starting a debuggee -/

theorem startDebuggee_calm (d : DebuggeeId) (announceThreads : Bool) :
    (startDebuggee d announceThreads).Within calm fun _ => True := by
  have hInstall : (install d).Within calm fun _ => True := by
    refine Routine.within_then (fun s => ⟨quiet_of_eq _ rfl rfl rfl rfl rfl, trivial⟩) fun _ => ?_
    refine Routine.within_then (fun s => ⟨quiet_of_eq _ rfl rfl rfl rfl rfl, trivial⟩) fun _ => ?_
    exact fun s => ⟨quiet_of_eq _ rfl rfl rfl rfl rfl, trivial⟩
  refine Routine.within_then hInstall fun _ s => ⟨?_, trivial⟩
  exact
    { toSheds := .of_view_eq _ rfl rfl
      sends := ⟨[], by simp, by simp⟩
      launcherLane := ⟨[.run d announceThreads], rfl, fun _ hj => ⟨d, announceThreads, List.mem_singleton.mp hj⟩⟩
      arrivals := rfl }

theorem serveLaunch_calm (a : Dap.LaunchArguments) : (serveLaunch a).run.Within calm Handless := by
  refine calm_then (plain_calm.applyLogging (fun _ => by simp [resumes]) _) fun _ => ?_
  refine calm_then ⟨by simp [resumes], quiet_refl _, fun _ => trivial⟩ fun _ => ?_
  refine calm_then ⟨by simp [resumes], quiet_refl _, fun _ => trivial⟩ fun _ => ?_
  refine calm_then (within_act.mpr (plain_calm.scanSources (by simp [resumes]) _)) fun _ => ?_
  refine calm_then ⟨by simp [resumes], quiet_refl _, fun _ => trivial⟩ fun d => ?_
  exact calm_then (within_act.mpr (startDebuggee_calm d _)) fun _ => handless_none

theorem serveAttach_calm (a : Dap.AttachArguments) : (serveAttach a).run.Within calm Handless := by
  refine calm_then (plain_calm.applyLogging (fun _ => by simp [resumes]) _) fun _ => ?_
  refine calm_then (within_act.mpr (plain_calm.scanSources (by simp [resumes]) _)) fun _ => ?_
  refine calm_then ⟨by simp [resumes], quiet_refl _, fun _ => trivial⟩ fun d => ?_
  exact calm_then (within_act.mpr (startDebuggee_calm d _)) fun _ => handless_none

end JvmDebug.Session
