import JvmDebug.Proofs.Session.Calm
import JvmDebug.Proofs.Session.Scene

/-!
# What each job may do about the debuggee

Only a job that starts a debuggee, a request that ends the session and the end of a debuggee itself change whose debuggee
the session has. All other jobs leave that alone, and add no listeners. A request that is not about the debuggee lets
nothing run either.

A job lets a debuggee run only after it has seen it in the session. A request that ends the session takes the debuggee
out of it, and owes it to be disconnected from then on. Only the request that starts a debuggee makes it that of the
session. Here every job is shown to keep to that, whatever others do between its steps.
-/

namespace JvmDebug.Session
set_option autoImplicit false

/-! ## Jobs that leave the debuggee where it is -/

open Attempt (within_seq)
open Jdwp (ThreadId)

variable {calls : Call → Prop} {α β : Type}

/-- A change after which nobody listens who did not, and no other requests wait for the end of the configuration. -/
structure AddsNone (s s' : Session) : Prop where
  listeners : ∀ x ∈ s'.bus.entries, x ∈ s.bus.entries
  arrivals : s'.arrivals = s.arrivals

structure SameDebuggee (s s' : Session) : Prop extends AddsNone s s' where
  debuggee : s'.debuggee = s.debuggee

theorem same_of_eq {s s' : Session} (hDebuggee : s'.debuggee = s.debuggee) (hBus : s'.bus = s.bus)
    (hArrivals : s'.arrivals = s.arrivals) : SameDebuggee s s' :=
  ⟨⟨fun _ h => hBus ▸ h, hArrivals⟩, hDebuggee⟩

theorem same_refl (s : Session) : SameDebuggee s s := same_of_eq rfl rfl rfl

theorem same_keep (r : Log.Record) (s : Session) : SameDebuggee s (keep r s) := by
  unfold keep
  split
  · exact same_refl s
  · split
    · split <;> exact same_of_eq rfl rfl rfl
    · exact same_refl s

attribute [simp] same_refl same_keep

def tidy (calls : Call → Prop) : Bounds Session World := ⟨SameDebuggee, calls, keep⟩

@[simp] theorem tidy_calls : (tidy calls).calls = calls := rfl

theorem change_tidy {f : Session → Session} (h : ∀ s, SameDebuggee s (f s)) :
    (change f : Activity Unit).Within (tidy calls) fun _ => True :=
  fun s => ⟨h s, trivial⟩

theorem alter_tidy {f : Session → Session} (h : ∀ s, SameDebuggee s (f s)) :
    (alter f).run.Within (tidy calls) fun _ => True :=
  fun s => ⟨h s, trivial⟩

theorem alterGet_tidy {f : Session → α × Session} (h : ∀ s, SameDebuggee s (f s).2) :
    (alterGet f).run.Within (tidy calls) fun _ => True :=
  fun s => ⟨h s, trivial⟩

theorem note_tidy (r : Log.Record) : (Routine.note r (.done ()) : Activity Unit).Within (tidy calls) fun _ => True :=
  ⟨same_keep r, trivial⟩

theorem send_tidy (m : Dap.Outgoing) : (send m : Activity Unit).Within (tidy calls) fun _ => True :=
  change_tidy fun _ => same_of_eq rfl rfl rfl

theorem see_tidy (f : Session → α) : (see f).run.Within (tidy calls) fun _ => True := fun s => ⟨same_refl s, trivial⟩

theorem ask_tidy {c : Call} (hCalls : calls c) :
    (Routine.ask (I := World) c : Activity (Answer c)).Within (tidy calls) fun _ => True :=
  ⟨hCalls, same_refl, fun _ => trivial⟩

theorem plain_tidy : Plain (tidy calls) where
  stays := same_refl
  notes := same_keep
  journal _ _ := same_of_eq rfl rfl rfl

/-! ## Requests that are not about the debuggee -/

theorem serveInitialize_tidy (a : Dap.InitializeArguments) : (serveInitialize a).run.Within (tidy calls) fun _ => True :=
  within_seq (w := act _) (within_act.mpr (note_tidy _)) fun _ =>
    within_seq (alter_tidy fun _ => same_of_eq rfl rfl rfl) fun _ => trivial

theorem onPhase_tidy {r : Routine Phase World α} {b : Bounds Phase World} (h : r.Within b fun _ => True)
    (hCalls : ∀ c, ¬b.calls c) : (onPhase r).Within (tidy calls) fun _ => True :=
  h.zoom (fun _ _ _ => same_of_eq rfl rfl rfl) (fun c hc => absurd hc (hCalls c)) same_refl same_keep

def anyPhase : Bounds Phase World := ⟨fun _ _ => True, fun _ => False, fun _ p => p⟩

theorem serveConfigurationDone_tidy : serveConfigurationDone.run.Within (tidy calls) fun _ => True := by
  refine within_seq (within_act.mpr (onPhase_tidy (b := anyPhase) ?_ fun _ => id)) fun _ => trivial
  exact fun _ => ⟨trivial, fun _ => ⟨fun _ => trivial, nofun⟩, fun _ => trivial⟩

theorem serveSetExceptionBreakpoints_tidy (ids : List String) :
    (serveSetExceptionBreakpoints ids).run.Within (tidy calls) fun _ => True := by
  refine within_seq (within_act.mpr (Routine.within_each fun id _ => plain_tidy.noteUnknownFilter id)) fun _ => ?_
  exact within_seq (alter_tidy fun _ => same_of_eq rfl rfl rfl) fun _ => trivial

theorem serveExceptionInfo_tidy (t : ThreadId) : (serveExceptionInfo t).run.Within (tidy calls) fun _ => True := by
  refine within_seq (see_tidy _) fun x => ?_
  split <;> trivial

theorem serveSetBreakpoints_tidy (a : Dap.SetBreakpointsArguments) :
    (serveSetBreakpoints a).run.Within (tidy calls) fun _ => True := by
  refine within_seq trivial fun source => ?_
  refine within_seq (Attempt.within_items fun x _ => plain_tidy.readBreakpoint source x) fun requested => ?_
  refine within_seq (alterGet_tidy fun _ => same_of_eq rfl rfl rfl) fun stored => ?_
  refine within_seq (w := act _) (within_act.mpr (note_tidy _)) fun _ => ?_
  refine within_seq (within_act.mpr (plain_tidy.awaitSync source _)) fun _ => ?_
  exact within_seq (Attempt.within_items fun x _ => plain_tidy.breakpointJson x) fun _ => trivial

end JvmDebug.Session

namespace JvmDebug.Session
set_option autoImplicit false

open Attempt (within_seq)
open Jdwp (ThreadId)

/-- Where a party stands with the debuggee. -/
inductive Standing where
  /-- Lets nothing run that it has not seen in the session from now on. -/
  | clear
  /-- Has seen the debuggee, and may let it run. -/
  | armed
  /-- Has taken the debuggee out of the session, and has to disconnect it. -/
  | owes
  /-- May make a debuggee that of the session. -/
  | starting
  /-- Tells that the debuggee has ended. -/
  | ends
  deriving DecidableEq

/-- Nothing but one debuggee has to do with the session. -/
structure Only (d : DebuggeeId) (s : Session) : Prop where
  debuggee : ∀ d' ∈ s.debuggee, d' = d
  listeners : ∀ x ∈ s.bus.entries, x.2 = d

/-- What a party may do in its standing, and where it stands then. -/
inductive Moves (d : DebuggeeId) (k : Party) : Standing → Option (Asked World) → Session → Session → Standing → Prop where
  | keeps {g : Standing} {asked : Option (Asked World)} {s s' : Session} :
      SameDebuggee s s' → (∀ x ∈ asked, ¬resumes x.1) → Moves d k g asked s s' g
  | sees {s s' : Session} : k = lane ∨ k = launcher → SameDebuggee s s' → s.debuggee = some d →
      Moves d k .clear none s s' .armed
  | drives {asked : Option (Asked World)} {s s' : Session} : SameDebuggee s s' → Moves d k .armed asked s s' .armed
  | takes {s s' : Session} : k = lane ∨ k = launcher → AddsNone s s' → s.debuggee = some d → s'.debuggee = none →
      Moves d k .clear none s s' .owes
  | disconnects {s : Session} {a : Except Error Unit} : Moves d k .owes (some ⟨.drive d .disconnect, a⟩) s s .clear
  | installs {s s' : Session} : Only d s' → s'.arrivals = s.arrivals → s'.debuggee = s.debuggee ∨ s'.debuggee = some d →
      Moves d k .starting none s s' .starting
  | loses {s s' : Session} : AddsNone s s' → s'.debuggee = none → Moves d k .ends none s s' .ends

/-- Whoever is started is this debuggee. -/
def Starts (d : DebuggeeId) : (c : Call) → Answer c → Prop
  | .launch .., .ok d' | .attach .., .ok d' => d' = d
  | _, _ => True

def standings (d : DebuggeeId) (k : Party) : Phases Standing Session World where
  fits _ := Only d
  moves := Moves d k
  answered := Starts d
  keep := keep

variable {d : DebuggeeId} {k : Party} {g : Standing} {α β : Type}

/-- Where a party may stand when it is done with something. -/
def settled (g : Standing) : Prop := g ≠ .owes

theorem asks_none (p : Asked World → Prop) : ∀ x ∈ (none : Option (Asked World)), p x := by
  rintro x ⟨⟩

theorem settled_clear : settled .clear := by simp [settled]
theorem settled_starting : settled .starting := by simp [settled]

/-! ## Jobs that leave the debuggee alone -/

theorem passes_tidy {r : Activity α} (h : r.Within (tidy fun c => ¬resumes c) fun _ => True) :
    r.Passes (standings d k) (fun _ g' => g' = g) g := by
  refine h.passes_in rfl (fun _ _ => trivial) ?_ ?_ rfl
  · rintro g' s s' rfl _ hSame
    exact ⟨g', .keeps hSame (asks_none _), rfl⟩
  · rintro g' s c a rfl _ hCalls _
    exact ⟨g', .keeps (same_refl s) (by rintro x ⟨⟩; exact hCalls), rfl⟩

theorem passes_armed {r : Activity α} (h : r.Within (tidy fun _ => True) fun _ => True) :
    r.Passes (standings d k) (fun _ g' => g' = .armed) .armed := by
  refine h.passes_in rfl (fun _ _ => trivial) ?_ ?_ rfl
  · rintro g' s s' rfl _ hSame
    exact ⟨.armed, .drives hSame, rfl⟩
  · rintro g' s c a rfl _ _ _
    exact ⟨.armed, .drives (same_refl s), rfl⟩

/-- Work goes on where it stands after something that leaves the debuggee alone. -/
theorem passes_after {w : Work α} {next : α → Work β} {post : Except Error β → Standing → Prop}
    (hFirst : w.run.Within (tidy fun c => ¬resumes c) fun _ => True)
    (hNext : ∀ a, (next a).run.Passes (standings d k) post g) (hFails : ∀ e, post (.error e) g) :
    (w >>= next).run.Passes (standings d k) post g := by
  refine Attempt.passes_bind ((passes_tidy hFirst).mono ?_)
  rintro (e | a) _ rfl
  · exact hFails e
  · exact hNext a

theorem passes_act {r : Activity α} {next : α → Work β} {post : Except Error β → Standing → Prop}
    (hFirst : r.Within (tidy fun c => ¬resumes c) fun _ => True)
    (hNext : ∀ a, (next a).run.Passes (standings d k) post g) : (act r >>= next).run.Passes (standings d k) post g := by
  refine Attempt.passes_bind (Attempt.passes_lift ((passes_tidy hFirst).mono ?_))
  rintro a _ rfl
  exact hNext a

theorem settled_of_tidy {r : Activity α} (hSettled : settled g) (h : r.Within (tidy fun c => ¬resumes c) fun _ => True) :
    r.Passes (standings d k) (fun _ g' => settled g') g :=
  (passes_tidy h).mono fun _ g' (hSame : g' = g) => hSame ▸ hSettled

/-! ## Requests that drive the debuggee -/

theorem passes_theDebuggee (hLanes : k = lane ∨ k = launcher) {next : DebuggeeId → Work α}
    (h : ∀ d', (next d').run.Within (tidy fun _ => True) fun _ => True) :
    (theDebuggee >>= next).run.Passes (standings d k) (fun _ g' => settled g') .clear := by
  have hLook : theDebuggee.run.Passes (standings d k)
      (fun found g' => (found.isOk ∧ g' = .armed) ∨ (found.isOk = false ∧ g' = .clear)) .clear := by
    intro s hOnly
    cases hDebuggee : s.debuggee with
    | none => exact ⟨.clear, .keeps (same_refl s) (asks_none _), by simp [hDebuggee]; exact .inr ⟨rfl, rfl⟩⟩
    | some d' =>
      obtain rfl := hOnly.debuggee d' hDebuggee
      exact ⟨.armed, .sees hLanes (same_refl s) hDebuggee, by simp [hDebuggee]; exact .inl ⟨rfl, rfl⟩⟩
  refine Attempt.passes_bind (hLook.mono ?_)
  rintro (e | d') g' (⟨hOk, rfl⟩ | ⟨hOk, rfl⟩)
  · cases hOk
  · simp [Attempt.andThen, settled]
  · exact (passes_armed (h d')).mono fun _ _ hSame => by simp [hSame, settled]
  · cases hOk

theorem serveContinue_passes (hLanes : k = lane ∨ k = launcher) (t : ThreadId) :
    (serveContinue t).run.Passes (standings d k) (fun _ g' => settled g') .clear := by
  refine passes_theDebuggee hLanes fun d' => ?_
  refine within_seq (within_act.mpr ?_) fun _ => ?_
  · refine Routine.within_then (change_tidy fun _ => same_of_eq rfl rfl rfl) fun _ => ?_
    refine Routine.within_then (change_tidy fun _ => same_of_eq rfl rfl rfl) fun _ => ?_
    exact change_tidy fun _ => same_of_eq rfl rfl rfl
  refine within_seq (w := demand _) (ask_tidy trivial) fun outcome => ?_
  cases outcome with
  | resumed => exact within_seq (w := pure false) trivial fun _ => trivial
  | threadUnavailable =>
    refine within_seq (w := act _) (within_act.mpr (note_tidy _)) fun _ => ?_
    refine within_seq (w := act releaseAll) (within_act.mpr ?_) fun _ => ?_
    · refine Routine.within_then (change_tidy fun _ => same_of_eq rfl rfl rfl) fun _ => ?_
      exact change_tidy fun _ => same_of_eq rfl rfl rfl
    · exact within_seq (w := demand _) (ask_tidy trivial) fun _ => within_seq (w := pure true) trivial fun _ => trivial

theorem serveStep_passes (hLanes : k = lane ∨ k = launcher) (t : ThreadId) (kind : StepKind) :
    (serveStep t kind).run.Passes (standings d k) (fun _ g' => settled g') .clear := by
  refine passes_theDebuggee hLanes fun d' => within_seq (within_act.mpr ?_) fun _ => ?_
  · refine Routine.within_then (change_tidy fun _ => same_of_eq rfl rfl rfl) fun _ => ?_
    refine Routine.within_then (change_tidy fun _ => same_of_eq rfl rfl rfl) fun _ => ?_
    exact change_tidy fun _ => same_of_eq rfl rfl rfl
  · exact within_seq (w := demand _) (ask_tidy trivial) fun _ => trivial

theorem servePause_passes (hLanes : k = lane ∨ k = launcher) (t : ThreadId) :
    (servePause t).run.Passes (standings d k) (fun _ g' => settled g') .clear :=
  passes_theDebuggee hLanes fun _ => within_seq (w := demand _) (ask_tidy trivial) fun _ => trivial

theorem show_tidy {γ : Type} {calls : Call → Prop} (add : ClientView → α → γ × ClientView) (a : α) :
    (show_ add a).run.Within (tidy calls) fun _ => True :=
  alterGet_tidy fun _ => same_of_eq rfl rfl rfl

theorem serveStackTrace_passes (hLanes : k = lane ∨ k = launcher) (a : Dap.StackTraceArguments) :
    (serveStackTrace a).run.Passes (standings d k) (fun _ g' => settled g') .clear := by
  refine passes_theDebuggee hLanes fun d' => within_seq (w := demand _) (ask_tidy trivial) fun frames => ?_
  exact within_seq (Attempt.within_items fun x _ => show_tidy _ x) fun _ => trivial

theorem theFrame_tidy {calls : Call → Prop} (handle : Int) : (theFrame handle).run.Within (tidy calls) fun _ => True :=
  within_seq (see_tidy _) fun _ => trivial

theorem serveScopes_passes (hLanes : k = lane ∨ k = launcher) (handle : Int) :
    (serveScopes handle).run.Passes (standings d k) (fun _ g' => settled g') .clear := by
  refine passes_after (theFrame_tidy handle) (fun frame => ?_) fun _ => settled_clear
  refine passes_theDebuggee hLanes fun d' => within_seq (w := demand _) (ask_tidy trivial) fun scopes => ?_
  exact within_seq (Attempt.within_items fun x _ => show_tidy _ x) fun _ => trivial

theorem serveVariables_passes (hLanes : k = lane ∨ k = launcher) (handle : Int) :
    (serveVariables handle).run.Passes (standings d k) (fun _ g' => settled g') .clear := by
  refine passes_after (see_tidy _) (fun found => ?_) fun _ => settled_clear
  refine passes_after (w := require found) trivial (fun reference => ?_) fun _ => settled_clear
  refine passes_theDebuggee hLanes fun d' => within_seq (w := demand _) (ask_tidy trivial) fun children => ?_
  exact within_seq (Attempt.within_items fun x _ => show_tidy _ x) fun _ => trivial

theorem serveEvaluate_passes (hLanes : k = lane ∨ k = launcher) (a : Dap.EvaluateArguments) :
    (serveEvaluate a).run.Passes (standings d k) (fun _ g' => settled g') .clear := by
  unfold serveEvaluate
  cases a.frame with
  | none => exact settled_clear
  | some handle =>
    refine passes_after (theFrame_tidy handle) (fun frame => ?_) fun _ => settled_clear
    refine passes_theDebuggee hLanes fun d' => within_seq (w := demand _) (ask_tidy trivial) fun found => ?_
    cases found with
    | none => trivial
    | some x => exact within_seq (show_tidy _ _) fun _ => trivial

theorem serveCompletions_passes (hLanes : k = lane ∨ k = launcher) (a : Dap.CompletionsArguments) :
    (serveCompletions a).run.Passes (standings d k) (fun _ g' => settled g') .clear := by
  unfold serveCompletions
  cases a.frame with
  | none => exact settled_clear
  | some handle =>
    refine passes_after (theFrame_tidy handle) (fun frame => ?_) fun _ => settled_clear
    refine passes_after (see_tidy _) (fun numbering => ?_) fun _ => settled_clear
    exact passes_theDebuggee hLanes fun d' => within_seq (w := demand _) (ask_tidy trivial) fun _ => trivial

theorem serveThreads_tidy : serveThreads.run.Within (tidy fun c => ¬resumes c) fun _ => True := by
  refine within_seq (see_tidy _) fun found => ?_
  cases found with
  | none => exact within_seq (w := pure []) trivial fun _ => trivial
  | some d' => exact within_seq (w := demand _) (ask_tidy (by simp [resumes])) fun _ => trivial

/-! ## The request that ends the session -/

/-- The debuggee is disconnected, whatever comes of it. -/
theorem passes_disconnect {next : Except Error Unit → Work α} (h : ∀ a, (next a).run.Within (tidy fun c => ¬resumes c) fun _ => True) :
    (act (drive d .disconnect) >>= next).run.Passes (standings d k) (fun _ g' => g' = .clear) .owes := by
  refine Attempt.passes_bind (Attempt.passes_lift ?_)
  intro s _ a _
  exact ⟨.clear, .disconnects, passes_tidy (h a)⟩

theorem mem_of_ended {ended : List Nat} {b : Bus DebuggeeId} {x : Nat × DebuggeeId}
    (h : x ∈ (ended.foldl Bus.unsubscribe b).entries) : x ∈ b.entries := by
  induction ended generalizing b with
  | nil => exact h
  | cons n rest ih => exact (List.mem_filter.mp (ih h)).1

theorem mem_of_replaced {subscriptions : List Nat} {s : Session} {x : Nat × DebuggeeId}
    (h : x ∈ (replaceSubscriptions subscriptions s).bus.entries) : x ∈ s.bus.entries :=
  mem_of_ended h

theorem serveDisconnect_passes (hLanes : k = lane ∨ k = launcher) :
    serveDisconnect.run.Passes (standings d k) (fun _ g' => g' = .clear) .clear := by
  have hReleaseAll : (releaseAll : Activity Unit).Within (tidy fun c => ¬resumes c) fun _ => True := by
    refine Routine.within_then (change_tidy fun _ => same_of_eq rfl rfl rfl) fun _ => ?_
    exact change_tidy fun _ => same_of_eq rfl rfl rfl
  refine passes_after (alter_tidy fun _ => same_of_eq rfl rfl rfl) (fun _ => ?_) fun _ => rfl
  refine passes_after (alter_tidy fun s => ⟨⟨fun _ => mem_of_replaced, rfl⟩, rfl⟩) (fun _ => ?_) fun _ => rfl
  · refine Attempt.passes_bind ?_
    intro s hOnly
    cases hDebuggee : s.debuggee with
    | none =>
      refine ⟨.clear, .keeps (same_of_eq (by simp [takeDebuggee, hDebuggee]) rfl rfl) (asks_none _), ?_⟩
      simp only [takeDebuggee, hDebuggee]
      exact passes_after (w := act releaseAll) (within_act.mpr hReleaseAll) (fun _ => rfl) fun _ => rfl
    | some d' =>
      obtain rfl := hOnly.debuggee d' hDebuggee
      refine ⟨.owes, .takes hLanes ⟨fun _ h => h, rfl⟩ hDebuggee rfl, ?_⟩
      simp only [takeDebuggee, hDebuggee]
      refine passes_act hReleaseAll fun _ => passes_disconnect ?_
      rintro (e | a)
      · dsimp only
        split
        · trivial
        · exact within_seq (w := act _) (within_act.mpr (note_tidy _)) fun _ => trivial
      · trivial

/-! ## Requests that start a debuggee -/

theorem startDebuggee_passes (announceThreads : Bool) :
    (startDebuggee d announceThreads).Passes (standings d k) (fun _ g' => settled g') .starting := by
  have hInstall : (install d : Activity Unit).Passes (standings d k) (fun _ g' => g' = .starting) .starting := by
    intro s hOnly
    refine ⟨.starting, .installs ⟨hOnly.debuggee, ?_⟩ rfl (.inl rfl), ?_⟩
    · intro x hx
      rcases List.mem_append.mp hx with hx | hx
      · exact hOnly.listeners x hx
      · rw [List.mem_singleton.mp hx]
    intro s hOnly
    refine ⟨.starting, .installs ⟨hOnly.debuggee, fun x hx => hOnly.listeners x (mem_of_replaced hx)⟩ rfl (.inl rfl), ?_⟩
    intro s hOnly
    exact ⟨.starting, .installs ⟨by rintro _ ⟨⟩; rfl, hOnly.listeners⟩ rfl (.inr rfl), rfl⟩
  refine Routine.Passes.bind (hInstall.mono ?_)
  rintro _ _ rfl
  exact settled_of_tidy settled_starting (change_tidy fun _ => same_of_eq rfl rfl rfl)

theorem serveLaunch_passes (a : Dap.LaunchArguments) :
    (serveLaunch a).run.Passes (standings d k) (fun _ g' => settled g') .starting := by
  refine passes_after (plain_tidy.applyLogging (fun _ => by simp [resumes]) _) (fun _ => ?_) fun _ => settled_starting
  refine passes_after (w := demand _) (ask_tidy (by simp [resumes])) (fun _ => ?_) fun _ => settled_starting
  refine passes_after (w := demand _) (ask_tidy (by simp [resumes])) (fun _ => ?_) fun _ => settled_starting
  refine passes_act (plain_tidy.scanSources (by simp [resumes]) _) fun index => ?_
  refine Attempt.passes_bind ?_
  intro s _ launched hLaunched
  refine ⟨.starting, .keeps (same_refl s) (by rintro x ⟨⟩; simp [resumes]), ?_⟩
  cases launched with
  | error e => exact settled_starting
  | ok d' =>
    obtain rfl : d' = d := hLaunched
    exact Attempt.passes_bind (Attempt.passes_lift ((startDebuggee_passes false).mono fun _ _ h => h))

theorem serveAttach_passes (a : Dap.AttachArguments) :
    (serveAttach a).run.Passes (standings d k) (fun _ g' => settled g') .starting := by
  refine passes_after (plain_tidy.applyLogging (fun _ => by simp [resumes]) _) (fun _ => ?_) fun _ => settled_starting
  refine passes_act (plain_tidy.scanSources (by simp [resumes]) _) fun index => ?_
  refine Attempt.passes_bind ?_
  intro s _ attached hAttached
  refine ⟨.starting, .keeps (same_refl s) (by rintro x ⟨⟩; simp [resumes]), ?_⟩
  cases attached with
  | error e => exact settled_starting
  | ok d' =>
    obtain rfl : d' = d := hAttached
    exact Attempt.passes_bind (Attempt.passes_lift ((startDebuggee_passes true).mono fun _ _ h => h))

/-! ## All requests -/

def isStart (q : Dap.Request) : Bool := q.command = "launch" || q.command = "attach"

/-- Where a party stands when it begins to serve a request. -/
def Standing.ofRequest (q : Dap.Request) : Standing := if isStart q then .starting else .clear

theorem settled_ofRequest (q : Dap.Request) : settled (.ofRequest q) := by
  unfold Standing.ofRequest
  split
  · exact settled_starting
  · exact settled_clear

theorem passes_withArguments {q : Dap.Request} {read : Json.Reading α} {serve : α → Work (Option Json)} (hSettled : settled g)
    (h : ∀ a, (serve a).run.Passes (standings d k) (fun _ g' => settled g') g) :
    (withArguments q read serve).run.Passes (standings d k) (fun _ g' => settled g') g :=
  passes_after (w := require _) trivial h fun _ => hSettled

theorem serveNamed_passes (hLanes : k = lane ∨ k = launcher) (q : Dap.Request) :
    (serveNamed q).run.Passes (standings d k) (fun _ g' => settled g') (.ofRequest q) := by
  have hTidy : ∀ {w : Work (Option Json)}, w.run.Within (tidy fun c => ¬resumes c) (fun _ => True) →
      w.run.Passes (standings d k) (fun _ g' => settled g') (.ofRequest q) :=
    fun h => settled_of_tidy (settled_ofRequest q) h
  have hClear : ∀ {w : Work (Option Json)}, isStart q = false →
      w.run.Passes (standings d k) (fun _ g' => settled g') .clear →
      w.run.Passes (standings d k) (fun _ g' => settled g') (.ofRequest q) :=
    fun hNot h => by rwa [Standing.ofRequest, hNot]
  unfold serveNamed
  split
  case h_1 => exact passes_withArguments (settled_ofRequest q) fun a => hTidy (serveInitialize_tidy a)
  case h_2 => exact hTidy serveConfigurationDone_tidy
  case h_3 hCommand =>
    rw [show Standing.ofRequest q = .starting by simp [Standing.ofRequest, isStart, hCommand]]
    exact passes_withArguments settled_starting serveLaunch_passes
  case h_4 hCommand =>
    rw [show Standing.ofRequest q = .starting by simp [Standing.ofRequest, isStart, hCommand]]
    exact passes_withArguments settled_starting serveAttach_passes
  case h_5 => exact passes_withArguments (settled_ofRequest q) fun a => hTidy (serveSetBreakpoints_tidy a)
  case h_6 => exact passes_withArguments (settled_ofRequest q) fun a => hTidy (serveSetExceptionBreakpoints_tidy a)
  case h_7 => exact hTidy serveThreads_tidy
  case h_18 => exact passes_withArguments (settled_ofRequest q) fun n => hTidy (serveExceptionInfo_tidy _)
  case h_20 => exact settled_ofRequest q
  case h_8 hCommand =>
    exact hClear (by simp [isStart, hCommand]) (passes_withArguments settled_clear fun _ => serveContinue_passes hLanes _)
  case h_9 hCommand =>
    exact hClear (by simp [isStart, hCommand]) (passes_withArguments settled_clear fun _ => serveStep_passes hLanes _ _)
  case h_10 hCommand =>
    exact hClear (by simp [isStart, hCommand]) (passes_withArguments settled_clear fun _ => serveStep_passes hLanes _ _)
  case h_11 hCommand =>
    exact hClear (by simp [isStart, hCommand]) (passes_withArguments settled_clear fun _ => serveStep_passes hLanes _ _)
  case h_12 hCommand =>
    exact hClear (by simp [isStart, hCommand]) (passes_withArguments settled_clear fun _ => servePause_passes hLanes _)
  case h_13 hCommand =>
    exact hClear (by simp [isStart, hCommand]) (passes_withArguments settled_clear fun _ => serveStackTrace_passes hLanes _)
  case h_14 hCommand =>
    exact hClear (by simp [isStart, hCommand]) (passes_withArguments settled_clear fun _ => serveScopes_passes hLanes _)
  case h_15 hCommand =>
    exact hClear (by simp [isStart, hCommand]) (passes_withArguments settled_clear fun _ => serveVariables_passes hLanes _)
  case h_16 hCommand =>
    exact hClear (by simp [isStart, hCommand]) (passes_withArguments settled_clear fun _ => serveEvaluate_passes hLanes _)
  case h_17 hCommand =>
    exact hClear (by simp [isStart, hCommand]) (passes_withArguments settled_clear fun _ => serveCompletions_passes hLanes _)
  case h_19 hCommand =>
    exact hClear (by simp [isStart, hCommand]) ((serveDisconnect_passes hLanes).mono fun _ g' (hSame : g' = .clear) =>
      hSame ▸ settled_clear)

theorem respond_tidy (q : Dap.Request) (result : Except Error (Option Json)) {calls : Call → Prop} :
    (respond q result).Within (tidy calls) fun _ => True := by
  rcases result with e | x
  · exact Routine.within_then (note_tidy _) fun _ => send_tidy _
  · exact send_tidy _

theorem follow_tidy (q : Dap.Request) {calls : Call → Prop} : (follow q).Within (tidy calls) fun _ => True := by
  unfold follow
  split
  · refine Routine.within_then (fun s => ⟨same_of_eq rfl rfl rfl, trivial⟩) fun already => ?_
    cases already with
    | true => trivial
    | false => exact send_tidy _
  · split
    · exact send_tidy _
    · trivial
  · trivial

theorem passes_served {q : Dap.Request} (h : (serveNamed q).run.Passes (standings d k) (fun _ g' => settled g') g) :
    (serve q).Passes (standings d k) (fun _ g' => settled g') g := by
  have hAnswer : (answer q).run.Passes (standings d k) (fun _ g' => settled g') g := passes_act (note_tidy _) fun _ => h
  refine Routine.Passes.bind (hAnswer.mono fun result g' hSettled => ?_)
  refine Routine.Passes.bind ((passes_tidy (respond_tidy q result)).mono fun _ g'' (hSame : g'' = g') => ?_)
  rw [hSame]
  rcases result with e | x
  · exact hSettled
  · exact settled_of_tidy hSettled (follow_tidy q)

theorem serve_passes (hLanes : k = lane ∨ k = launcher) (q : Dap.Request) :
    (serve q).Passes (standings d k) (fun _ g' => settled g') (.ofRequest q) :=
  passes_served (serveNamed_passes hLanes q)

/-- The request that ends the configuration may be served beside the lanes. -/
theorem serveArrival_passes {q : Dap.Request} (hCommand : q.command = "configurationDone") :
    (serve q).Passes (standings d k) (fun _ g' => settled g') .clear := by
  refine passes_served ?_
  unfold serveNamed
  rw [hCommand]
  exact settled_of_tidy settled_clear serveConfigurationDone_tidy

/-! ## Other jobs -/

theorem announce_tidy (d' : DebuggeeId) : (announce d').Within (tidy fun c => ¬resumes c) fun _ => True := by
  refine Routine.within_then (ask_tidy (by simp [resumes])) fun listed => ?_
  cases listed with
  | error e => exact note_tidy _
  | ok threads => exact Routine.within_each fun t _ => send_tidy _

/-- The debuggee is let run only if the session still has it. -/
theorem resumeDebuggee_passes (hLanes : k = lane ∨ k = launcher) :
    resumeDebuggee.Passes (standings d k) (fun _ g' => settled g') .clear := by
  intro s hOnly
  cases hDebuggee : s.debuggee with
  | none =>
    refine ⟨.clear, .keeps (same_refl s) (asks_none _), ?_⟩
    simp only [hDebuggee]
    exact settled_clear
  | some d' =>
    obtain rfl := hOnly.debuggee d' hDebuggee
    refine ⟨.armed, .sees hLanes (same_refl s) hDebuggee, ?_⟩
    simp only [hDebuggee]
    refine Routine.Passes.mono (fun _ g' (hSame : g' = .armed) => by simp [hSame, settled])
      (passes_armed (Routine.within_then (r := info _) (note_tidy _) fun _ => ?_))
    refine Routine.within_then (ask_tidy trivial) fun outcome => ?_
    cases outcome with
    | error e => exact note_tidy _
    | ok _ => trivial

theorem runDebuggee_passes (hLanes : k = lane ∨ k = launcher) (d' : DebuggeeId) (announceThreads : Bool) :
    (runDebuggee d' announceThreads).Passes (standings d k) (fun _ g' => settled g') .clear := by
  have hThen : ∀ {r : Activity Unit} {next : Unit → Activity Unit}, r.Within (tidy fun c => ¬resumes c) (fun _ => True) →
      (next ()).Passes (standings d k) (fun _ g' => settled g') .clear →
      (r >>= next).Passes (standings d k) (fun _ g' => settled g') .clear := by
    intro r next hFirst hNext
    exact Routine.Passes.bind ((passes_tidy hFirst).mono fun _ g' (hSame : g' = .clear) => hSame ▸ hNext)
  have hForward : (do change (forwardStreams d'); resumeDebuggee : Activity Unit).Passes (standings d k)
      (fun _ g' => settled g') .clear := hThen (change_tidy fun _ => same_of_eq rfl rfl rfl) (resumeDebuggee_passes hLanes)
  refine hThen (onPhase_tidy (b := anyPhase) ?_ fun _ => id) ?_
  · exact ⟨fun _ => ⟨fun _ => trivial, nofun⟩, fun _ _ => ⟨trivial, trivial⟩⟩
  · cases announceThreads with
    | true => exact hThen (announce_tidy d') hForward
    | false => exact hForward

theorem takeOutput_tidy {n : Nat} {s s' : Session} {r : Activity Unit} (hTake : takeOutput n s = some (r, s')) :
    (r.Within (tidy fun c => ¬resumes c) fun _ => True) ∧ SameDebuggee s s' := by
  unfold takeOutput at hTake
  split at hTake
  · cases hTake
  split at hTake
  · cases hTake
  split at hTake
  · cases hTake
  · cases hTake
    exact ⟨send_tidy _, same_of_eq rfl rfl rfl⟩
  · cases hTake
    exact ⟨note_tidy _, same_of_eq rfl rfl rfl⟩
  · cases hTake
    exact ⟨Routine.within_then (r := warn _) (note_tidy _) fun _ => note_tidy _, same_of_eq rfl rfl rfl⟩

/-! ## Events -/

def isEnd : DebugEvent → Bool
  | .exited _ => true
  | _ => false

theorem onEvent_tidy {e : DebugEvent} (hNot : isEnd e = false) {calls : Call → Prop} :
    (onEvent e : Activity Unit).Within (tidy calls) fun _ => True := by
  cases e with
  | breakpointHit t => exact send_tidy _
  | step t => exact send_tidy _
  | exceptionThrown t x => exact Routine.within_then (change_tidy fun _ => same_of_eq rfl rfl rfl) fun _ => send_tidy _
  | threadChanged t c =>
    cases c with
    | started => exact send_tidy _
    | exited =>
      refine Routine.within_then ?_ fun _ => send_tidy _
      refine Routine.within_then (change_tidy fun _ => same_of_eq rfl rfl rfl) fun _ => ?_
      refine Routine.within_then (change_tidy fun _ => same_of_eq rfl rfl rfl) fun _ => ?_
      exact change_tidy fun _ => same_of_eq rfl rfl rfl
  | breakpointResolved id line =>
    refine Routine.within_then (fun s => ⟨same_refl s, trivial⟩) fun current => ?_
    split
    · exact Routine.within_then (fun s => ⟨same_refl s, trivial⟩) fun _ => send_tidy _
    · trivial
  | exited code => cases hNot

theorem onExit_passes (code : Option Int32) :
    (onExit code : Activity Unit).Passes (standings d k) (fun _ g' => g' = .ends) .ends := by
  have hThen : ∀ {r : Activity Unit} {next : Unit → Activity Unit}, r.Within (tidy fun c => ¬resumes c) (fun _ => True) →
      (next ()).Passes (standings d k) (fun _ g' => g' = .ends) .ends →
      (r >>= next).Passes (standings d k) (fun _ g' => g' = .ends) .ends := by
    intro r next hFirst hNext
    exact Routine.Passes.bind ((passes_tidy hFirst).mono fun _ g' (hSame : g' = .ends) => hSame ▸ hNext)
  refine hThen (note_tidy _) ?_
  intro s _
  refine ⟨.ends, .loses ⟨fun _ h => h, rfl⟩ rfl, ?_⟩
  change Routine.Passes _ _ (change (fun s => { s with book := s.book.clearVerified }) >>= fun _ => _) _
  refine hThen (change_tidy fun _ => same_of_eq rfl rfl rfl) (hThen ?_ ?_)
  · refine Routine.within_then (change_tidy fun _ => same_of_eq rfl rfl rfl) fun _ => ?_
    exact change_tidy fun _ => same_of_eq rfl rfl rfl
  · refine hThen (change_tidy fun _ => same_of_eq rfl rfl rfl) (hThen (send_tidy _) ?_)
    exact passes_tidy (send_tidy _)

def Standing.ofEvent (d d' : DebuggeeId) (e : DebugEvent) : Standing := if d' = d ∧ isEnd e then .ends else .clear

theorem settled_ofEvent (d d' : DebuggeeId) (e : DebugEvent) : settled (.ofEvent d d' e) := by
  unfold Standing.ofEvent
  split <;> simp [settled]

/-- An event is heard by those alone who listen to its debuggee. -/
theorem hear_passes (d' : DebuggeeId) (e : DebugEvent) :
    (hear d' e : Activity Unit).Passes (standings d k) (fun _ g' => settled g') (.ofEvent d d' e) := by
  intro s hOnly
  refine ⟨.ofEvent d d' e, .keeps (same_refl s) (asks_none _), ?_⟩
  change Routine.Passes _ _ (Routine.each (s.bus.listeners.filter (· = d')) fun _ => onEvent e) _
  by_cases hOther : d' = d
  · subst hOther
    cases hEnd : isEnd e with
    | false => exact settled_of_tidy (settled_ofEvent _ _ _) (Routine.within_each fun _ _ => onEvent_tidy hEnd)
    | true =>
      obtain ⟨code, rfl⟩ : ∃ code, e = .exited code := by
        cases e with
        | exited code => exact ⟨code, rfl⟩
        | _ => cases hEnd
      rw [show Standing.ofEvent d' d' (.exited code) = .ends by simp [Standing.ofEvent, isEnd]]
      refine Routine.Passes.mono (fun _ g' (hSame : g' = .ends) => by simp [hSame, settled]) ?_
      generalize s.bus.listeners.filter (· = d') = listeners
      induction listeners with
      | nil => rfl
      | cons _ rest ih =>
        refine Routine.Passes.bind ((onExit_passes code).mono ?_)
        rintro _ _ rfl
        exact ih
  · have hNobody : s.bus.listeners.filter (· = d') = [] := by
      rw [List.filter_eq_nil_iff]
      intro x hx hSame
      obtain ⟨entry, hEntry, rfl⟩ := List.mem_map.mp hx
      exact hOther ((of_decide_eq_true hSame).symm.trans (hOnly.listeners entry hEntry))
    rw [hNobody]
    exact settled_ofEvent _ _ _

end JvmDebug.Session
