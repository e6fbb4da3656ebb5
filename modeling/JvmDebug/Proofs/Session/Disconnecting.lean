import JvmDebug.Proofs.Session.Custody
import JvmDebug.Proofs.Session.Resuming

/-!
# The end of a session

A session is disconnected for good if, when the client is answered, the session has no debuggee and what is left of the
job on the launcher lane is harmless: it makes no debuggee that of the session, and lets none run that it has not seen in
the session from then on. A debuggee that is still being started by then, or that the job has seen and is about to let
run, outlives the session.
-/

namespace JvmDebug.Session
set_option autoImplicit false

variable {told : (c : Call) → Answer c → Prop} {journal : Option Log.Journal} {d : DebuggeeId} {k : Party}
  {past since : List Occurrence} {s s' : Session} {φ : Party → Standing} {e : Occurrence}

/-- What is left of a job makes no debuggee that of the session, and lets none run that it has not seen in the session
before. -/
def Harmless (d : DebuggeeId) (r : Activity Unit) : Prop :=
  r.Passes (standings d launcher) (fun _ g => settled g) .clear

/-- The job that lets a debuggee run is harmless until it looks for the debuggee. -/
theorem harmless_run (d d' : DebuggeeId) (announceThreads : Bool) : Harmless d (runDebuggee d' announceThreads) :=
  runDebuggee_passes (.inr rfl) d' announceThreads

def StartsNone (e : Occurrence) : Prop := ∀ k q, e.turn = .takesUp k (.job (.request q)) → isStart q = false

def ResumesNone (e : Occurrence) : Prop := ∀ k task x, e.turn = .goesOn k task (some x) → ¬resumes x.1

theorem resumesNone_of_turn (h : ∀ k task asked, e.turn ≠ .goesOn k task asked) : ResumesNone e :=
  fun k task x hTurn => absurd hTurn (h k task (some x))

/-! ## A session without a debuggee -/

structure Shut (d : DebuggeeId) (φ : Party → Standing) (since : List Occurrence) (s : Session) : Prop where
  empty : s.debuggee = none
  only : Only d s
  arrivals : ∀ x ∈ s.arrivals, x.2.command = "configurationDone"
  standing : ∀ k, φ k = .clear ∨ φ k = .ends
  unresumed : ∀ e ∈ since, ResumesNone e

theorem shut_snoc (h : ∀ e ∈ since, ResumesNone e) (hNow : ResumesNone e) : ∀ x ∈ since ++ [e], ResumesNone x := by
  intro x hx
  rcases List.mem_append.mp hx with hx | hx
  · exact h x hx
  · exact List.mem_singleton.mp hx ▸ hNow

/-- A step of someone who has seen no debuggee in a session that has none. -/
theorem Moves.shut {g g' : Standing} {asked : Option (Asked World)} (h : Moves d k g asked s s' g')
    (hEmpty : s.debuggee = none) (hHere : g = .clear ∨ g = .ends) :
    s'.debuggee = none ∧ g' = g ∧ ∀ x ∈ asked, ¬resumes x.1 := by
  cases h with
  | keeps hSame hCalls => exact ⟨hSame.debuggee.trans hEmpty, rfl, hCalls⟩
  | sees _ _ hSeen => simp [hEmpty] at hSeen
  | drives _ => simp at hHere
  | takes _ _ hHad _ => simp [hEmpty] at hHad
  | disconnects => simp at hHere
  | installs _ _ _ => simp at hHere
  | loses _ hNone => exact ⟨hNone, rfl, asks_none _⟩

theorem standing_of_startsNone {task : Task} {s s' : Session} (h : StartsNone ⟨.takesUp k task, s, s'⟩) :
    Standing.ofTask d task = .clear ∨ Standing.ofTask d task = .ends := by
  cases task with
  | publish d' e =>
    simp only [Standing.ofTask, Standing.ofEvent]
    split <;> simp
  | job j =>
    cases j with
    | request q =>
      have hNot : isStart q = false := h k q rfl
      simp [Standing.ofTask, Standing.ofRequest, hNot]
    | _ => exact .inl rfl

theorem shut_keeps (hTold : ∀ c a, told c a → Starts d c a) :
    (custodians told d).Keeps (fun _ => StartsNone) (Shut d) where
  keep _ := rfl
  answered _ _ c a _ h := hTold c a h
  fits _ h := h.only
  takes {φ past s k task r s'} h _ hTakes hNone := by
    have hTakesUp := takesUp_of_engages (d := d) h.arrivals hTakes
    refine ⟨_, hTakesUp.passes, ?_⟩
    constructor
    case empty => exact hTakesUp.debuggee.trans h.empty
    case only =>
      exact ⟨hTakesUp.debuggee ▸ h.only.debuggee, fun x hx => h.only.listeners x (hTakesUp.listeners x hx)⟩
    case arrivals => exact fun x hx => h.arrivals x (hTakesUp.arrivals x hx)
    case standing =>
      refine (Function.forall_update_iff φ fun _ g => g = .clear ∨ g = .ends).mpr ⟨?_, fun j _ => h.standing j⟩
      exact standing_of_startsNone hNone
    case unresumed => exact shut_snoc h.unresumed (resumesNone_of_turn (by simp))
  goes {φ past s k task asked s' g} h hMoves _ := by
    obtain ⟨hEmpty, hSame, hCalls⟩ := hMoves.shut h.empty (h.standing k)
    constructor
    case empty => exact hEmpty
    case only => exact hMoves.only h.only
    case arrivals => exact hMoves.arrivals ▸ h.arrivals
    case standing =>
      refine (Function.forall_update_iff φ fun _ g => g = .clear ∨ g = .ends).mpr ⟨?_, fun j _ => h.standing j⟩
      exact hSame ▸ h.standing k
    case unresumed =>
      refine shut_snoc h.unresumed ?_
      rintro _ _ x ⟨⟩
      exact hCalls x rfl
  done {φ past s k task a} h hPost :=
    ⟨hPost, h.empty, h.only, h.arrivals, h.standing, shut_snoc h.unresumed (resumesNone_of_turn (by simp))⟩
  outside {φ past s m s' m'} h hOutside := by
    obtain ⟨hDebuggee, hBus, hArrivals⟩ := Outside.custody hOutside
    exact ⟨hDebuggee.trans h.empty, ⟨hDebuggee ▸ h.only.debuggee, hBus ▸ h.only.listeners⟩, hArrivals h.arrivals,
      h.standing, shut_snoc h.unresumed (resumesNone_of_turn (by simp))⟩

/-! ## Disconnected for good -/

/-- What has become of a session since a client that disconnects was answered. -/
structure Closed (d : DebuggeeId) (past since : List Occurrence) (now : Stage) : Prop where
  empty : now.state.debuggee = none
  unresumed : ∀ e ∈ since, ResumesNone e
  /-- When both lanes are idle, whatever debuggee the session ever had was disconnected, or has ended. -/
  ended : now.busy lane = none → now.busy launcher = none → Installed d (past ++ since) →
    Disconnected d (past ++ since) ∨ Published d (past ++ since)

/-- Disconnecting is final if the session has no debuggee when the client is answered, and what is left of the job on the
launcher lane is harmless. -/
theorem closed_of_harmless (hTold : ∀ c a, told c a → Starts d c a) {answered now : Stage} {q : Dap.Request}
    (hPast : (company told).Leads (opening journal) past answered)
    (hAnswered : answered.busy lane = some (.job (.request q), .done ())) (hEmpty : answered.state.debuggee = none)
    (hHarmless : ∀ task r, answered.busy launcher = some (task, r) → Harmless d r)
    (hSince : (company told).Leads answered since now) (hNone : ∀ e ∈ since, StartsNone e) : Closed d past since now := by
  obtain ⟨φ, hPlays, hCustody⟩ := custody_of_leads hTold hPast
  -- Both lanes are clear: one is done, and what the other is at is harmless.
  have hClear : ∀ k, (custodians told d).Plays (fun k => if k = lane ∨ k = launcher then .clear else φ k) answered k := by
    intro k
    by_cases hLane : k = lane
    · subst hLane
      simp only [Concert.Plays, hAnswered, true_or, if_true]
      exact settled_clear
    by_cases hLauncher : k = launcher
    · subst hLauncher
      simp only [Concert.Plays, or_true, if_true]
      split
      · exact settled_clear
      · next task r hBusy => exact hHarmless task r hBusy
    · have hHere := hPlays k
      simp only [Concert.Plays, hLane, hLauncher, or_self, if_false] at hHere ⊢
      exact hHere
  have hShut : Shut d (fun k => if k = lane ∨ k = launcher then .clear else φ k) [] answered.state := by
    refine ⟨hEmpty, hCustody.only, hCustody.arrivals, fun k => ?_, by simp⟩
    by_cases hLanes : k = lane ∨ k = launcher
    · simp [hLanes]
    · simpa [hLanes] using hCustody.lanes k hLanes
  obtain ⟨_, -, hShutNow⟩ := (hSince.by_all hNone).plays_on (shut_keeps hTold) (fun _ _ h => h) hClear hShut
  refine ⟨hShutNow.empty, hShutNow.unresumed, ?_⟩
  intro hLane hLauncher hInstalled
  obtain ⟨φ', hPlaysNow, hCustodyNow⟩ := custody_of_leads hTold (hPast.trans hSince)
  have hHome : ∀ k, now.busy k = none → φ' k ≠ .owes := by
    intro k hFree
    have hHere := hPlaysNow k
    rw [Concert.Plays, hFree] at hHere
    exact hHere
  rcases hCustodyNow.kept hInstalled with hHere | ⟨k, hk⟩ | hGone | hEnded
  · simp [hShutNow.empty] at hHere
  · by_cases hLanes : isLane k
    · rcases hLanes with rfl | rfl
      · exact absurd hk (hHome _ hLane)
      · exact absurd hk (hHome _ hLauncher)
    · rcases hCustodyNow.lanes k hLanes with h | h <;> simp [h] at hk
  · exact .inl hGone
  · exact .inr hEnded

/-! ## Runs -/

section Runs

/-- A debuggee that can be attached to, and is disconnected when it is asked to. -/
def attachable : (c : Call) → Option (Answer c)
  | .files => some (.folder [])
  | .attach .. => some (.ok 7)
  | .drive _ .threads => some (.ok [])
  | .drive _ .resumeAll | .drive _ .disconnect => some (.ok ())
  | _ => none

theorem starts_attachable (c : Call) (a : Answer c) (h : attachable c = some a) : Starts 7 c a := by
  unfold attachable at h
  split at h <;> cases h <;> trivial

def attaching : Script (company fun c a => attachable c = some a) (Option (DebuggeeId × DebugEvent)) Dap.Request :=
  companyScript attachable fun _ _ => id

def disconnectRequest : Dap.Request := ⟨2, "disconnect", none⟩

abbrev PartyCue := Cue Party (Option (DebuggeeId × DebugEvent)) Dap.Request

def steps (w : Worker) (n : Nat) : List PartyCue := List.replicate n (.goesOn (.worker w))

/-- A worker takes something up, and so many steps of it follow. -/
def engages (w : Worker) (n : Nat) : List PartyCue := .takesUp (.worker w) none :: steps w n

/-- The debuggee waits for the client when the client disconnects. -/
def attachedThenDisconnected : List PartyCue :=
  [.outside attachRequest] ++ engages .launcherLane 11 ++ [.isDone launcher] ++ engages .launcherLane 1 ++
    [.outside disconnectRequest] ++ engages .defaultLane 9

def runsOut : List PartyCue := [.isDone lane] ++ steps .launcherLane 5 ++ [.isDone launcher]

def startsNone? (e : Occurrence) : Bool :=
  match e.turn with
  | .takesUp _ (.job (.request q)) => !isStart q
  | _ => true

theorem startsNone_of_all {since : List Occurrence} (h : since.all startsNone? = true) : ∀ e ∈ since, StartsNone e := by
  intro e he k q hTurn
  have hHere := List.all_eq_true.mp h e he
  simpa [startsNone?, hTurn] using hHere

theorem installed_of_any {past : List Occurrence} (h : past.any (fun e => e.after.debuggee = some d) = true) : Installed d past := by
  obtain ⟨e, he, hHere⟩ := List.any_eq_true.mp h
  exact ⟨e, he, of_decide_eq_true hHere⟩

theorem closed_of_harmless_waiting : ∃ past answered since now,
    (company fun c a => attachable c = some a).Leads (opening none) past answered ∧
      answered.busy lane = some (.job (.request disconnectRequest), .done ()) ∧
      answered.busy launcher = some (.job (.run 7 true), runDebuggee 7 true) ∧
      (company fun c a => attachable c = some a).Leads answered since now ∧
      now.busy lane = none ∧ now.busy launcher = none ∧ Installed 7 (past ++ since) ∧ Closed 7 past since now := by
  have hPast := attaching.leads_ending attachedThenDisconnected (opening none)
  have hSince := attaching.leads_ending runsOut (attaching.ending attachedThenDisconnected (opening none))
  refine ⟨_, _, _, _, hPast, rfl, rfl, hSince, rfl, rfl, installed_of_any (by decide +kernel), ?_⟩
  refine closed_of_harmless starts_attachable hPast rfl rfl ?_ hSince (startsNone_of_all (by decide +kernel))
  rintro task r ⟨⟩
  exact harmless_run 7 7 true

/-- The client disconnects while it is being attached to a debuggee. -/
def disconnectedWhileAttached : List PartyCue :=
  [.outside attachRequest] ++ engages .launcherLane 5 ++ [.outside disconnectRequest] ++ engages .defaultLane 8

def startsAllTheSame : List PartyCue :=
  [.isDone lane] ++ steps .launcherLane 6 ++ [.isDone launcher] ++ engages .launcherLane 8 ++ [.isDone launcher]

def disconnects? (d : DebuggeeId) (e : Occurrence) : Bool :=
  match e.turn with
  | .goesOn _ _ (some ⟨.drive d' .disconnect, _⟩) => d' = d
  | _ => false

def resumes? (d : DebuggeeId) (e : Occurrence) : Bool :=
  match e.turn with
  | .goesOn _ _ (some ⟨.drive d' .resumeAll, _⟩) => d' = d
  | _ => false

def Resumed (d : DebuggeeId) (past : List Occurrence) : Prop :=
  ∃ e ∈ past, ∃ k task a, e.turn = .goesOn k task (some ⟨.drive d .resumeAll, a⟩)

theorem resumed_of_any {past : List Occurrence} (h : past.any (resumes? d) = true) : Resumed d past := by
  obtain ⟨e, he, hHere⟩ := List.any_eq_true.mp h
  unfold resumes? at hHere
  split at hHere
  · next k task d' a hTurn =>
    obtain rfl := of_decide_eq_true hHere
    exact ⟨e, he, k, task, a, hTurn⟩
  · cases hHere

def publishes? (d : DebuggeeId) (e : Occurrence) : Bool :=
  match e.turn with
  | .takesUp _ (.publish d' (.exited _)) => d' = d
  | _ => false

theorem not_disconnected_of_any {past : List Occurrence} (h : past.any (disconnects? d) = false) : ¬Disconnected d past := by
  rintro ⟨e, he, k, task, a, hTurn⟩
  have hHere := List.any_eq_false.mp h e he
  simp [disconnects?, hTurn] at hHere

theorem not_published_of_any {past : List Occurrence} (h : past.any (publishes? d) = false) : ¬Published d past := by
  rintro ⟨e, he, k, code, hTurn⟩
  have hHere := List.any_eq_false.mp h e he
  simp [publishes?, hTurn] at hHere

/-- The debuggee outlives the session: it is started after the client was told that it is disconnected, is let run, and
is never disconnected. -/
theorem outlives_disconnected : ∃ past answered since now,
    (company fun c a => attachable c = some a).Leads (opening none) past answered ∧
      answered.busy lane = some (.job (.request disconnectRequest), .done ()) ∧
      (company fun c a => attachable c = some a).Leads answered since now ∧ (∀ e ∈ since, StartsNone e) ∧
      now.busy lane = none ∧ now.busy launcher = none ∧ now.state.defaultLane.length = 0 ∧ now.state.launcherLane.length = 0 ∧
      now.state.debuggee = some 7 ∧ Resumed 7 since ∧ ¬Disconnected 7 (past ++ since) ∧
      ¬Published 7 (past ++ since) := by
  have hPast := attaching.leads_ending disconnectedWhileAttached (opening none)
  have hSince := attaching.leads_ending startsAllTheSame (attaching.ending disconnectedWhileAttached (opening none))
  refine ⟨_, _, _, _, hPast, rfl, hSince, startsNone_of_all (by decide +kernel), rfl, rfl, rfl, rfl, rfl,
    resumed_of_any (by decide +kernel),
    not_disconnected_of_any (by decide +kernel), not_published_of_any (by decide +kernel)⟩

end Runs
end JvmDebug.Session
