import JvmDebug.Proofs.Session.Given

/-!
# Letting threads run

What is left of the handles of a thread when a session lets it run. A request that has a thread run gives up its handles
before it asks for that, and those of all threads before it lets all of them run. The job that lets a debuggee run for
the first time gives up none.
-/

namespace JvmDebug.Session
set_option autoImplicit false

open Jdwp (ThreadId)

variable {told : (c : Call) → Answer c → Prop} {journal : Option Log.Journal} {past : List Happening} {e : Happening}
  {s : Scene Hand Job Session World Unit fun _ => Unit} {k : Hand} {job : Job} {d : DebuggeeId} {r : DebuggeeRequest}
  {next : r.Answer → Activity Unit} {asked : Option (Asked World)}

/-- What a job asks next fits its terms. -/
theorem Comes.asks (h : Comes told journal past s) {c : Call} {next : Answer c → Activity Unit}
    (hBusy : s.busy k = some (job, .call c next)) : (terms k job).asks (deeds k past) c s.state := by
  have hKept := h.kept
  have hValid : (terms k job).valid s.state := (accord told).valid k job ▸ hKept.valid
  exact (hKept.busy hBusy s.state ((terms k job).refl _) hValid).1

/-- The job that lets a debuggee run for the first time. -/
def starts (k : Hand) (job : Job) : Prop := k = .worker .launcherLane ∧ ∃ d announceThreads, job = .run d announceThreads

/-- Whatever lets threads run has given up their handles, or starts a debuggee. -/
theorem safe_or_starts {c : Call} {s : Session} (h : (terms k job).asks (deeds k past) c s) (hResumes : resumes c) :
    Safe c s ∨ starts k job ∧ resumesAll c := by
  unfold terms at h
  split at h
  · exact .inl h
  · exact .inr ⟨⟨rfl, _, _, rfl⟩, h hResumes⟩
  · exact h.elim
  · exact absurd hResumes h

/-- The same handles are valid, and stand for the same. -/
structure SameHandles (s s' : Session) : Prop where
  frames : ∀ n f, s'.view.frame n = .ok f ↔ s.view.frame n = .ok f
  references : ∀ n r, s'.view.reference n = .ok r ↔ s.view.reference n = .ok r

/-- The job that starts a debuggee leaves all handles as they are. -/
theorem Comes.same_of_starts (h : Comes told journal past s) (he : e ∈ past) (hStarts : starts k job)
    (hTurn : e.turn = .goesOn k job asked) : SameHandles e.before e.after := by
  obtain ⟨before, after, rfl⟩ := List.append_of_mem he
  obtain ⟨m, m', hFirst, hHappens, -⟩ := Setting.Leads.around h
  have hSecond : Comes told journal (before ++ [e]) m' := .snoc hFirst hHappens
  have hSheds : e.before.Sheds (fun _ => False) e.after := by
    obtain ⟨rfl, d, announceThreads, rfl⟩ := hStarts
    cases effect_of_happens (Comes.kept hFirst) hHappens with
    | request q asked' hServes _ =>
      rw [servesAt, hTurn] at hServes
      cases hServes
    | other _ hReserved => exact hReserved.toSheds.mono fun t ht => by rwa [hTurn] at ht
  rw [hHappens.before, hHappens.after] at hSheds ⊢
  exact ⟨hSheds.frames.get_iff (frames_isPool.chronicle hFirst) (frames_isPool.chronicle hSecond),
    hSheds.references.get_iff (references_isPool.chronicle hFirst) (references_isPool.chronicle hSecond)⟩

/-- What is left of the handles when a job is about to ask a debuggee for something. -/
structure Released (past : List Happening) (s : Session) (k : Hand) (job : Job) (r : DebuggeeRequest) : Prop where
  thread : ∀ t, (r = .resume t ∨ ∃ kind, r = .step t kind) → Gone past s t
  all : r = .resumeAll → ¬starts k job → ∀ t, Gone past s t
  started : starts k job → ∀ e ∈ past, ∀ asked, e.turn = .goesOn k job asked → SameHandles e.before e.after

/-- No thread runs on with handles that are valid, unless a debuggee is started: then all handles stay as they are. -/
theorem released_unless_starting (h : Comes told journal past s)
    (hBusy : s.busy k = some (job, .call (.drive d r) next)) : Released past s.state k job r where
  thread t hThread := by
    have hSafe : Safe (.drive d r) s.state := by
      rcases safe_or_starts (h.asks hBusy) (by rcases hThread with rfl | ⟨kind, rfl⟩ <;> trivial) with hSafe | ⟨-, hAll⟩
      · exact hSafe
      · rcases hThread with rfl | ⟨kind, rfl⟩ <;> exact hAll.elim
    refine h.gone_of_bare ?_
    rcases hThread with rfl | ⟨kind, rfl⟩ <;> exact hSafe
  all hAll hNot t := by
    subst hAll
    rcases safe_or_starts (h.asks hBusy) trivial with hSafe | ⟨hStarts, -⟩
    · exact h.gone_of_bare (hSafe t)
    · exact absurd hStarts hNot
  started hStarts e he asked hTurn := h.same_of_starts he hStarts hTurn

/-! ## A debuggee that is started late

A client that looks at a stack before it has finished configuring knows a frame by its handle. The debuggee is started,
and the handle is still valid. -/

section Started

def shownFrame : FrameRef := ⟨1, 7, ⟨1, 3, 5, 0⟩⟩

/-- A debuggee with one thread, which stands in one frame. -/
def oneFrame : (c : Call) → Option (Answer c)
  | .files => some (.folder [])
  | .attach .. => some (.ok 7)
  | .drive _ .threads => some (.ok [])
  | .drive _ (.stackTrace _) => some (.ok [⟨"A.m", none, shownFrame⟩])
  | _ => none

def attachRequest : Dap.Request :=
  ⟨1, "attach", some (.obj [("workspaceRoot", .str "/w"), ("hostName", .str "h"), ("port", .int 5005), ("timeout", .int 0)])⟩

def stackTraceRequest : Dap.Request := ⟨2, "stackTrace", some (.obj [("threadId", .int 1)])⟩

def configurationDoneRequest : Dap.Request := ⟨3, "configurationDone", none⟩

/-- A worker takes something up, and so many steps of it follow. -/
def works (w : Worker) (steps : Nat) : List (Cue Hand (Option DebugEvent) Dap.Request) :=
  .takesUp (.worker w) none :: List.replicate steps (.goesOn (.worker w))

/-- A request reaches its lane, and is served to the end before anything else happens. -/
def servedAlone (q : Dap.Request) (steps : Nat) : List (Cue Hand (Option DebugEvent) Dap.Request) :=
  [.outside q] ++ works .defaultLane steps ++ [.isDone (.worker .defaultLane)]

def startedLate : List (Cue Hand (Option DebugEvent) Dap.Request) :=
  [.outside attachRequest] ++ works .launcherLane 11 ++ [.isDone (.worker .launcherLane), .outside stackTraceRequest] ++
    works .defaultLane 6 ++ [.isDone (.worker .defaultLane), .outside configurationDoneRequest] ++
    works (.arrival 0) 2 ++ works .launcherLane 7

/-- Whether a job that starts a debuggee is about to let it run. -/
def isAboutToRun : Option (Job × Activity Unit) → Bool
  | some (.run _ _, .call (.drive _ .resumeAll) _) => true
  | _ => false

theorem exists_of_isAboutToRun {b : Option (Job × Activity Unit)} (h : isAboutToRun b = true) :
    ∃ d announceThreads d' next, b = some (.run d announceThreads, .call (.drive d' .resumeAll) next) := by
  unfold isAboutToRun at h
  split at h
  · exact ⟨_, _, _, _, rfl⟩
  · cases h

theorem released_unless_starting_late :
    ∃ past s job d next, Comes (fun c a => oneFrame c = some a) none past s ∧
      s.busy (.worker .launcherLane) = some (job, .call (.drive d .resumeAll) next) ∧
      Released past s.state (.worker .launcherLane) job .resumeAll ∧
      given frames past = [(1, 1, shownFrame)] ∧ s.state.view.frame 1 = .ok shownFrame := by
  obtain ⟨past, s, hComes, hCheck⟩ := (script oneFrame fun _ _ => id).leads_of_check startedLate (fresh none)
    (fun past s => isAboutToRun (s.busy (.worker .launcherLane)) &&
      decide (given frames past = [(1, 1, shownFrame)] ∧ s.state.view.frames.entries = [(1, 1, shownFrame)])) (by decide +kernel)
  simp only [Bool.and_eq_true, decide_eq_true_eq] at hCheck
  obtain ⟨hAbout, hGiven, hEntries⟩ := hCheck
  obtain ⟨d, announceThreads, d', next, hBusy⟩ := exists_of_isAboutToRun hAbout
  refine ⟨past, s, _, d', next, hComes, hBusy, released_unless_starting hComes hBusy, hGiven, ?_⟩
  simp [ClientView.frame, Handles.get, Handles.find?, hEntries]

end Started

end JvmDebug.Session
