import JvmDebug.Proofs.Session.Accounting
import JvmDebug.Proofs.Session.Disconnecting
import JvmDebug.Proofs.Session.Leave
import JvmDebug.Proofs.Session.Sparing

/-!
# Breakpoints that have code

Which breakpoints have code is noted in the book while a debuggee is there, or is being started, and it is forgotten when
the debuggee ends. It is not forgotten when a client disconnects from the debuggee: then the session goes on to call the
same breakpoints verified. Every other way in which a session loses its debuggee leaves no breakpoint verified.
-/

namespace JvmDebug.Session
set_option autoImplicit false

/-! ## Tasks -/

def Task.starts : Task → Prop
  | .job j => j.starts
  | .publish _ _ => False

def Task.disconnects : Task → Prop
  | .job j => j.disconnects
  | .publish _ _ => False

def Task.isEnd : Task → Prop
  | .job _ => False
  | .publish _ e => (Job.event e).isEnd

/-- A change that leaves alone which breakpoints have code. -/
structure Bears (task : Task) (s s' : Session) : Prop where
  verified : s'.book.verified = s.book.verified
  debuggee : s'.debuggee = s.debuggee ∨ task.starts ∨ task.disconnects ∧ s'.debuggee = none

def bearing (task : Task) : Bounds Session World := ⟨Bears task, fun _ => True, keep⟩

variable {told : (c : Call) → Answer c → Prop} {journal : Option Log.Journal} {past : List Occurrence} {e : Occurrence}
  {s s' : Session} {k : Party} {task : Task} {job : Job} {d : DebuggeeId} {v : List Int} {α : Type}

theorem bears_of_eq (hDebuggee : s'.debuggee = s.debuggee) (hVerified : s'.book.verified = s.book.verified) :
    Bears task s s' :=
  ⟨hVerified, .inl hDebuggee⟩

theorem bears_keep (r : Log.Record) (s : Session) : Bears task s (keep r s) := by
  exact bears_of_eq (congrArg Memory.debuggee (memory_keep r s)) (congrArg (·.book.verified) (memory_keep r s))

/-- Every job bears it but the end of a debuggee. -/
theorem allows_bearing (hStarts : job.starts → task.starts) (hDisconnects : job.disconnects → task.disconnects)
    (hNot : ¬job.isEnd) : Allows job (bearing task) where
  stays _ := bears_of_eq rfl rfl
  notes := bears_keep
  journal _ _ := bears_of_eq rfl rfl
  calls _ _ := trivial
  tells _ _ _ := bears_of_eq rfl rfl
  phase _ _ _ := bears_of_eq rfl rfl
  forwards _ _ _ := bears_of_eq rfl rfl
  views _ _ _ := bears_of_eq rfl rfl
  numbers _ _ _ := bears_of_eq rfl rfl
  exceptions _ _ _ := bears_of_eq rfl rfl
  sets _ _ _ _ := bears_of_eq rfl rfl
  filters _ _ := bears_of_eq rfl rfl
  subscribes _ _ := bears_of_eq rfl rfl
  replaces _ _ := bears_of_eq rfl rfl
  installs h _ _ := ⟨rfl, .inr (.inl (hStarts h))⟩
  enlists _ _ _ _ := bears_of_eq rfl rfl
  loses h _ := ⟨rfl, .inr (.inr ⟨hDisconnects (h.resolve_right hNot), rfl⟩)⟩
  clears h := absurd h hNot

/-! ## Phases -/

/-- Whether a task has yet to forget which breakpoints have code. -/
inductive Due where
  | nothing
  | clearing
  deriving DecidableEq

inductive Tends (task : Task) : Due → Session → Session → Due → Prop where
  | bears {g : Due} {s s' : Session} : Bears task s s' → Tends task g s s' g
  | empties {s s' : Session} : task.isEnd → Tends task .nothing s s' .clearing
  | clears {s s' : Session} : s'.book.verified = [] → Tends task .clearing s s' .nothing

def tenders (told : (c : Call) → Answer c → Prop) : Roles (company told) Due where
  phases _ task :=
    { fits := fun _ _ => True
      moves := fun g _ s s' g' => Tends task g s s' g'
      answered := fun _ _ => True
      keep := keep }
  post _ _ _ g := g = .nothing

theorem passes_bearing {r : Activity α} {g : Due} (h : r.Within (bearing task) fun _ => True) :
    r.Passes ((tenders told).phases k task) (fun _ g' => g' = g) g := by
  refine h.passes_in rfl (fun _ _ => trivial) ?_ ?_ rfl
  · rintro _ s s' rfl - hBears
    exact ⟨_, .bears hBears, rfl⟩
  · rintro _ s c a rfl - - -
    exact ⟨_, .bears (bears_of_eq rfl rfl), rfl⟩

theorem onExit_tends (hEnd : task.isEnd) (code : Option Int32) :
    (onExit code : Activity Unit).Passes ((tenders told).phases k task) (fun _ g => g = .nothing) .nothing := by
  have hKeeps : ∀ {f : Session → Session}, (∀ s, (f s).debuggee = s.debuggee ∧ (f s).book = s.book) →
      (change f : Activity Unit).Within (bearing task) fun _ => True :=
    fun h s => ⟨bears_of_eq (h s).1 (congrArg _ (h s).2), trivial⟩
  have hRest : (do
      releaseAll
      change fun s => { s with phase := s.phase.release }
      send (.exited ((code.map (·.toInt)).getD 0))
      send .terminated : Activity Unit).Within (bearing task) fun _ => True := by
    refine Routine.within_then (Routine.within_then ?_ fun _ => ?_) fun _ => ?_
    · exact hKeeps fun _ => ⟨rfl, rfl⟩
    · exact hKeeps fun _ => ⟨rfl, rfl⟩
    · refine Routine.within_then (hKeeps fun _ => ⟨rfl, rfl⟩) fun _ => ?_
      exact Routine.within_then (hKeeps fun _ => ⟨rfl, rfl⟩) fun _ => hKeeps fun _ => ⟨rfl, rfl⟩
  refine Routine.Passes.bind ((passes_bearing (r := info _) ⟨bears_keep _, trivial⟩).mono ?_)
  rintro _ _ rfl
  exact fun s _ => ⟨.clearing, .empties hEnd, fun s _ => ⟨.nothing, .clears rfl, passes_bearing hRest⟩⟩

theorem hear_tends (d : DebuggeeId) (x : DebugEvent) :
    (hear d x).Passes ((tenders told).phases k (.publish d x)) (fun _ g => g = .nothing) .nothing := by
  by_cases hEnd : (Job.event x).isEnd
  · obtain ⟨code, rfl⟩ := hEnd
    refine fun s _ => ⟨.nothing, .bears (bears_of_eq rfl rfl), ?_⟩
    change Routine.Passes _ _ (Routine.each (s.bus.listeners.filter (· = d)) fun _ => onExit code) _
    generalize s.bus.listeners.filter (· = d) = listeners
    induction listeners with
    | nil => rfl
    | cons _ rest ih =>
      have hTask : (Task.publish d (.exited code)).isEnd := ⟨code, rfl⟩
      refine Routine.Passes.bind ((onExit_tends hTask code).mono ?_)
      rintro _ _ rfl
      exact ih
  · exact passes_bearing ((allows_bearing False.elim False.elim hEnd).hear d)

theorem serve_bearing (q : Dap.Request) : (serve q).Within (bearing (.job (.request q))) fun _ => True :=
  (allows_bearing id id id).serve (fun _ _ _ => bears_of_eq rfl rfl) fun _ => bears_of_eq rfl rfl

theorem streams_of_takeOutput {n : Nat} {r : Activity Unit} (h : takeOutput n s = some (r, s')) :
    ∃ streams, s' = { s with streams } := by
  unfold takeOutput at h
  repeat' split at h
  all_goals cases h
  all_goals exact ⟨_, rfl⟩

theorem tends_of_engages (told : (c : Call) → Answer c → Prop) {r : Activity Unit} (h : Engages k task s r s') :
    r.Passes ((tenders told).phases k task) (fun _ g => g = .nothing) .nothing ∧ s'.debuggee = s.debuggee ∧
      s'.book = s.book := by
  have hOnLane : ∀ {name} {r : Activity Unit}, r.Within (bearing task) (fun _ => True) →
      (Worker.onLane name r).Within (bearing task) fun _ => True :=
    Plain.onLane ⟨fun _ => bears_of_eq rfl rfl, bears_keep, fun _ _ => bears_of_eq rfl rfl⟩
  cases h with
  | publish => exact ⟨hear_tends _ _, rfl, rfl⟩
  | job hJob hTake =>
    cases taken_of_take hJob hTake with
    | default _ => exact ⟨passes_bearing (hOnLane (serve_bearing _)), rfl, rfl⟩
    | @launcher j rest _ =>
      cases j with
      | request q => exact ⟨passes_bearing (hOnLane (serve_bearing q)), rfl, rfl⟩
      | run d announceThreads => exact ⟨passes_bearing (hOnLane (allows_bearing id id id).runDebuggee), rfl, rfl⟩
    | arrival _ => exact ⟨passes_bearing (serve_bearing _), rfl, rfl⟩
    | forwarder hOutput =>
      obtain ⟨streams, rfl⟩ := streams_of_takeOutput hOutput
      exact ⟨passes_bearing ((allows_bearing id id id).takeOutput hOutput), rfl, rfl⟩

/-! ## Along a run -/

/-- Whether anybody is at such a task. -/
def isAt (s : Stage) (p : Task → Prop) : Prop := ∃ k task r, s.busy k = some (task, r) ∧ p task

/-- Debuggees report about breakpoints while they are there, or are being started. -/
def Reported (s : Stage) (e : Occurrence) : Prop :=
  e.turn = .outside → e.after.book.verified = e.before.book.verified ∨ e.before.debuggee.isSome ∨ isAt s Task.starts

/-- The session loses its debuggee because the client disconnects from it, or what was to start one is done without. -/
def Loses (e : Occurrence) : Prop :=
  (∃ k task asked, e.turn = .goesOn k task asked ∧ task.disconnects ∧ e.before.debuggee.isSome) ∨
    ∃ k task, e.turn = .isDone k task ∧ task.starts

/-- The session has lost its debuggee so, and has neither a debuggee nor any news of breakpoints since. -/
def LostWith (past : List Occurrence) (v : List Int) : Prop :=
  ∃ before e since, past = before ++ e :: since ∧ Loses e ∧
    ∀ x ∈ e :: since, x.after.debuggee = none ∧ x.after.book.verified = v

theorem LostWith.snoc (h : LostWith past v) (hAfter : e.after.debuggee = none ∧ e.after.book.verified = v) :
    LostWith (past ++ [e]) v := by
  obtain ⟨before, x, since, rfl, hLoses, hSince⟩ := h
  refine ⟨before, x, since ++ [e], by simp, hLoses, fun y hy => ?_⟩
  rw [← List.cons_append] at hy
  rcases List.mem_append.mp hy with hy | hy
  · exact hSince y hy
  · rwa [List.mem_singleton.mp hy]

/-- Nobody starts a debuggee, and nobody has yet to forget about one. -/
def AtRest (φ : Casting Party Task Due) : Prop := ∀ k x, φ k = some x → ¬x.1.starts ∧ x.2 = .nothing

/-- What a session without a debuggee knows about breakpoints. -/
def Accounts (φ : Casting Party Task Due) (past : List Occurrence) (s : Session) : Prop :=
  s.debuggee = none → AtRest φ → s.book.verified = [] ∨ LostWith past s.book.verified

variable {φ φ' : Casting Party Task Due}

theorem atRest_update {x : Option (Task × Due)} :
    AtRest (Function.update φ k x) ↔
      (∀ y, x = some y → ¬y.1.starts ∧ y.2 = .nothing) ∧ ∀ j, j ≠ k → ∀ y, φ j = some y → ¬y.1.starts ∧ y.2 = .nothing :=
  Function.forall_update_iff φ fun _ x => ∀ y, x = some y → ¬y.1.starts ∧ y.2 = .nothing

/-- Others are at rest whatever one of them is at. -/
theorem AtRest.of_update {x : Option (Task × Due)} (h : AtRest (Function.update φ k x))
    (hHere : ∀ y, φ k = some y → ¬y.1.starts ∧ y.2 = .nothing) : AtRest φ := by
  intro j
  by_cases hj : j = k
  · exact hj ▸ hHere
  · exact (atRest_update.mp h).2 j hj

/-- A moment after which the session has the same debuggee, or none still, and the same breakpoints have code. -/
theorem Accounts.same (h : Accounts φ past s) (hAfter : e.after = s') (hDebuggee : s'.debuggee = s.debuggee)
    (hVerified : s'.book.verified = s.book.verified) (hRest : AtRest φ' → AtRest φ) : Accounts φ' (past ++ [e]) s' := by
  intro hNone hAtRest
  rw [hVerified]
  refine (h (hDebuggee ▸ hNone) (hRest hAtRest)).imp_right fun hLost => hLost.snoc ?_
  exact ⟨hAfter ▸ hNone, hAfter ▸ hVerified⟩

theorem Accounts.goes {g g' : Due} {asked : Option (Asked World)} (h : Accounts φ past s) (hPhase : φ k = some (task, g))
    (hTends : Tends task g s s' g') :
    Accounts (Function.update φ k (some (task, g'))) (past ++ [⟨.goesOn k task asked, s, s'⟩]) s' := by
  intro hNone hRest
  obtain ⟨hStarts, hNothing⟩ : ¬task.starts ∧ g' = .nothing := (atRest_update.mp hRest).1 _ rfl
  cases hTends with
  | empties => cases hNothing
  | clears hCleared => exact .inl hCleared
  | bears hBears =>
    subst hNothing
    have hBefore : AtRest φ := hRest.of_update fun y hy => by
      obtain rfl : (task, Due.nothing) = y := Option.some.inj (hPhase.symm.trans hy)
      exact ⟨hStarts, rfl⟩
    cases hHad : s.debuggee with
    | none => exact h.same rfl (hNone.trans hHad.symm) hBears.verified (fun _ => hBefore) hNone hRest
    | some d =>
      -- The debuggee is gone, so that it was disconnected just now.
      have hDisconnects : task.disconnects := by
        rcases hBears.debuggee with hSame | hStarts' | ⟨hDisconnects, -⟩
        · simp [hNone, hHad] at hSame
        · exact absurd hStarts' hStarts
        · exact hDisconnects
      refine .inr ⟨past, _, [], rfl, .inl ⟨k, task, asked, rfl, hDisconnects, by simp [hHad]⟩, ?_⟩
      exact List.forall_mem_singleton.mpr ⟨hNone, rfl⟩

theorem Accounts.done {g : Due} (h : Accounts φ past s) (hPhase : φ k = some (task, g)) (hPost : g = .nothing) :
    Accounts (Function.update φ k none) (past ++ [⟨.isDone k task, s, s⟩]) s := by
  intro hNone hRest
  by_cases hStarts : task.starts
  · exact .inr ⟨past, _, [], rfl, .inr ⟨k, task, rfl, hStarts⟩, List.forall_mem_singleton.mpr ⟨hNone, rfl⟩⟩
  · refine h.same rfl rfl rfl (fun hRest => hRest.of_update fun y hy => ?_) hNone hRest
    obtain rfl : (task, g) = y := Option.some.inj (hPhase.symm.trans hy)
    exact ⟨hStarts, hPost⟩

/-- Only whoever tells of the end of a debuggee has to forget about one. -/
def EndsOnly (φ : Casting Party Task Due) : Prop := ∀ k x, φ k = some x → x.2 = .clearing → x.1.isEnd

theorem EndsOnly.update {x : Option (Task × Due)} (h : EndsOnly φ) (hHere : ∀ y, x = some y → y.2 = .clearing → y.1.isEnd) :
    EndsOnly (Function.update φ k x) :=
  (Function.forall_update_iff φ fun _ x => ∀ y, x = some y → y.2 = .clearing → y.1.isEnd).mpr ⟨hHere, fun j _ => h j⟩

theorem Tends.ends {g : Due} (h : Tends task g s s' .clearing) : g = .clearing ∨ task.isEnd := by
  cases h with
  | bears _ => exact .inl rfl
  | empties hEnd => exact .inr hEnd

/-- The same as `Reported`, where it is known who is at what. -/
def ReportedBy (φ : Casting Party Task Due) (e : Occurrence) : Prop :=
  e.turn = .outside → e.after.book.verified = e.before.book.verified ∨ e.before.debuggee.isSome ∨
    ∃ k x, φ k = some x ∧ x.1.starts

theorem tenders_keep (told : (c : Call) → Answer c → Prop) :
    (tenders told).Keeps ReportedBy fun φ past s => EndsOnly φ ∧ Accounts φ past s where
  keep _ _ := rfl
  answered _ _ _ _ _ _ _ := trivial
  fits _ _ := trivial
  takes {φ past s k task r s'} h hFree hTakes _ := by
    obtain ⟨hPasses, hDebuggee, hBook⟩ := tends_of_engages told hTakes
    refine ⟨.nothing, hPasses, h.1.update ?_, h.2.same rfl hDebuggee (congrArg _ hBook) fun hRest => hRest.of_update ?_⟩
    · rintro _ ⟨⟩ ⟨⟩
    · intro y hy
      rw [hFree] at hy
      cases hy
  goes {φ past s k task g asked s' g'} h hPhase hMoves _ := by
    refine ⟨h.1.update ?_, h.2.goes hPhase hMoves⟩
    rintro _ ⟨⟩ rfl
    exact hMoves.ends.elim (h.1 k _ hPhase) id
  done h hPhase hPost := ⟨h.1.update nofun, h.2.done hPhase hPost⟩
  outside {φ past s _ s' _} h hOutside hReported := by
    refine ⟨h.1, ?_⟩
    have hOutside : Outside s s' := hOutside
    cases hOutside with
    | dispatch q =>
      rw [dispatch_eq]
      refine h.2.same rfl ?_ ?_ id <;> cases route q.command <;> rfl
    | streams _ _ => exact h.2.same rfl rfl rfl id
    | book book =>
      intro hNone hRest
      rcases hReported rfl with hSame | hHad | ⟨k, x, hPhase, hStarts⟩
      · exact h.2.same rfl rfl hSame id hNone hRest
      · simp [show s.debuggee = none from hNone] at hHad
      · exact absurd hStarts (hRest k x hPhase).1

/-! ## What the client is shown -/

/-- Undisturbed, and without anybody being asked, work comes to this and leaves the session so. -/
def Gets (w : Work α) (s : Session) (result : Except Error α) (s' : Session) : Prop :=
  w.run.Ensures (fun (_ : Unit) _ _ _ => False) (fun x t _ => x = result ∧ t = s') s ()

namespace Gets

variable {β : Type} {w : Work α} {next : α → Work β} {t : Session}

theorem bind {a : α} {result : Except Error β} (h : Gets w s (.ok a) t) (hNext : Gets (next a) t result s') :
    Gets (w >>= next) s result s' := by
  refine Routine.Ensures.bind (h.mono ?_)
  rintro _ _ _ ⟨rfl, rfl⟩
  exact hNext

theorem fails {e : Error} (h : Gets w s (.error e) s') : Gets (w >>= next) s (.error e) s' := by
  refine Routine.Ensures.bind (h.mono ?_)
  rintro _ _ _ ⟨rfl, rfl⟩
  exact ⟨rfl, rfl⟩

theorem require (x : Except Error α) (s : Session) : Gets (require x) s x s := ⟨rfl, rfl⟩

theorem mapM {f : α → Work β} {g : α → Except Error β} (h : ∀ a, Gets (f a) s (g a) s) (items : List α) :
    Gets (items.mapM f) s (items.mapM g) s := by
  induction items with
  | nil => exact ⟨rfl, rfl⟩
  | cons a rest ih =>
    rw [List.mapM_cons, List.mapM_cons]
    have hFirst := h a
    cases hFound : g a with
    | error e => exact fails (hFound ▸ hFirst)
    | ok b =>
      rw [hFound] at hFirst
      refine hFirst.bind ?_
      cases hRest : rest.mapM g with
      | error e => exact fails (hRest ▸ ih)
      | ok bs => exact bind (hRest ▸ ih) ⟨rfl, rfl⟩

end Gets

/-- What the client is shown of the breakpoints that it sets, if so is verified what is verified. -/
def shownAs (verified : Int → Bool) (a : Dap.SetBreakpointsArguments) (s : Session) : Except Error (Option Json) := do
  let source ← ClientView.sourceFromClient a.source
  let wanted ← a.breakpoints.mapM (requested s.view.numbering source)
  let view := fun b : Breakpoint => (ClientView.breakpointView s.view.numbering b (verified b.id)).json
  return some (Dap.listBody "breakpoints" ((setBreakpoints source wanted s).1.2.map view))

theorem readBreakpoint_gets (source : Source) (x : Dap.BreakpointArgument) (s : Session) :
    Gets (readBreakpoint source x) s (requested s.view.numbering source x) s := by
  refine Gets.bind (a := ()) (t := s) ?_ (Gets.bind (a := s.view.numbering) ⟨rfl, rfl⟩ (.require _ s))
  unfold noteCondition
  split <;> exact ⟨rfl, rfl⟩

theorem breakpointJson_gets (x : Breakpoint) (s : Session) :
    Gets (breakpointJson x) s (pure (ClientView.breakpointView s.view.numbering x (s.book.isVerified x.id)).json) s :=
  ⟨rfl, rfl⟩

theorem awaitSync_gets (source : Source) (generation : Nat) (hNone : s.debuggee = none) :
    Gets (act (awaitSync source generation)) s (.ok ()) s := by
  have hLook : (look (·.debuggee) : Activity _).Ensures (fun (_ : Unit) _ _ _ => False) (fun d t _ => d = none ∧ t = s) s () :=
    ⟨hNone, rfl⟩
  refine Routine.Ensures.bind (Routine.Ensures.bind (hLook.mono ?_))
  rintro _ _ _ ⟨rfl, rfl⟩
  exact ⟨rfl, rfl⟩

/-- Without a debuggee the answer waits for nothing, and tells what is noted. -/
theorem serveSetBreakpoints_gets (a : Dap.SetBreakpointsArguments) (hNone : s.debuggee = none) :
    ∃ s', Gets (serveSetBreakpoints a) s (shownAs s.book.isVerified a s) s' := by
  unfold serveSetBreakpoints shownAs
  cases ClientView.sourceFromClient a.source with
  | error e => exact ⟨s, (Gets.require (.error e) s).fails⟩
  | ok source =>
    have hRead := Gets.mapM (fun x => readBreakpoint_gets source x s) a.breakpoints
    simp only [bind, Except.bind]
    cases hWanted : a.breakpoints.mapM (requested s.view.numbering source) with
    | error e => exact ⟨s, (Gets.require (.ok source) s).bind (hWanted ▸ hRead).fails⟩
    | ok wanted =>
      rw [hWanted] at hRead
      let after := (setBreakpoints source wanted s).2
      refine ⟨after, (Gets.require (.ok source) s).bind (hRead.bind ?_)⟩
      refine .bind (a := (setBreakpoints source wanted s).1) (t := after) ⟨rfl, rfl⟩ ?_
      refine .bind (a := ()) (t := after) ⟨rfl, rfl⟩ ?_
      refine (awaitSync_gets (s := after) source _ hNone).bind ?_
      have hShown := Gets.mapM (fun x => breakpointJson_gets x after) (setBreakpoints source wanted s).1.2
      rw [List.mapM_pure] at hShown
      exact hShown.bind ⟨rfl, rfl⟩

/-! ## A session without a debuggee -/

/-- No breakpoint is called verified, and none is shown so to a client that sets breakpoints. -/
structure Unverified (s : Session) : Prop where
  noted : ∀ id, s.book.isVerified id = false
  shown : ∀ a, ∃ s', Gets (serveSetBreakpoints a) s (shownAs (fun _ => false) a s) s'

theorem unverified_of_nil (hNone : s.debuggee = none) (h : s.book.verified = []) : Unverified s := by
  have hNoted : s.book.isVerified = fun _ => false := by
    funext id
    simp [BreakpointBook.isVerified, h]
  exact ⟨congrFun hNoted, fun a => hNoted ▸ serveSetBreakpoints_gets a hNone⟩

/-- Without a debuggee, and while none is being started and none is about to be forgotten, nothing is verified, unless the
client has disconnected from the last debuggee or it could not be started. -/
theorem unverified_unless_lost {now : Stage} (h : (company told).LeadsBy Reported (opening journal) past now)
    (hNone : now.state.debuggee = none) (hStarts : ¬isAt now Task.starts) (hEnds : ¬isAt now Task.isEnd) :
    Unverified now.state ∨ LostWith past now.state.book.verified := by
  have hRule : ∀ {φ s e}, (∀ k, (tenders told).Plays φ s k) → Reported s e → ReportedBy φ e := by
    intro φ s e hPlays hReported hTurn
    refine (hReported hTurn).imp_right fun hThere => hThere.imp_right ?_
    rintro ⟨k, task, r, hBusy, hStart⟩
    obtain ⟨g, hPhase, -⟩ := (hPlays k).busy hBusy
    exact ⟨k, _, hPhase, hStart⟩
  obtain ⟨φ, hPlays, hOnly, hAccounts⟩ :=
    h.plays_roles (tenders_keep told) hRule (fun _ => rfl) ⟨nofun, fun _ _ => .inl rfl⟩
  have hRest : AtRest φ := by
    intro k x hPhase
    obtain ⟨r, hBusy, -⟩ := (hPlays k).at_job hPhase
    refine ⟨fun hStart => hStarts ⟨k, x.1, r, hBusy, hStart⟩, ?_⟩
    cases hDue : x.2 with
    | nothing => rfl
    | clearing => exact absurd ⟨k, x.1, r, hBusy, hOnly k x hPhase hDue⟩ hEnds
  exact (hAccounts hNone hRest).imp_left (unverified_of_nil hNone)

/-! ## Runs

The client sets a breakpoint and is attached to a debuggee, which reports while it is being started that the breakpoint
has code. -/

section Runs

def setRequest : Dap.Request :=
  ⟨2, "setBreakpoints",
    some (.obj [("source", .obj [("path", .str "/w/A.java")]), ("breakpoints", .arr [.obj [("line", .int 3)]])])⟩

def setsBreakpoint : List PartyCue := [.outside setRequest] ++ engages .defaultLane 9 ++ [.isDone lane]

def startsAttaching : List PartyCue := setsBreakpoint ++ [.outside attachRequest] ++ engages .launcherLane 5

def beingStarted : Stage := attaching.ending startsAttaching (opening none)

def reported : Stage :=
  { beingStarted with state := { beingStarted.state with book := beingStarted.state.book.reportSynced 1 [1] } }

def storyWith (cues : List PartyCue) : List Occurrence :=
  attaching.story startsAttaching (opening none) ++ [⟨.outside, beingStarted.state, reported.state⟩] ++
    attaching.story cues reported

/-- Nothing is reported, or the debuggee is there. -/
def isReported (e : Occurrence) : Bool :=
  match e.turn with
  | .outside => e.after.book.verified = e.before.book.verified || e.before.debuggee.isSome
  | _ => true

theorem Reported.of_isReported {s : Stage} (h : isReported e = true) : Reported s e := by
  intro hTurn
  rw [isReported, hTurn, Bool.or_eq_true, decide_eq_true_eq] at h
  exact h.imp_right .inl

theorem leadsBy_story (cues : List PartyCue)
    (hBefore : (attaching.story startsAttaching (opening none)).all isReported = true)
    (hSince : (attaching.story cues reported).all isReported = true) :
    (company fun c a => attachable c = some a).LeadsBy Reported (opening none) (storyWith cues)
      (attaching.ending cues reported) := by
  have hAll : ∀ {cues : List PartyCue} {start : Stage}, (attaching.story cues start).all isReported = true →
      (company fun c a => attachable c = some a).LeadsBy Reported start (attaching.story cues start)
        (attaching.ending cues start) :=
    fun h => ((attaching.leads_ending _ _).by_all (List.all_eq_true.mp h)).mono fun _ _ => .of_isReported
  refine ((hAll hBefore).snoc (.outside (.book _)) fun _ => .inr (.inr ?_)).trans (hAll hSince)
  exact ⟨launcher, .job (.request attachRequest), _, rfl, .tail _ (.head _)⟩

/-- Nobody has a turn beside the lanes and one publisher. -/
def isOfFew (e : Occurrence) : Bool := e.turn.worker? ∈ [none, some lane, some launcher, some (.publisher 0)]

theorem free_of_story {now : Stage} (h : (company fun c a => attachable c = some a).Leads (opening none) past now)
    (hTurns : past.all isOfFew = true)
    (hLane : now.busy lane = none) (hLauncher : now.busy launcher = none) (hPublisher : now.busy (.publisher 0) = none)
    (k : Party) : now.busy k = none := by
  by_cases hKnown : k ∈ [lane, launcher, .publisher 0]
  · simp only [List.mem_cons, List.not_mem_nil, or_false] at hKnown
    rcases hKnown with rfl | rfl | rfl <;> assumption
  · refine h.idle_of_absent rfl fun e he hTurn => hKnown ?_
    have hHere := of_decide_eq_true (List.all_eq_true.mp hTurns e he)
    simpa [hTurn] using hHere

theorem not_isAt_of_free {now : Stage} (h : ∀ k, now.busy k = none) (p : Task → Prop) : ¬isAt now p := by
  rintro ⟨k, task, r, hBusy, -⟩
  rw [h k] at hBusy
  cases hBusy

/-- The debuggee is started, and ends. -/
def startedThenEnded : List PartyCue :=
  steps .launcherLane 6 ++ [.isDone launcher, .takesUp (.publisher 0) (some (7, .exited none))] ++
    List.replicate 9 (.goesOn (.publisher 0)) ++ [.isDone (.publisher 0)]

theorem unverified_unless_lost_ended : ∃ past now,
    (company fun c a => attachable c = some a).LeadsBy Reported (opening none) past now ∧ now.state.debuggee = none ∧
      ¬isAt now Task.starts ∧ ¬isAt now Task.isEnd ∧ beingStarted.state.debuggee = none ∧
      reported.state.book.isVerified 1 = true ∧ (Unverified now.state ∨ LostWith past now.state.book.verified) := by
  have hLeads := leadsBy_story startedThenEnded (by decide +kernel) (by decide +kernel)
  have hFree := free_of_story hLeads.leads (by decide +kernel) rfl rfl rfl
  have hStarts := not_isAt_of_free hFree Task.starts
  have hEnds := not_isAt_of_free hFree Task.isEnd
  exact ⟨_, _, hLeads, rfl, hStarts, hEnds, rfl, rfl, unverified_unless_lost hLeads rfl hStarts hEnds⟩

/-- The debuggee is started, and the client disconnects from it and sets the breakpoint again. -/
def startedThenDisconnected : List PartyCue :=
  steps .launcherLane 6 ++ [.isDone launcher, .outside disconnectRequest] ++ engages .defaultLane 9 ++ [.isDone lane] ++
    engages .launcherLane 6 ++ [.isDone launcher]

def shownBreakpoint : Breakpoint := ⟨1, ⟨.ofPath ⟨"/w/A.java"⟩, 3, none⟩, none⟩

theorem verified_after_disconnecting : ∃ past disconnected since now,
    (company fun c a => attachable c = some a).LeadsBy Reported (opening none) past disconnected ∧
      disconnected.state.debuggee = none ∧ (∀ k, disconnected.busy k = none) ∧
      (company fun c a => attachable c = some a).Leads disconnected since now ∧
      now.state.outbox.getLast? = some (.response (.of setRequest
        (.ok (some (Dap.listBody "breakpoints" [(ClientView.breakpointView {} shownBreakpoint true).json]))))) := by
  have hLeads := leadsBy_story startedThenDisconnected (by decide +kernel) (by decide +kernel)
  have hFree := free_of_story hLeads.leads (by decide +kernel) rfl rfl rfl
  have hSince := attaching.leads_ending setsBreakpoint (attaching.ending startedThenDisconnected reported)
  exact ⟨_, _, _, _, hLeads, rfl, hFree, hSince, rfl⟩

end Runs
end JvmDebug.Session
