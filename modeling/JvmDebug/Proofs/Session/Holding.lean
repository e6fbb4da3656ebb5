import JvmDebug.Proofs.Session.Accounting
import JvmDebug.Proofs.Session.Disconnecting

/-!
# What is held back until the client has finished configuring

The job that lets a debuggee run waits until the client has finished configuring, and the output of debuggees waits for
that job. Until then no output is looked at, the client is not told which threads a debuggee has already, and none of
them runs unless the client asks for that itself. What a debuggee publishes is not held back: those who have subscribed
hear it at once, and so does the client.
-/

namespace JvmDebug.Session
set_option autoImplicit false

/-! ## Messages -/

/-- A message of the session itself: an answer, what follows an answer, or a line of the log. -/
def isOwn (m : Dap.Outgoing) : Prop := m.response?.isSome ∨ m.isInitialized = true ∨ m.isPause = true ∨ isConsole m

/-- What the client is told by an event is no message of the session itself. -/
theorem not_isOwn_of_notifies {e : DebugEvent} {m : Dap.Outgoing} (h : Notifies e m) : ¬isOwn m := by
  have hTells : isConsole m ∨ (Job.event e).leave.tells m := .inr h
  obtain ⟨hLane, hEvent⟩ := not_ofDefaultLane_of_leave hTells
  rw [isOfDefaultLane_of_event hEvent, Bool.or_eq_false_iff] at hLane
  rintro (hResponse | hInitialized | hPause | ⟨text, rfl⟩)
  · simp [hEvent] at hResponse
  · simp [hLane.1] at hInitialized
  · simp [hLane.2] at hPause
  · -- Events are told under names of their own.
    have hName : ∀ {name body}, Dap.Outgoing.output "console" text = .event (.of name body) → name = "output" := by
      intro name body hEq
      have hEvents := congrArg Dap.Event.event (Dap.Outgoing.event.inj hEq)
      cases body <;> simpa [Dap.Event.of, Json.object] using hEvents.symm
    cases e with
    | threadChanged t c => cases c <;> exact absurd (hName h) (by decide)
    | breakpointResolved id line =>
      obtain ⟨n, b, -, hEq⟩ := h
      exact absurd (hName hEq) (by decide)
    | exited code => rcases h with h | h <;> exact absurd (hName h) (by decide)
    | _ => exact absurd (hName h) (by decide)

/-! ## Streams -/

/-- Whether any output is forwarded to the client. -/
def forwards (s : Session) : Bool := s.streams.any (·.2.forwarded)

theorem forwards_of_streams {s s' : Session} (h : s'.streams = s.streams) : s'.forwards = s.forwards := by
  rw [forwards, h, forwards]

theorem forwards_map {f : Nat × OutputStream → Nat × OutputStream} (h : ∀ x, (f x).2.forwarded = x.2.forwarded) (s : Session) :
    forwards { s with streams := s.streams.map f } = s.forwards := by
  rw [forwards, List.any_map, forwards]
  exact congrArg (List.any s.streams) (funext h)

/-! Nothing that debuggees do to their streams has them forwarded. -/

theorem forwards_writeStream (d : DebuggeeId) (category : String) (bytes : Bytes) (s : Session) :
    (s.writeStream d category bytes).forwards = s.forwards := by
  refine forwards_map (fun x => ?_) s
  dsimp only
  split <;> rfl

theorem forwards_addStream {o : OutputStream} (h : o.forwarded = false) (s : Session) :
    (s.addStream o).forwards = s.forwards := by
  simp [forwards, addStream, h]

theorem outside_addStream (o : OutputStream) (s : Session) : Outside s (s.addStream o) := .streams ..

theorem outside_writeStream (d : DebuggeeId) (category : String) (bytes : Bytes) (s : Session) :
    Outside s (s.writeStream d category bytes) := .streams _ s.nextStream

/-- Only streams that are forwarded are read. -/
theorem takeOutput_of_not_forwards {n : Nat} {s : Session} (h : s.forwards = false) : takeOutput n s = none := by
  unfold takeOutput
  split
  · rfl
  · next k o hFound =>
    have hNot : o.forwarded = false := by simpa using List.any_eq_false.mp h _ (List.mem_of_find?_eq_some hFound)
    simp [hNot]

/-! ## Tasks -/

/-- The requests by which the client lets threads run. -/
def Task.lets : Task → Prop
  | .job (.request q) => q.command ∈ ["continue", "next", "stepIn", "stepOut"]
  | _ => False

/-- What brings the end of the configuration about. -/
def Task.opens : Task → Prop
  | .job (.request q) => q.command ∈ ["configurationDone", "disconnect"]
  | .job _ => False
  | .publish _ e => ∃ code, e = .exited code

/-- What the client is told meanwhile, beside messages of the session itself. -/
def Task.tells : Task → Dap.Outgoing → Prop
  | .job _, _ => False
  | .publish _ e, m => Notifies e m

/-- A change before the end of the configuration. -/
structure Bides (task : Task) (s s' : Session) : Prop where
  sends : ∃ new, s'.outbox = s.outbox ++ new ∧ ∀ m ∈ new, isOwn m ∨ task.tells m
  phase : task.opens ∨ s'.phase = s.phase
  streams : s'.streams = s.streams

def biding (task : Task) : Bounds Session World := ⟨Bides task, fun c => resumes c → task.lets, keep⟩

variable {told : (c : Call) → Answer c → Prop} {journal : Option Log.Journal} {past : List Occurrence} {e : Occurrence}
  {s s' : Session} {k : Party} {task : Task} {l : Leave} {α : Type}

theorem Aside.bides (h : Aside l s s') (hTells : ∀ m, l.tells m → task.tells m) (hOpens : l.opens → task.opens)
    (hForwards : ¬l.forwards) : Bides task s s' where
  sends := by
    obtain ⟨new, hNew, hTold⟩ := h.sends
    refine ⟨new, hNew, fun m hm => ?_⟩
    rcases hTold m hm with hConsole | hSaid
    · exact .inl (.inr (.inr (.inr hConsole)))
    · exact .inr (hTells m hSaid)
  phase := h.phase.imp_left hOpens
  streams := h.streams.resolve_left hForwards

theorem bides_refl (task : Task) (s : Session) : Bides task s s := ⟨⟨[], by simp, by simp⟩, .inr rfl, rfl⟩

theorem bides_keep (task : Task) (r : Log.Record) (s : Session) : Bides task s (keep r s) :=
  (aside_keep ⟨fun _ => False, fun _ => False, False, False⟩ r s).bides nofun nofun id

theorem bides_post {m : Dap.Outgoing} (h : isOwn m) (s : Session) : Bides task s (post m s) :=
  ⟨⟨[m], rfl, by simpa using .inl h⟩, .inr rfl, rfl⟩

theorem onLane_biding {name : String} {r : Activity Unit} (h : r.Within (biding task) fun _ => True) :
    (Worker.onLane name r).Within (biding task) fun _ => True :=
  Routine.within_then ⟨bides_keep _ _, trivial⟩ fun _ => h

theorem follow_biding (q : Dap.Request) : (follow q).Within (biding (.job (.request q))) fun _ => True := by
  have hSend : ∀ {m}, isOwn m → (send m : Activity Unit).Within (biding (.job (.request q))) fun _ => True :=
    fun h s => ⟨bides_post h s, trivial⟩
  unfold follow
  split
  · refine Routine.within_then (fun s => ⟨⟨⟨[], (List.append_nil _).symm, by simp⟩, .inr rfl, rfl⟩, trivial⟩) fun _ => ?_
    split
    · trivial
    · exact hSend (.inr (.inl (Dap.Outgoing.isInitialized_of ..)))
  · split
    · exact hSend (.inr (.inr (.inl (Dap.Outgoing.isPause_stopped ..))))
    · trivial
  · trivial

theorem serve_biding (q : Dap.Request) : (serve q).Within (biding (.job (.request q))) fun _ => True := by
  have hAnswer : (answer q).run.Within (biding (.job (.request q))) fun _ => True :=
    Routine.Within.weaken (b := beside (.request q)) (fun _ _ h => h.bides (fun _ => id) id id) (fun _ => id) rfl
      (allows_beside _).answer
  have hRespond : ∀ result, (respond q result).Within (biding (.job (.request q))) fun _ => True := by
    intro result
    have hSend : (send (.response (.of q result)) : Activity Unit).Within (biding (.job (.request q))) fun _ => True :=
      fun s => ⟨bides_post (.inl rfl) s, trivial⟩
    cases result with
    | ok body => exact hSend
    | error e => exact ⟨bides_keep _ _, hSend⟩
  refine Routine.within_then hAnswer fun result => Routine.within_then (hRespond result) fun _ => ?_
  cases result with
  | ok body => exact follow_biding q
  | error e => trivial

theorem hear_biding (d : DebuggeeId) (x : DebugEvent) : (hear d x).Within (biding (.publish d x)) fun _ => True :=
  Routine.Within.weaken (b := beside (.event x)) (fun _ _ h => h.bides (fun _ => id) id id) (fun _ => False.elim) rfl
    ((allows_beside _).hear d)

/-! ## Before the end of the configuration -/

/-- All workers count on it that the configuration has not ended. -/
def waiters (told : (c : Call) → Answer c → Prop) : Roles (company told) Unit where
  phases _ task :=
    { fits := fun _ s => s.phase = .idle
      moves := fun _ asked s s' _ => Bides task s s' ∧ ∀ x ∈ asked, resumes x.1 → task.lets
      answered := fun _ _ => True
      keep := keep }
  post _ _ _ _ := True

theorem passes_of_biding {r : Activity Unit} (h : r.Within (biding task) fun _ => True) :
    r.Passes ((waiters told).phases k task) (fun _ _ => True) () := by
  refine Routine.Within.passes_in h rfl (fun _ (_ : True) => trivial) ?_ ?_ trivial
  · exact fun _ s s' _ _ hBides => ⟨(), ⟨hBides, fun _ hNone => nomatch hNone⟩, trivial⟩
  · intro _ s c a _ _ hCalls _
    refine ⟨(), ⟨bides_refl task s, ?_⟩, trivial⟩
    rintro x ⟨⟩
    exact hCalls

/-- The job that lets a debuggee run does not get past its wait. -/
theorem runDebuggee_waits (d : DebuggeeId) (announceThreads : Bool) :
    (Worker.onLane "launcher" (runDebuggee d announceThreads)).Passes ((waiters told).phases k task) (fun _ _ => True) () := by
  refine fun s _ => ⟨(), ⟨bides_keep task _ s, fun _ hNone => nomatch hNone⟩, trivial,
    fun s hIdle => ⟨fun hReady => ?_, fun hLimit => ?_⟩⟩
  · have hLeft : s.phase ≠ .idle := of_decide_eq_true hReady
    exact absurd hIdle hLeft
  · cases hLimit

/-- The configuration has ended after a step that may bring that about. -/
def Opens (e : Occurrence) : Prop := e.after.phase ≠ .idle ∧ ∃ k task asked, e.turn = .goesOn k task asked ∧ task.opens

/-- What comes of itself has no stream forwarded. -/
def LeavesUnforwarded (e : Occurrence) : Prop :=
  e.turn = .outside → e.before.forwards = false → e.after.forwards = false

/-- The client is told this because a debuggee publishes an event. -/
def ToldByEvent (e : Occurrence) (m : Dap.Outgoing) : Prop :=
  m ∈ added e.before.outbox e.after.outbox ∧ ∃ k d x asked, e.turn = .goesOn k (.publish d x) asked ∧ Notifies x m

/-- What the session has done with a debuggee before the end of the configuration. -/
structure HeldBack (past : List Occurrence) (s : Session) : Prop where
  idle : s.phase = .idle
  unforwarded : s.forwards = false
  /-- Nobody takes up any output. -/
  unread : ∀ e ∈ past, ∀ k n, e.turn ≠ .takesUp k (.job (.forward n))
  told : ∀ m ∈ s.outbox, isOwn m ∨ ∃ e ∈ past, ToldByEvent e m
  resumed : ∀ e ∈ past, ∀ k task x, e.turn = .goesOn k task (some x) → resumes x.1 → task.lets

theorem HeldBack.snoc (h : HeldBack past s) (hIdle : s'.phase = .idle) (hUnforwarded : s'.forwards = false)
    (hUnread : ∀ k n, e.turn ≠ .takesUp k (.job (.forward n)))
    (hTold : ∃ new, s'.outbox = s.outbox ++ new ∧ ∀ m ∈ new, isOwn m ∨ ToldByEvent e m)
    (hResumed : ∀ k task x, e.turn = .goesOn k task (some x) → resumes x.1 → task.lets) : HeldBack (past ++ [e]) s' where
  idle := hIdle
  unforwarded := hUnforwarded
  unread := List.forall_mem_append.mpr ⟨h.unread, by simpa using hUnread⟩
  told m hm := by
    obtain ⟨new, hNew, hSaid⟩ := hTold
    rw [hNew] at hm
    rcases List.mem_append.mp hm with hm | hm
    · refine (h.told m hm).imp_right ?_
      rintro ⟨x, hx, hTeller⟩
      exact ⟨x, List.mem_append_left _ hx, hTeller⟩
    · exact (hSaid m hm).imp_right fun hTeller => ⟨e, by simp, hTeller⟩
  resumed := List.forall_mem_append.mpr ⟨h.resumed, by simpa using hResumed⟩

/-- A moment at which the session stays as it is, as far as the configuration is concerned. -/
theorem HeldBack.still (h : HeldBack past s) (hPhase : s'.phase = s.phase) (hOutbox : s'.outbox = s.outbox)
    (hUnforwarded : s'.forwards = false) (hUnread : ∀ k n, e.turn ≠ .takesUp k (.job (.forward n)))
    (hTurn : ∀ k task asked, e.turn ≠ .goesOn k task asked) : HeldBack (past ++ [e]) s' :=
  h.snoc (hPhase.trans h.idle) hUnforwarded hUnread ⟨[], by simpa using hOutbox, by simp⟩
    fun k task x hGoes => absurd hGoes (hTurn k task (some x))

theorem HeldBack.takes {r : Activity Unit} (h : HeldBack past s) (hTakes : Engages k task s r s') :
    r.Passes ((waiters told).phases k task) (fun _ _ => True) () ∧ HeldBack (past ++ [⟨.takesUp k task, s, s'⟩]) s' := by
  cases hTakes with
  | publish => exact ⟨passes_of_biding (hear_biding _ _), h.still rfl rfl h.unforwarded (by simp) (by simp)⟩
  | job hJob hTake =>
    cases taken_of_take hJob hTake with
    | default _ =>
      exact ⟨passes_of_biding (onLane_biding (serve_biding _)), h.still rfl rfl h.unforwarded (by simp) (by simp)⟩
    | @launcher j rest _ =>
      cases j with
      | request q =>
        refine ⟨passes_of_biding (onLane_biding (serve_biding q)), h.still rfl rfl h.unforwarded ?_ (by simp)⟩
        simp [LauncherJob.job]
      | run d announceThreads =>
        exact ⟨runDebuggee_waits d announceThreads, h.still rfl rfl h.unforwarded (by simp [LauncherJob.job]) (by simp)⟩
    | arrival _ => exact ⟨passes_of_biding (serve_biding _), h.still rfl rfl h.unforwarded (by simp) (by simp)⟩
    | forwarder hOutput => simp [takeOutput_of_not_forwards h.unforwarded] at hOutput

theorem HeldBack.goes {asked : Option (Asked World)} (h : HeldBack past s) (hBides : Bides task s s')
    (hCalls : ∀ x ∈ asked, resumes x.1 → task.lets) (hNot : ¬Opens ⟨.goesOn k task asked, s, s'⟩) :
    HeldBack (past ++ [⟨.goesOn k task asked, s, s'⟩]) s' := by
  refine h.snoc ?_ ((forwards_of_streams hBides.streams).trans h.unforwarded) (by simp) ?_ ?_
  · rcases hBides.phase with hOpens | hSame
    · by_contra hLeft
      exact hNot ⟨hLeft, k, task, asked, rfl, hOpens⟩
    · exact hSame.trans h.idle
  · obtain ⟨new, hNew, hTold⟩ := hBides.sends
    refine ⟨new, hNew, fun m hm => (hTold m hm).imp_right fun hSaid => ?_⟩
    cases task with
    | job j => exact hSaid.elim
    | publish d x =>
      refine ⟨?_, k, d, x, asked, rfl, hSaid⟩
      rwa [hNew, added_append]
  · rintro _ _ x ⟨⟩
    exact hCalls x rfl

theorem waiters_keep (told : (c : Call) → Answer c → Prop) :
    (waiters told).Keeps (fun _ e => LeavesUnforwarded e ∧ ¬Opens e) fun _ past s => HeldBack past s where
  keep _ _ := rfl
  answered _ _ _ _ _ _ _ := trivial
  fits h _ := h.idle
  takes h _ hTakes _ := ⟨(), h.takes hTakes⟩
  goes h _ hMoves hAllowed := h.goes hMoves.1 hMoves.2 hAllowed.2
  done h _ _ := h.still rfl rfl h.unforwarded (by simp) (by simp)
  outside {_ past s _ s' _} h hOutside hAllowed := by
    have hUnforwarded : s'.forwards = false := hAllowed.1 rfl h.unforwarded
    have hOutside : Outside s s' := hOutside
    cases hOutside with
    | dispatch q =>
      rw [dispatch_eq] at hUnforwarded ⊢
      refine h.still ?_ ?_ hUnforwarded (by simp) (by simp) <;> cases route q.command <;> rfl
    | book _ => exact h.still rfl rfl hUnforwarded (by simp) (by simp)
    | streams _ _ => exact h.still rfl rfl hUnforwarded (by simp) (by simp)

/-- Whatever debuggees publish and write, and however the workers come in between each other: until a request of the
client or the end of a debuggee ends the configuration, the client is told nothing of debuggees but what they publish,
and lets them run itself if they run. -/
theorem held_back {now : Stage} (h : (company told).Leads (opening journal) past now)
    (hOutput : ∀ e ∈ past, LeavesUnforwarded e) (hNot : ∀ e ∈ past, ¬Opens e) : HeldBack past now.state := by
  have hRuled := h.by_all fun e he => And.intro (hOutput e he) (hNot e he)
  obtain ⟨-, -, hHeld⟩ := hRuled.plays_roles (waiters_keep told) (fun _ => id) (fun _ => rfl) ⟨rfl, rfl, by simp, nofun, by simp⟩
  exact hHeld

/-! ## A run

The debuggee reports that it has stopped while the job that lets it run waits. What it writes then is held back. -/

def stoppedWhileWaiting : List PartyCue :=
  [.outside attachRequest] ++ engages .launcherLane 11 ++ [.isDone launcher] ++ engages .launcherLane 1 ++
    [.takesUp (.publisher 0) (some (7, .breakpointHit 1))] ++ List.replicate 2 (.goesOn (.publisher 0)) ++
    [.isDone (.publisher 0)]

/-- Neither has the configuration ended nor is anything forwarded. -/
def waits (e : Occurrence) : Bool := e.after.phase = .idle && !e.after.forwards

theorem unopened_of_waits (h : past.all waits = true) : ∀ e ∈ past, LeavesUnforwarded e ∧ ¬Opens e := by
  have hAll : ∀ e ∈ past, e.after.phase = .idle ∧ e.after.forwards = false := by simpa [waits] using h
  exact fun e he => ⟨fun _ _ => (hAll e he).2, fun hOpens => hOpens.1 (hAll e he).1⟩

/-- The run may go on with what a debuggee does to its streams. -/
theorem leads_writing {start now : Stage} (h : (company told).Leads start past now)
    (hUnopened : ∀ e ∈ past, LeavesUnforwarded e ∧ ¬Opens e) (hOutside : Outside now.state s)
    (hForwards : s.forwards = now.state.forwards) : ∃ past', (company told).Leads start past' { now with state := s } ∧
      ∀ e ∈ past', LeavesUnforwarded e ∧ ¬Opens e := by
  refine ⟨past ++ [⟨.outside, now.state, s⟩], h.snoc (.outside hOutside), List.forall_mem_append.mpr ⟨hUnopened, ?_⟩⟩
  refine List.forall_mem_singleton.mpr ⟨fun _ hBefore => hForwards.trans hBefore, ?_⟩
  rintro ⟨-, k, task, asked, hTurn, -⟩
  cases hTurn

theorem held_back_writing : ∃ past now, (company fun c a => attachable c = some a).Leads (opening none) past now ∧
    (∀ e ∈ past, LeavesUnforwarded e) ∧ (∀ e ∈ past, ¬Opens e) ∧ now.state.debuggee = some 7 ∧
    now.state.streams.map (·.2.incoming) = [[104, 105, 10]] ∧ HeldBack past now.state := by
  have hStopped := attaching.leads_ending stoppedWhileWaiting (opening none)
  obtain ⟨_, hAdded, hUnopened⟩ := leads_writing hStopped (unopened_of_waits (by decide +kernel))
    (outside_addStream { debuggee := 7, category := "stdout" } _) (forwards_addStream rfl _)
  obtain ⟨_, hWritten, hUnopened⟩ := leads_writing hAdded hUnopened (outside_writeStream 7 "stdout" [104, 105, 10] _)
    (forwards_writeStream ..)
  have hOutput := fun e he => (hUnopened e he).1
  have hNot := fun e he => (hUnopened e he).2
  exact ⟨_, _, hWritten, hOutput, hNot, rfl, rfl, held_back hWritten hOutput hNot⟩

/-- The client is told that a thread has stopped although the configuration has not ended. -/
theorem stopped_before_configured : ∃ past now, (company fun c a => attachable c = some a).Leads (opening none) past now ∧
    (∀ e ∈ past, LeavesUnforwarded e) ∧ (∀ e ∈ past, ¬Opens e) ∧
    now.state.outbox.getLast? = some (.stopped "breakpoint" (threadToClient 1)) := by
  have hStopped := attaching.leads_ending stoppedWhileWaiting (opening none)
  have hWaits : (attaching.story stoppedWhileWaiting (opening none)).all waits = true := by decide +kernel
  have hUnopened := unopened_of_waits hWaits
  exact ⟨_, _, hStopped, fun e he => (hUnopened e he).1, fun e he => (hUnopened e he).2, rfl⟩

end JvmDebug.Session
