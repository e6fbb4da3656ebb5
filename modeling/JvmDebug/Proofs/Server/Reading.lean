import JvmDebug.Proofs.Dap.Framing
import JvmDebug.Proofs.Routine.Bounds
import JvmDebug.Proofs.Routine.Replay
import JvmDebug.Proofs.Server.Requests
import JvmDebug.Proofs.Session.Scene
import JvmDebug.Server

/-!
# What the server makes of a stream of frames

The reader, the writer and the workers of the adapter, side by side. Bytes arrive from the client until it ends its
stream, and whatever else the adapter has to do with may change it at any time.

The reader of a server hands over the requests among the messages of the frames, each once and in their order, however
the bytes come in and whatever else goes on. Other messages change nothing but the journal.
-/

namespace JvmDebug.Server
set_option autoImplicit false

/-! ## The server at work -/

/-- What a worker of the server is at. -/
inductive Task where
  | receive (body : String)
  | close
  | fail (why : OsError)
  | write (m : Dap.Outgoing)
  | work

/-- What a worker takes up next. -/
def Worker.task? (s : Server) : Worker → Option Task
  | reader =>
    match Dap.Framing.read s.ended s.incoming with
    | .incomplete => none
    | .message body _ => some (.receive body)
    | .failed why => some (.fail why)
    | .ended => some .close
  | writer => s.adapter.session.outbox.head?.map .write
  | adapter _ => some .work

structure Takes (w : Worker) (task : Task) (s : Server) (r : Activity Unit) (s' : Server) : Prop where
  task : w.task? s = some task
  take : s.take w = some (r, s')

/-- What comes of itself: bytes of the client and the end of its stream, and whatever happens to the adapter. What has
been written is taken away. -/
inductive Outside (s : Server) : Server → Prop where
  | receive (bytes : Bytes) : s.ended = false → Outside s (s.receive bytes)
  | endInput : Outside s s.endInput
  | collect : Outside s s.collect.2
  | adapter (adapter : Adapter) : Outside s (s.putAdapter adapter)

def setting (told : (c : Host.Call) → Host.Answer c → Prop) : Setting Worker Task Server Host Unit fun _ => Unit where
  takes := Takes
  answers _ c a _ := told c a
  keep := plan.keep
  outside s _ s' _ := Outside s s'

/-- Cues for a server: bytes of the client, or the end of its stream. -/
def script (told : (c : Host.Call) → Host.Answer c → Prop) : Script (setting told) Unit (Option Bytes) where
  take? w _ s := do
    let task ← w.task? s
    let (r, s') ← s.take w
    return (task, r, s')
  answer? _ _ := none
  come? bytes s m :=
    match bytes with
    | some bytes => if s.ended then none else some (s.receive bytes, m)
    | none => some (s.endInput, m)
  takes {w hint s task r s'} h := by
    obtain ⟨task', hTask, h⟩ := Option.bind_eq_some_iff.mp h
    obtain ⟨⟨r', s₁⟩, hTake, h⟩ := Option.bind_eq_some_iff.mp h
    cases h
    exact ⟨hTask, hTake⟩
  answers h := by cases h
  outside {bytes s m s' m'} h := by
    cases bytes with
    | none =>
      cases h
      exact .endInput
    | some bytes =>
      dsimp only at h
      split at h
      · cases h
      · next hOpen =>
        cases h
        exact .receive bytes (by simpa using hOpen)

abbrev Stage := Scene Worker Task Server Host Unit fun _ => Unit
abbrev Happening := Moment Worker Task Server Host

/-- A server to which nothing has come yet. -/
def fresh (adapter : Adapter) : Stage := .idle { adapter } ()

/-- The server as it may be, after all that has happened. -/
abbrev Comes (told : (c : Host.Call) → Host.Answer c → Prop) (adapter : Adapter) (past : List Happening) (s : Stage) :
    Prop :=
  (setting told).Leads (fresh adapter) past s

/-! ## What the reader hands over -/

open Dap.Framing

variable {told : (c : Host.Call) → Host.Answer c → Prop} {adapter : Adapter} {past : List Happening} {s s' : Stage}

/-! What has come and what has been handed over -/

def Happening.received (e : Happening) : Bytes :=
  match e.turn with
  | .outside => added e.before.incoming e.after.incoming
  | _ => []

/-- The bytes that have come from the client. -/
def received (past : List Happening) : Bytes := past.flatMap Happening.received

def Happening.handed (e : Happening) : List Dap.Request :=
  match e.turn with
  | .goesOn .reader (.receive _) _ => Session.queued e.before.adapter.session e.after.adapter.session
  | _ => []

/-- The requests that the reader has put on the lanes of the session. -/
def handed (past : List Happening) : List Dap.Request := past.flatMap Happening.handed

/-- The requests among the messages of some frames. -/
def requestsOf (frames : List Frame) : List Dap.Request := frames.filterMap fun f => requestIn? f.body

/-- The server with another journal. -/
def withJournal (journal : Option Log.Journal) (s : Server) : Server :=
  s.putAdapter (s.adapter.putSession { s.adapter.session with journal })

theorem received_snoc (past : List Happening) (e : Happening) : received (past ++ [e]) = received past ++ e.received := by
  simp [received]

theorem handed_snoc (past : List Happening) (e : Happening) : handed (past ++ [e]) = handed past ++ e.handed := by
  simp [handed]

/-! What others leave alone -/

/-- Whether the stream of the client is left alone. -/
structure Aside (s s' : Server) : Prop where
  incoming : s'.incoming = s.incoming
  ended : s'.ended = s.ended
  closing : s'.closing = s.closing

theorem Aside.refl (s : Server) : Aside s s := ⟨rfl, rfl, rfl⟩

def aside : Bounds Server Host := ⟨Aside, fun _ => True, plan.keep⟩

theorem onAdapter_aside {α : Type} (r : Adapter.Activity α) : (onAdapter r).Within aside fun _ => True := by
  induction r with
  | done a => trivial
  | atomic change next ih => exact fun s => ⟨⟨rfl, rfl, rfl⟩, ih s.adapter⟩
  | wait ready change limit next ih => exact ⟨fun s => ⟨fun _ => ⟨rfl, rfl, rfl⟩, fun _ => .refl s⟩, ih⟩
  | call c next ih => exact ⟨trivial, .refl, ih⟩
  | note r next ih => exact ⟨fun s => ⟨rfl, rfl, rfl⟩, ih⟩

theorem close_aside : close.Within aside fun _ => True := by
  refine Routine.within_then (Routine.within_log.mpr ⟨fun s => ⟨rfl, rfl, rfl⟩, trivial⟩) fun _ => ?_
  refine Routine.within_then (onAdapter_aside _) fun x => ?_
  have hDone : (Routine.modify fun s => { s with result := some (.ok ()) } : Activity Unit).Within aside fun _ => True :=
    fun s => ⟨⟨rfl, rfl, rfl⟩, trivial⟩
  cases x with
  | ok _ => exact hDone
  | error e => exact Routine.within_then (Routine.within_log.mpr ⟨fun s => ⟨rfl, rfl, rfl⟩, trivial⟩) fun _ => hDone

/-! One step of the reader -/

/-- Records of the server go to the journal, and not to the client. -/
theorem keep_of_server {r : Log.Record} (hPart : r.part = .server) (s : Server) :
    ∃ journal, plan.keep r s = s.withJournal journal := by
  have hKeep : ∃ journal, s.adapter.session.keep r = { s.adapter.session with journal } := by
    have hQuiet : r.isForConsole = false := by simp [Log.Record.isForConsole, hPart]
    rw [Session.keep]
    split
    · exact ⟨_, rfl⟩
    · next j hJournal =>
      split
      · exact ⟨some (j.write r), by simp only [hQuiet, Bool.false_eq_true, if_false]⟩
      · exact ⟨_, rfl⟩
  obtain ⟨journal, hKeep⟩ := hKeep
  refine ⟨journal, ?_⟩
  change s.putAdapter (s.adapter.putSession (s.adapter.session.keep r)) = _
  rw [hKeep, withJournal]

/-- A step of the reader notes something, or hands over the request that it owes. -/
theorem Handing.step {q : Option Dap.Request} {r r' : Activity Unit} {s s' : Server} {m m' : Unit}
    {asked : Option (Asked Host)} (h : Handing q r)
    (hStep : r.Step (setting told).answers plan.keep s m asked r' s' m') :
    (Handing q r' ∧ ∃ journal, s' = s.withJournal journal) ∨ ∃ x, q = some x ∧ Handing none r' ∧ s' = s.dispatch x := by
  cases h with
  | note hPart hNext =>
    cases hStep
    exact .inl ⟨hNext, keep_of_server hPart s⟩
  | handsOver hNext =>
    cases hStep
    exact .inr ⟨_, rfl, hNext s, rfl⟩
  | done => cases hStep

/-! What is taken up -/

/-- The reader takes up the message at the front of what has come, or the end of the stream. -/
theorem Takes.reader_cases {task : Task} {s s' : Server} {r : Activity Unit} (h : Takes .reader task s r s') :
    s.closing = false ∧
      ((∃ body rest, read s.ended s.incoming = .message body rest ∧ task = .receive body ∧ r = receiveText body ∧
          s' = { s with incoming := rest }) ∨
        (∃ why, read s.ended s.incoming = .failed why ∧ task = .fail why ∧ r = .done () ∧ s' = s.fail why) ∨
        (read s.ended s.incoming = .ended ∧ task = .close ∧ r = close ∧ s' = { s with closing := true })) := by
  obtain ⟨hTask, hTake⟩ := h
  rw [Worker.task?] at hTask
  change takeInput s = some (r, s') at hTake
  rw [takeInput] at hTake
  split at hTake
  · cases hTake
  · next hOpen =>
    refine ⟨by simpa using hOpen, ?_⟩
    cases hRead : read s.ended s.incoming with
    | incomplete =>
      rw [hRead] at hTask
      cases hTask
    | message body rest =>
      rw [hRead] at hTask hTake
      cases hTask
      cases hTake
      exact .inl ⟨body, rest, rfl, rfl, rfl, rfl⟩
    | failed why =>
      rw [hRead] at hTask hTake
      cases hTask
      cases hTake
      exact .inr (.inl ⟨why, rfl, rfl, rfl, rfl⟩)
    | ended =>
      rw [hRead] at hTask hTake
      cases hTask
      cases hTake
      exact .inr (.inr ⟨rfl, rfl, rfl, rfl⟩)

/-- What another worker takes up leaves the stream alone. -/
theorem Takes.aside {w : Worker} {task : Task} {s s' : Server} {r : Activity Unit} (h : Takes w task s r s')
    (hOther : w ≠ .reader) : Aside s s' ∧ r.Within aside fun _ => True := by
  have hTake := h.take
  cases w with
  | reader => exact absurd rfl hOther
  | writer =>
    change takeOutput s = some (r, s') at hTake
    rw [takeOutput] at hTake
    split at hTake
    · cases hTake
    · cases hTake
      exact ⟨⟨rfl, rfl, rfl⟩, trivial⟩
  | adapter w =>
    obtain ⟨⟨job, adapter⟩, -, hEq⟩ := Option.map_eq_some_iff.mp hTake
    cases hEq
    exact ⟨⟨rfl, rfl, rfl⟩, onAdapter_aside job⟩

/-! A whole run -/

/-- What the reader still owes of the message that it is at. -/
def Owes : Option (Task × Activity Unit) → Option Dap.Request → Prop
  | some (.receive body, r), q => Handing q r ∧ ∀ x ∈ q, requestIn? body = some x
  | some (_, r), q => q = none ∧ r.Within aside fun _ => True
  | none, q => q = none

/-- How far the reader has come in a stream of frames, of which some bytes are still missing. -/
def Reaches (frames : List Frame) (last : List Ending) (missing : Bytes) (past : List Happening) (s : Stage) : Prop :=
  ∃ done todo q, frames = done ++ todo ∧ s.state.incoming ++ missing = stream todo last ∧
    (s.state.closing = true → s.state.ended = true ∧ (missing = [] → todo = [])) ∧ Owes (s.busy .reader) q ∧
    handed past ++ q.toList = requestsOf done

/-- A moment of the reader at a message notes something or hands over the request that the message is. -/
def Happening.IsProper (e : Happening) : Prop :=
  ∀ body asked, e.turn = .goesOn .reader (.receive body) asked →
    (∃ journal, e.after = e.before.withJournal journal) ∨ ∃ x, requestIn? body = some x ∧ e.after = e.before.dispatch x

theorem Happening.isProper_of_other {e : Happening} (h : ∀ body asked, e.turn ≠ .goesOn .reader (.receive body) asked) :
    e.IsProper :=
  fun body asked hGoes => absurd hGoes (h body asked)

variable {frames : List Frame} {last : List Ending} {missing : Bytes}

theorem queued_withJournal (journal : Option Log.Journal) (s : Server) :
    Session.queued s.adapter.session (s.withJournal journal).adapter.session = [] :=
  Session.queued_of_same rfl rfl rfl

theorem queued_dispatch (x : Dap.Request) (s : Server) :
    Session.queued s.adapter.session (s.dispatch x).adapter.session = [x] :=
  Session.queued_dispatch x s.adapter.session

/-- The reader comes no further while the stream is left alone and it is somebody else's turn. -/
theorem Reaches.of_other {e : Happening} (h : Reaches frames last missing past s) (hAside : Aside s.state s'.state)
    (hReader : s'.busy .reader = s.busy .reader) (hTurn : e.turn.worker? ≠ some .reader) :
    Reaches frames last missing (past ++ [e]) s' := by
  obtain ⟨done, todo, q, hFrames, hStream, hClosing, hOwes, hHanded⟩ := h
  have hNone : e.handed = [] := by
    rw [Happening.handed]
    split
    · next hGoes => exact absurd (by rw [hGoes]; rfl) hTurn
    · rfl
  refine ⟨done, todo, q, hFrames, hAside.incoming ▸ hStream, ?_, hReader ▸ hOwes, ?_⟩
  · rw [hAside.closing, hAside.ended]
    exact hClosing
  · rw [handed_snoc, hNone, List.append_nil, hHanded]

/-- The reader takes up what is at the front of what has come. -/
theorem Reaches.takes (hFits : ∀ f ∈ frames, f.Fits) (h : Reaches frames last missing past s) {task : Task}
    {r : Activity Unit} {state : Server} (hFree : s.busy .reader = none) (hTakes : Takes .reader task s.state r state) :
    Reaches frames last missing (past ++ [⟨.takesUp .reader task, s.state, state⟩])
      { s.put .reader (some (task, r)) with state } := by
  obtain ⟨done, todo, q, hFrames, hStream, -, hOwes, hHanded⟩ := h
  rw [hFree] at hOwes
  obtain rfl := hOwes
  have hTodo : ∀ f ∈ todo, f.Fits := fun f hf => hFits f (hFrames ▸ List.mem_append_right _ hf)
  have hStill : handed (past ++ [⟨.takesUp .reader task, s.state, state⟩]) = requestsOf done := by
    rw [handed_snoc, ← hHanded]
    rfl
  rcases hTakes.reader_cases with ⟨hOpen, ⟨body, rest, hRead, rfl, rfl, rfl⟩ | ⟨why, hRead, rfl, rfl, rfl⟩ |
    ⟨hRead, rfl, rfl, rfl⟩⟩
  · obtain ⟨f, others, rfl, rfl, hRest⟩ := read_of_prefix hTodo hStream hRead
    refine ⟨done ++ [f], others, requestIn? f.body, by rw [hFrames, List.append_assoc]; rfl, hRest, ?_, ?_, ?_⟩
    · exact fun hClosing => absurd (hOpen.symm.trans hClosing) Bool.false_ne_true
    · simpa [Owes, Scene.put] using receiveText_handing f.body
    · rw [hStill, requestsOf, requestsOf, List.filterMap_append]
      cases hRequest : requestIn? f.body <;> simp [hRequest]
  · have hNothing : (Routine.done () : Activity Unit).Within aside fun _ => True := trivial
    refine ⟨done, todo, none, hFrames, hStream, fun _ => end_of_prefix hTodo hStream (.inr ⟨why, hRead⟩), ?_, ?_⟩
    · simpa [Owes, Scene.put] using hNothing
    · rw [hStill, Option.toList_none, List.append_nil]
  · refine ⟨done, todo, none, hFrames, hStream, fun _ => end_of_prefix hTodo hStream (.inl hRead), ?_, ?_⟩
    · simpa [Owes, Scene.put] using close_aside
    · rw [hStill, Option.toList_none, List.append_nil]

/-- The reader goes on with what it is at. -/
theorem Reaches.goesOn (h : Reaches frames last missing past s) {task : Task} {r r' : Activity Unit}
    {asked : Option (Asked Host)} {state : Server} {world : Unit} (hBusy : s.busy .reader = some (task, r))
    (hStep : r.Step (setting told).answers plan.keep s.state s.world asked r' state world) :
    Happening.IsProper ⟨.goesOn .reader task asked, s.state, state⟩ ∧
      Reaches frames last missing (past ++ [⟨.goesOn .reader task asked, s.state, state⟩])
        { s.put .reader (some (task, r')) with state, world } := by
  obtain ⟨done, todo, q, hFrames, hStream, hClosing, hOwes, hHanded⟩ := h
  rw [hBusy] at hOwes
  -- The stream is left alone, so that only what is owed has to be looked at.
  have hNext : ∀ q', Aside s.state state → Owes (some (task, r')) q' →
      handed (past ++ [⟨.goesOn .reader task asked, s.state, state⟩]) ++ q'.toList = requestsOf done →
      Reaches frames last missing (past ++ [⟨.goesOn .reader task asked, s.state, state⟩])
        { s.put .reader (some (task, r')) with state, world } := by
    intro q' hAside hOwes' hHanded'
    refine ⟨done, todo, q', hFrames, hAside.incoming ▸ hStream, ?_, ?_, hHanded'⟩
    · rw [hAside.closing, hAside.ended]
      exact hClosing
    · simpa [Scene.put] using hOwes'
  cases task with
  | receive body =>
    obtain ⟨hHanding, hRequest⟩ := hOwes
    rcases hHanding.step hStep with ⟨hRest, journal, rfl⟩ | ⟨x, rfl, hRest, rfl⟩
    · refine ⟨fun _ _ _ => .inl ⟨journal, rfl⟩, hNext q ⟨rfl, rfl, rfl⟩ ⟨hRest, hRequest⟩ ?_⟩
      rw [handed_snoc, Happening.handed, queued_withJournal, List.append_nil, hHanded]
    · refine ⟨fun body' _ hGoes => .inr ⟨x, ?_, rfl⟩, hNext none ⟨rfl, rfl, rfl⟩ ⟨hRest, by simp⟩ ?_⟩
      · cases hGoes
        exact hRequest x rfl
      · rw [handed_snoc, Happening.handed, queued_dispatch, ← hHanded, Option.toList_none, List.append_nil]
        rfl
  | _ =>
    obtain ⟨rfl, hWithin⟩ := hOwes
    obtain ⟨hAside, hRest, -⟩ := hWithin.step hStep
    refine ⟨Happening.isProper_of_other (by simp), hNext none hAside ⟨rfl, hRest⟩ ?_⟩
    rw [handed_snoc, Happening.handed, List.append_nil, hHanded]

/-- The reader is done with a message when it owes nothing of it. -/
theorem Reaches.isDone (h : Reaches frames last missing past s) {task : Task} {a : Unit}
    (hBusy : s.busy .reader = some (task, .done a)) :
    Reaches frames last missing (past ++ [⟨.isDone .reader task, s.state, s.state⟩]) (s.put .reader none) := by
  obtain ⟨done, todo, q, hFrames, hStream, hClosing, hOwes, hHanded⟩ := h
  rw [hBusy] at hOwes
  have hNone : q = none := by
    cases task with
    | receive body =>
      obtain ⟨hHanding, -⟩ := hOwes
      cases hHanding
      rfl
    | _ => exact hOwes.1
  refine ⟨done, todo, q, hFrames, hStream, hClosing, by simpa [Owes] using hNone, ?_⟩
  rw [handed_snoc, ← hHanded]
  simp [Happening.handed]

/-- What comes from outside is more of the stream, or leaves it alone. -/
theorem Reaches.outside {e : Happening} {state : Server} {world : Unit} (hTurn : e = ⟨.outside, s.state, state⟩)
    (h : Reaches frames last (e.received ++ missing) past s) (hOutside : Outside s.state state) :
    Reaches frames last missing (past ++ [e]) { s with state, world } := by
  subst hTurn
  obtain ⟨done, todo, q, hFrames, hStream, hClosing, hOwes, hHanded⟩ := h
  have hStill : handed (past ++ [⟨.outside, s.state, state⟩]) = handed past := by
    rw [handed_snoc]
    exact List.append_nil _
  rw [← hStill] at hHanded
  cases hOutside with
  | receive bytes hOpen =>
    have hReceived : Happening.received ⟨.outside, s.state, s.state.receive bytes⟩ = bytes := added_append ..
    rw [hReceived] at hStream hClosing
    refine ⟨done, todo, q, hFrames, ?_, fun hHere => ?_, hOwes, hHanded⟩
    · change (s.state.incoming ++ bytes) ++ missing = _
      rw [List.append_assoc, hStream]
    · exact absurd (hOpen.symm.trans (hClosing hHere).1) Bool.false_ne_true
  | endInput =>
    have hReceived : Happening.received ⟨.outside, s.state, s.state.endInput⟩ = [] := added_self _
    rw [hReceived] at hStream hClosing
    exact ⟨done, todo, q, hFrames, hStream, fun hHere => ⟨rfl, (hClosing hHere).2⟩, hOwes, hHanded⟩
  | collect =>
    have hReceived : Happening.received ⟨.outside, s.state, s.state.collect.2⟩ = [] := added_self _
    rw [hReceived] at hStream hClosing
    exact ⟨done, todo, q, hFrames, hStream, hClosing, hOwes, hHanded⟩
  | adapter adapter =>
    have hReceived : Happening.received ⟨.outside, s.state, s.state.putAdapter adapter⟩ = [] := added_self _
    rw [hReceived] at hStream hClosing
    exact ⟨done, todo, q, hFrames, hStream, hClosing, hOwes, hHanded⟩

/-- What the other workers are at leaves the stream alone. -/
def OthersAside (s : Stage) : Prop :=
  ∀ w task r, w ≠ .reader → s.busy w = some (task, r) → r.Within aside fun _ => True

theorem OthersAside.step {e : Happening} (h : OthersAside s) (hHappens : (setting told).Happens s e s') :
    OthersAside s' := by
  intro w task r hOther hBusy
  rcases hHappens.busy_cases hBusy with ⟨-, hTakes⟩ | ⟨asked, r', -, hBefore, hStep⟩ | ⟨-, hBefore⟩
  · exact (Takes.aside hTakes hOther).2
  · exact ((h w task r' hOther hBefore).step hStep).2.1
  · exact h w task r hOther hBefore

theorem Reaches.step (hFits : ∀ f ∈ frames, f.Fits) (hOthers : OthersAside s) {e : Happening}
    (h : Reaches frames last (e.received ++ missing) past s) (hHappens : (setting told).Happens s e s') :
    e.IsProper ∧ Reaches frames last missing (past ++ [e]) s' := by
  cases hHappens with
  | @takesUp w task r state hFree hTakes =>
    by_cases hReader : w = .reader
    · subst hReader
      exact ⟨Happening.isProper_of_other (by simp), h.takes hFits hFree hTakes⟩
    · have hTurn : Turn.worker? (.takesUp w task : Turn Worker Task Host) ≠ some .reader := by simpa [Turn.worker?] using hReader
      refine ⟨Happening.isProper_of_other (by simp), ?_⟩
      exact Reaches.of_other h (Takes.aside hTakes hReader).1 (Scene.busy_put_of_ne (Ne.symm hReader) ..) hTurn
  | @goesOn w task r r' asked state world hBusy hStep =>
    by_cases hReader : w = .reader
    · subst hReader
      exact h.goesOn hBusy hStep
    · have hTurn : Turn.worker? (.goesOn w task asked : Turn Worker Task Host) ≠ some .reader := by
        simpa [Turn.worker?] using hReader
      refine ⟨fun body asked hGoes => ?_, ?_⟩
      · cases hGoes
        exact absurd rfl hReader
      · have hAside := ((hOthers w task r hReader hBusy).step hStep).1
        exact Reaches.of_other h hAside (Scene.busy_put_of_ne (Ne.symm hReader) ..) hTurn
  | @isDone w task a hBusy =>
    by_cases hReader : w = .reader
    · subst hReader
      exact ⟨Happening.isProper_of_other (by simp), h.isDone hBusy⟩
    · have hTurn : Turn.worker? (.isDone w task : Turn Worker Task Host) ≠ some .reader := by simpa [Turn.worker?] using hReader
      refine ⟨Happening.isProper_of_other (by simp), ?_⟩
      exact Reaches.of_other h (.refl _) (Scene.busy_put_of_ne (Ne.symm hReader) ..) hTurn
  | outside hOutside => exact ⟨Happening.isProper_of_other (by simp), Reaches.outside rfl h hOutside⟩

theorem Leads.reaches (hFits : ∀ f ∈ frames, f.Fits) (hLeads : Comes told adapter past s)
    (hReceived : received past ++ missing = stream frames last) :
    OthersAside s ∧ (∀ e ∈ past, e.IsProper) ∧ Reaches frames last missing past s := by
  induction hLeads generalizing missing with
  | nil =>
    refine ⟨fun _ _ _ _ hBusy => (nomatch hBusy), fun e he => absurd he List.not_mem_nil, ?_⟩
    exact ⟨[], frames, none, rfl, hReceived, fun hClosing => absurd hClosing Bool.false_ne_true, rfl, rfl⟩
  | @snoc past e s s' _ hHappens ih =>
    rw [received_snoc, List.append_assoc] at hReceived
    obtain ⟨hOthers, hProper, hReaches⟩ := ih hReceived
    obtain ⟨hHere, hNext⟩ := hReaches.step hFits hOthers hHappens
    refine ⟨hOthers.step hHappens, fun e' he' => ?_, hNext⟩
    rcases List.mem_append.mp he' with he' | he'
    · exact hProper e' he'
    · rw [List.mem_singleton.mp he']
      exact hHere

/-- What a server makes of a stream of frames. -/
structure Serves (frames : List Frame) (last : List Ending) (past : List Happening) (s : Stage) : Prop where
  inOrder : handed past <+: requestsOf frames
  /-- When the whole stream has come and the reader has nothing more to do, all requests have been handed over. -/
  all : received past = stream frames last → s.busy .reader = none → s.state.take .reader = none →
    handed past = requestsOf frames
  proper : ∀ e ∈ past, e.IsProper

/-- Frames delimit themselves, and a server hands the session the requests among their messages, each once and in their
order, whichever bytes come when and whatever else goes on; any other message leaves all but the journal as it was. -/
theorem frames_are_served (told : (c : Host.Call) → Host.Answer c → Prop) (adapter : Adapter) (frames : List Frame)
    (last : List Ending) (hFits : ∀ f ∈ frames, f.Fits) :
    (∀ body, (⟨body, [], [], .crlf, .crlf, []⟩ : Frame).bytes = Dap.Framing.write body) ∧ Delimits frames last ∧
      ∀ past s, Comes told adapter past s → received past <+: stream frames last → Serves frames last past s := by
  refine ⟨Frame.bytes_plain, delimits hFits last, fun past s hComes hPrefix => ?_⟩
  obtain ⟨missing, hReceived⟩ := hPrefix
  obtain ⟨-, hProper, done, todo, q, hFrames, hStream, hClosing, hOwes, hHanded⟩ := Leads.reaches hFits hComes hReceived
  have hSplit : requestsOf frames = requestsOf done ++ requestsOf todo := by
    rw [hFrames, requestsOf, requestsOf, requestsOf, List.filterMap_append]
  refine ⟨?_, fun hAll hFree hRests => ?_, hProper⟩
  · rw [hSplit, ← hHanded, List.append_assoc]
    exact List.prefix_append ..
  · have hNone : missing = [] := by
      rw [hAll] at hReceived
      exact List.append_right_eq_self.mp hReceived
    rw [hFree] at hOwes
    obtain rfl := hOwes
    have hDone : todo = [] := by
      cases todo with
      | nil => rfl
      | cons f others =>
        have hHere : f.Fits := hFits f (hFrames ▸ List.mem_append_right _ List.mem_cons_self)
        rw [hNone, List.append_nil, stream, List.foldr_cons] at hStream
        change takeInput s.state = none at hRests
        rw [takeInput, hStream, Frame.read_bytes hHere] at hRests
        split at hRests
        · next hClosed => exact (hClosing hClosed).2 hNone
        · cases hRests
    rw [hSplit, hDone, ← hHanded]
    simp [requestsOf]

/-! Runs -/

section Runs

/-- What the client sends, and what the reader does then: it takes up a message and notes twice or hands over. -/
abbrev Cues := List (Cue Worker Unit (Option Bytes))

def readsMessage : Cues := [.takesUp .reader (), .goesOn .reader, .goesOn .reader, .isDone .reader]

def contentType : HeaderLine where
  content := "Content-Type: \u00e9"
  ending := .lf
  oneLine := by decide
  notEmpty e := by cases e <;> decide
  noLength := by decide

/-- A request, and a message that is none and has other header lines around its length. -/
def twoFrames : List Frame :=
  [⟨"\x7b\"seq\":1,\"type\":\"request\",\"command\":\"threads\"\x7d", [], [], .crlf, .crlf, []⟩,
    ⟨"[\"\u00e9\"]", [contentType], [contentType], .lf, .lf, [.lf, .crlf]⟩]

theorem twoFrames_fit : ∀ f ∈ twoFrames, f.Fits := by decide +kernel

/-- The bytes come in two parts. -/
def twoFramesCues : Cues :=
  [.outside (some ((stream twoFrames [.crlf]).take 30)), .outside (some ((stream twoFrames [.crlf]).drop 30))] ++
    readsMessage ++ readsMessage

theorem two_frames_are_served : ∃ past s, Comes (fun _ _ => True) {} past s ∧
    received past = stream twoFrames [.crlf] ∧ (handed past).map (fun r => (r.seq, r.command)) = [(1, "threads")] := by
  obtain ⟨past, s, hComes, hCheck⟩ := (script fun _ _ => True).leads_of_check twoFramesCues (fresh {})
    (fun past s => received past == stream twoFrames [.crlf] && (s.busy .reader).isNone && (s.state.take .reader).isNone)
    (by decide +kernel)
  simp only [Bool.and_eq_true, beq_iff_eq, Option.isNone_iff_eq_none] at hCheck
  obtain ⟨⟨hReceived, hFree⟩, hRests⟩ := hCheck
  have hServes := (frames_are_served (fun _ _ => True) {} twoFrames [.crlf] twoFrames_fit).2.2 past s hComes
    (hReceived ▸ List.prefix_rfl)
  refine ⟨past, s, hComes, hReceived, ?_⟩
  rw [hServes.all hReceived hFree hRests]
  decide +kernel

/-- A request whose number is whole, but too large for 64 bits. -/
def largeRequest : String := "\x7b\"seq\":9223372036854775808,\"type\":\"request\",\"command\":\"threads\"\x7d"

/-- A message that is an object of the type of requests, with a whole number and a command. -/
def saysRequest (message : Json) (seq : Int) (command : String) : Bool :=
  match message.get? "type", message.get? "seq", message.get? "command" with
  | some (.str kind), some (.int n), some (.str name) => kind == "request" && n == seq && name == command
  | _, _, _ => false

/-- Such a message is not handed over. -/
theorem large_request_is_not_served :
    (∃ message, Json.parse? largeRequest = some message ∧ saysRequest message 9223372036854775808 "threads" = true) ∧
    ∃ past s, Comes (fun _ _ => True) {} past s ∧ received past = Dap.Framing.write largeRequest ∧
      s.busy .reader = none ∧ s.state.take .reader = none ∧ handed past = [] := by
  have hMessage : (Json.parse? largeRequest).any (saysRequest · 9223372036854775808 "threads") = true := by decide +kernel
  obtain ⟨past, s, hComes, hCheck⟩ := (script fun _ _ => True).leads_of_check
    (.outside (some (Dap.Framing.write largeRequest)) :: readsMessage) (fresh {})
    (fun past s => received past == Dap.Framing.write largeRequest && (s.busy .reader).isNone &&
      (s.state.take .reader).isNone && (handed past).isEmpty)
    (by decide +kernel)
  simp only [Bool.and_eq_true, beq_iff_eq, Option.isNone_iff_eq_none, List.isEmpty_iff] at hCheck
  obtain ⟨⟨⟨hReceived, hFree⟩, hRests⟩, hNone⟩ := hCheck
  exact ⟨(Option.any_eq_true ..).mp hMessage, past, s, hComes, hReceived, hFree, hRests, hNone⟩

end Runs

end JvmDebug.Server
