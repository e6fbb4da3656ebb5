import JvmDebug.Proofs.Routine.Advancing
import JvmDebug.Proofs.Server.Reading

/-!
# What is left when serving is over

Serving comes to an end when the client ends its stream, or when the stream holds what is no message. In the first case
the debuggee of the session has been asked to disconnect before the outcome is there; in the second case nothing of that
has been done.
-/

namespace JvmDebug.Server
set_option autoImplicit false

variable {told : (c : Host.Call) → Host.Answer c → Prop} {adapter : Adapter} {past : List Happening} {s s' : Stage}

/-! ## Steps that leave the outcome alone -/

/-- Whether it is left alone what came of serving, and whether the server has looked at the end of the stream. -/
structure Quiet (s s' : Server) : Prop where
  closing : s'.closing = s.closing
  result : s'.result = s.result

theorem Quiet.refl (s : Server) : Quiet s s := ⟨rfl, rfl⟩

def quiet : Bounds Server Host := ⟨Quiet, fun _ => True, plan.keep⟩

theorem onAdapter_quiet {α : Type} (r : Adapter.Activity α) : (onAdapter r).Within quiet fun _ => True := by
  induction r with
  | done a => trivial
  | atomic change next ih => exact fun s => ⟨⟨rfl, rfl⟩, ih s.adapter⟩
  | wait ready change limit next ih => exact ⟨fun s => ⟨fun _ => ⟨rfl, rfl⟩, fun _ => .refl s⟩, ih⟩
  | call c next ih => exact ⟨trivial, .refl, ih⟩
  | note r next ih => exact ⟨fun s => ⟨rfl, rfl⟩, ih⟩

theorem log_quiet (level : Log.Level) (part : Log.Part) (text : String) :
    (Routine.log level part text : Activity Unit).Within quiet fun _ => True := ⟨fun _ => ⟨rfl, rfl⟩, trivial⟩

theorem receiveText_quiet (body : String) : (receiveText body).Within quiet fun _ => True := by
  have hMessage : ∀ message, (receiveMessage message).Within quiet fun _ => True := by
    intro message
    unfold receiveMessage
    split
    · split
      · exact fun s => ⟨⟨rfl, rfl⟩, trivial⟩
      · exact log_quiet ..
    · exact log_quiet ..
  refine Routine.within_then (log_quiet ..) fun _ => ?_
  split
  · exact hMessage _
  · exact log_quiet ..

theorem Takes.quiet {w : Worker} {task : Task} {s s' : Server} {r : Activity Unit} (h : Takes w task s r s')
    (hOther : w ≠ .reader) : Quiet s s' ∧ r.Within quiet fun _ => True := by
  have hTake := h.take
  cases w with
  | reader => exact absurd rfl hOther
  | writer =>
    change takeOutput s = some (r, s') at hTake
    rw [takeOutput] at hTake
    split at hTake
    · cases hTake
    · cases hTake
      exact ⟨⟨rfl, rfl⟩, trivial⟩
  | adapter w =>
    obtain ⟨⟨job, adapter⟩, -, hEq⟩ := Option.map_eq_some_iff.mp hTake
    cases hEq
    exact ⟨⟨rfl, rfl⟩, onAdapter_quiet job⟩

theorem Outside.quiet {s s' : Server} (h : Outside s s') : Quiet s s' := by
  cases h <;> exact ⟨rfl, rfl⟩

/-! ## The request to disconnect -/

/-- The session is changed in one go. -/
def alterSession (change : Session → Session) (s : Server) : Server :=
  s.putAdapter (s.adapter.putSession (change s.adapter.session))

/-- A request to disconnect was handled by these steps: whoever waits for the end of the configuration is released, the
session listens to no events any more, its slot is emptied, and the debuggee that was in it was asked to disconnect and
has answered. -/
def Disconnects (answers : Answering Host Unit) (did : List (Doing Server Host)) : Prop :=
  ∃ first rest s₁ s₂ s₃, did = first ++ ⟨none, s₁, s₁.alterSession fun s => { s with phase := .released }⟩ ::
    ⟨none, s₂, s₂.alterSession (Session.replaceSubscriptions [])⟩ ::
    ⟨none, s₃, s₃.alterSession fun s => { s with debuggee := none }⟩ :: rest ∧
    ∀ d ∈ s₃.adapter.session.debuggee, ∃ before drives after answer, rest = before ++ drives ++ after ∧
      (onAdapter (Adapter.drive d .disconnect)).Performs answers plan.keep drives answer

/-- How a request to disconnect goes on when the slot is emptied. -/
def afterTaking (d : Option DebuggeeId) : Session.Work (Option Json) := do
  Session.act Session.releaseAll
  match d with
  | none => return none
  | some d =>
    match ← Session.act (Session.drive d .disconnect) with
    | .ok _ => return none
    | .error e =>
      if !e.isDisconnect then throw e
      Session.act (Session.debug "Debuggee already gone")
      return none

def handleDisconnect : Activity (Except Error (Option Json)) :=
  onAdapter (Adapter.onSession (Session.answer disconnectRequest).run)

def onSession {α : Type} (r : Session.Activity α) : Activity α := onAdapter (Adapter.onSession r)

theorem handleDisconnect_eq : handleDisconnect =
    .note ⟨.debug, .session, s!"Handling disconnect (seq {disconnectRequest.seq})"⟩
      (.atomic (alterSession fun s => { s with phase := .released }) fun _ =>
        .atomic (alterSession (Session.replaceSubscriptions [])) fun _ =>
          .atomic (alterSession fun s => { s with debuggee := none }) fun s =>
            onSession (afterTaking s.adapter.session.debuggee).run) := by
  rfl

/-- The debuggee that was in the slot is asked to disconnect. -/
theorem onSession_afterTaking (d : DebuggeeId) : ∃ (first second : Server → Server)
    (rest : Except Error Unit → Activity (Except Error (Option Json))),
    onSession (afterTaking (some d)).run =
      .atomic first fun _ => .atomic second fun _ => onAdapter (Adapter.drive d .disconnect) >>= rest :=
  ⟨_, _, _, congrArg (Routine.atomic _) (funext fun _ => congrArg (Routine.atomic _) (funext fun _ => Routine.zoom_bind))⟩

theorem disconnects_of_performs {answers : Answering Host Unit} {did : List (Doing Server Host)}
    {x : Except Error (Option Json)} (h : handleDisconnect.Performs answers plan.keep did x) : Disconnects answers did := by
  rw [handleDisconnect_eq] at h
  obtain ⟨s₀, _, rfl, hHandled⟩ := h.note
  obtain ⟨s₁, _, rfl, hReleased⟩ := hHandled.atomic
  obtain ⟨s₂, _, rfl, hDeaf⟩ := hReleased.atomic
  obtain ⟨s₃, rest, rfl, hEmptied⟩ := hDeaf.atomic
  refine ⟨[_], rest, s₁, s₂, s₃, rfl, fun d hd => ?_⟩
  obtain ⟨first, second, others, hEq⟩ := onSession_afterTaking d
  rw [hd, hEq] at hEmptied
  obtain ⟨_, _, rfl, hFirst⟩ := hEmptied.atomic
  obtain ⟨_, _, rfl, hSecond⟩ := hFirst.atomic
  obtain ⟨answer, drives, after, rfl, hDrives, -⟩ := hSecond.of_bind
  exact ⟨[_, _], drives, after, answer, rfl, hDrives⟩

theorem Disconnects.within {answers : Answering Host Unit} {did : List (Doing Server Host)} (h : Disconnects answers did)
    (before after : List (Doing Server Host)) : Disconnects answers (before ++ did ++ after) := by
  obtain ⟨first, rest, s₁, s₂, s₃, rfl, hDrives⟩ := h
  refine ⟨before ++ first, rest ++ after, s₁, s₂, s₃, by simp, fun d hd => ?_⟩
  obtain ⟨earlier, drives, later, answer, rfl, hPerforms⟩ := hDrives d hd
  exact ⟨earlier, drives, later ++ after, answer, by simp, hPerforms⟩

/-! ## The end of the stream -/

/-- What the server does at the end of the stream before it says what came of serving. -/
def cleanUp : Activity Unit := do
  Routine.info .server "Client disconnected"
  match ← handleDisconnect with
  | .ok _ => pure ()
  | .error e => Routine.warn .server s!"Cleanup after client exit failed: {e.message}"

def conclude : Activity Unit := Routine.modify fun s => { s with result := some (.ok ()) }

theorem close_eq : close = cleanUp >>= fun _ => conclude := by
  rw [close, cleanUp]
  simp only [bind_assoc]
  refine congrArg _ (funext fun _ => congrArg _ (funext fun x => ?_))
  cases x <;> rfl

theorem cleanUp_quiet : cleanUp.Within quiet fun _ => True := by
  refine Routine.within_then (log_quiet ..) fun _ => Routine.within_then (onAdapter_quiet _) fun x => ?_
  cases x with
  | ok _ => trivial
  | error e => exact log_quiet ..

theorem disconnects_of_close {answers : Answering Host Unit} {did : List (Doing Server Host)}
    (h : close.Performs answers plan.keep did ()) : Disconnects answers did := by
  rw [close_eq, cleanUp] at h
  obtain ⟨_, _, after, rfl, hCleanUp, -⟩ := h.of_bind
  obtain ⟨_, first, _, rfl, -, hRest⟩ := hCleanUp.of_bind
  obtain ⟨_, _, rest, rfl, hHandled, -⟩ := hRest.of_bind
  simpa using (disconnects_of_performs hHandled).within first (rest ++ after)

/-! ## How far the reader is -/

/-- The stream held what is no message, and the reader has done nothing since. -/
structure Breaks (why : OsError) (past : List Happening) : Prop where
  /-- When the reader came upon it, it left the session as it was. -/
  found : ∃ s, Dap.Framing.read s.ended s.incoming = .failed why ∧
    ⟨.takesUp .reader (.fail why), s, s.fail why⟩ ∈ past ∧ (s.fail why).adapter = s.adapter
  nothing : deeds .reader past = []
  never : ∀ s s', ⟨.takesUp .reader .close, s, s'⟩ ∉ past

/-- What the reader may be at, and what came of serving so far. -/
inductive Progress (told : (c : Host.Call) → Host.Answer c → Prop) (past : List Happening) (s : Stage) : Prop where
  | reads : s.state.closing = false → s.state.result = none →
      (∀ task r, s.busy .reader = some (task, r) → (∃ body, task = .receive body) ∧ r.Within quiet fun _ => True) →
      (∀ s s', ⟨.takesUp .reader .close, s, s'⟩ ∉ past) → Progress told past s
  | closes {r : Activity Unit} : s.state.closing = true → s.state.result = none →
      s.busy .reader = some (.close, r >>= fun _ => conclude) → r.Within quiet (fun _ => True) → Progress told past s
  | closed : s.state.closing = true → s.state.result = some (.ok ()) →
      close.Performs (setting told).answers plan.keep (deeds .reader past) () →
      (∀ task r, s.busy .reader = some (task, r) → r = .done ()) → Progress told past s
  | broken {why : OsError} : s.state.closing = true → s.state.result = some (.error (.os why)) → Breaks why past →
      (∀ task r, s.busy .reader = some (task, r) → r = .done ()) → Progress told past s

theorem deeds_of_other {e : Happening} (h : e.turn.worker? ≠ some .reader) (past : List Happening) :
    deeds .reader (past ++ [e]) = deeds .reader past := by
  rw [deeds_snoc, Moment.addTo_of_other h]

theorem Breaks.snoc {why : OsError} {e : Happening} (h : Breaks why past)
    (hNothing : deeds .reader (past ++ [e]) = deeds .reader past) (hTurn : e.turn ≠ .takesUp .reader .close) :
    Breaks why (past ++ [e]) where
  found := by
    obtain ⟨s, hRead, hMem, hSame⟩ := h.found
    exact ⟨s, hRead, List.mem_append_left _ hMem, hSame⟩
  nothing := hNothing.trans h.nothing
  never s s' hMem := by
    rcases List.mem_append.mp hMem with hMem | hMem
    · exact h.never s s' hMem
    · exact hTurn (by rw [← List.mem_singleton.mp hMem])

theorem never_snoc {e : Happening} (h : ∀ s s', ⟨.takesUp .reader .close, s, s'⟩ ∉ past)
    (hTurn : e.turn ≠ .takesUp .reader .close) (s s' : Server) : ⟨.takesUp .reader .close, s, s'⟩ ∉ past ++ [e] := by
  intro hMem
  rcases List.mem_append.mp hMem with hMem | hMem
  · exact h s s' hMem
  · exact hTurn (by rw [← List.mem_singleton.mp hMem])

/-- The others do not get in the way of the reader. -/
theorem Progress.of_other {e : Happening} (h : Progress told past s) (hQuiet : Quiet s.state s'.state)
    (hReader : s'.busy .reader = s.busy .reader) (hTurn : e.turn.worker? ≠ some .reader) :
    Progress told (past ++ [e]) s' := by
  have hOther : e.turn ≠ .takesUp .reader .close := fun hEq => hTurn (by rw [hEq]; rfl)
  have hDeeds := deeds_of_other hTurn past
  cases h with
  | reads hOpen hNone hBusy hNever =>
    exact .reads (hQuiet.closing ▸ hOpen) (hQuiet.result ▸ hNone) (hReader ▸ hBusy) (never_snoc hNever hOther)
  | closes hClosing hNone hBusy hWithin =>
    exact .closes (hQuiet.closing ▸ hClosing) (hQuiet.result ▸ hNone) (hReader ▸ hBusy) hWithin
  | closed hClosing hResult hPerforms hBusy =>
    exact .closed (hQuiet.closing ▸ hClosing) (hQuiet.result ▸ hResult) (hDeeds ▸ hPerforms) (hReader ▸ hBusy)
  | broken hClosing hResult hBreaks hBusy =>
    exact .broken (hQuiet.closing ▸ hClosing) (hQuiet.result ▸ hResult) (hBreaks.snoc hDeeds hOther) (hReader ▸ hBusy)

theorem Progress.takes {task : Task} {r : Activity Unit} {state : Server} (h : Progress told past s)
    (hTakes : Takes .reader task s.state r state) :
    Progress told (past ++ [⟨.takesUp .reader task, s.state, state⟩]) { s.put .reader (some (task, r)) with state } := by
  obtain ⟨hOpen, hCases⟩ := hTakes.reader_cases
  cases h with
  | reads _ hNone _ hNever =>
    rcases hCases with ⟨body, rest, -, rfl, rfl, rfl⟩ | ⟨why, hRead, rfl, rfl, rfl⟩ | ⟨-, rfl, rfl, rfl⟩
    · refine .reads hOpen hNone (fun task r hBusy => ?_) (never_snoc hNever (by simp))
      obtain ⟨rfl, rfl⟩ : _ = task ∧ _ = r := by simpa [Scene.put] using hBusy
      exact ⟨⟨body, rfl⟩, receiveText_quiet body⟩
    · refine .broken rfl rfl ⟨⟨s.state, hRead, by simp, rfl⟩, ?_, never_snoc hNever (by simp)⟩ fun task r hBusy => ?_
      · exact deeds_of_takesUp rfl past []
      · obtain ⟨-, rfl⟩ : _ = task ∧ _ = r := by simpa [Scene.put] using hBusy
        rfl
    · refine .closes rfl hNone ?_ cleanUp_quiet
      rw [← close_eq]
      exact s.busy_put .reader _
  | closes hClosing _ _ _ => exact absurd (hOpen.symm.trans hClosing) Bool.false_ne_true
  | closed hClosing _ _ _ => exact absurd (hOpen.symm.trans hClosing) Bool.false_ne_true
  | broken hClosing _ _ _ => exact absurd (hOpen.symm.trans hClosing) Bool.false_ne_true

/-- What the reader has done when it is done with the end of the stream. -/
theorem Comes.performs_close (hComes : Comes told adapter past s) (hBusy : s.busy .reader = some (.close, .done ())) :
    close.Performs (setting told).answers plan.keep (deeds .reader past) () := by
  obtain ⟨s₀, r₀, s₁, hTakes, hAdvances⟩ := Setting.Leads.advances hComes rfl hBusy
  rcases hTakes.reader_cases.2 with ⟨_, _, -, hTask, -⟩ | ⟨_, -, hTask, -⟩ | ⟨-, -, rfl, -⟩
  · cases hTask
  · cases hTask
  · exact hAdvances

theorem Progress.goesOn {task : Task} {r r' : Activity Unit} {asked : Option (Asked Host)} {state : Server} {world : Unit}
    (h : Progress told past s) (hBusy : s.busy .reader = some (task, r))
    (hStep : r.Step (setting told).answers plan.keep s.state s.world asked r' state world)
    (hComes : Comes told adapter (past ++ [⟨.goesOn .reader task asked, s.state, state⟩])
      { s.put .reader (some (task, r')) with state, world }) :
    Progress told (past ++ [⟨.goesOn .reader task asked, s.state, state⟩])
      { s.put .reader (some (task, r')) with state, world } := by
  have hHere : ({ s.put .reader (some (task, r')) with state, world } : Stage).busy .reader = some (task, r') :=
    s.busy_put .reader _
  cases h with
  | reads hOpen hNone hReads hNever =>
    obtain ⟨hTask, hWithin⟩ := hReads task r hBusy
    obtain ⟨hQuiet, hRest, -⟩ := hWithin.step hStep
    refine .reads (hQuiet.closing ▸ hOpen) (hQuiet.result ▸ hNone) (fun task' r'' hBusy' => ?_) (never_snoc hNever (by simp))
    obtain ⟨rfl, rfl⟩ : _ = task' ∧ _ = r'' := by simpa [hHere] using hBusy'
    exact ⟨hTask, hRest⟩
  | @closes x hClosing hNone hCloses hWithin =>
    obtain ⟨rfl, rfl⟩ : _ = task ∧ _ = r := by simpa [hCloses] using hBusy
    rcases hStep.of_bind with ⟨_, rfl⟩ | ⟨x', hStep', rfl⟩
    · change conclude.Step _ _ _ _ _ _ _ _ at hStep
      cases hStep
      refine .closed hClosing rfl (Comes.performs_close hComes hHere) fun task' r'' hBusy' => ?_
      obtain ⟨-, rfl⟩ : _ = task' ∧ _ = r'' := by simpa [hHere] using hBusy'
      rfl
    · obtain ⟨hQuiet, hRest, -⟩ := hWithin.step hStep'
      exact .closes (hQuiet.closing ▸ hClosing) (hQuiet.result ▸ hNone) hHere hRest
  | closed _ _ _ hDone =>
    rw [hDone task r hBusy] at hStep
    cases hStep
  | broken _ _ _ hDone =>
    rw [hDone task r hBusy] at hStep
    cases hStep

theorem Progress.isDone {task : Task} {a : Unit} (h : Progress told past s) (hBusy : s.busy .reader = some (task, .done a)) :
    Progress told (past ++ [⟨.isDone .reader task, s.state, s.state⟩]) (s.put .reader none) := by
  have hFree : ∀ task r, (s.put .reader none).busy .reader ≠ some (task, r) := fun _ _ hHere => by simp at hHere
  have hDeeds : deeds .reader (past ++ [⟨.isDone .reader task, s.state, s.state⟩]) = deeds .reader past := deeds_snoc ..
  cases h with
  | reads hOpen hNone _ hNever =>
    exact .reads hOpen hNone (fun _ _ hHere => absurd hHere (hFree _ _)) (never_snoc hNever (by simp))
  | @closes x _ _ hCloses _ =>
    obtain ⟨-, hEnd⟩ : _ = task ∧ (x >>= fun _ => conclude) = .done a := by simpa [hCloses] using hBusy
    cases x <;> cases hEnd
  | closed hClosing hResult hPerforms _ =>
    exact .closed hClosing hResult (hDeeds ▸ hPerforms) fun _ _ hHere => absurd hHere (hFree _ _)
  | broken hClosing hResult hBreaks _ =>
    exact .broken hClosing hResult (hBreaks.snoc hDeeds (by simp)) fun _ _ hHere => absurd hHere (hFree _ _)

/-- What the other workers are at leaves the outcome alone. -/
def OthersQuiet (s : Stage) : Prop :=
  ∀ w task r, w ≠ .reader → s.busy w = some (task, r) → r.Within quiet fun _ => True

theorem OthersQuiet.step {e : Happening} (h : OthersQuiet s) (hHappens : (setting told).Happens s e s') :
    OthersQuiet s' := by
  intro w task r hOther hBusy
  rcases hHappens.busy_cases hBusy with ⟨-, hTakes⟩ | ⟨asked, r', -, hBefore, hStep⟩ | ⟨-, hBefore⟩
  · exact (Takes.quiet hTakes hOther).2
  · exact ((h w task r' hOther hBefore).step hStep).2.1
  · exact h w task r hOther hBefore

theorem Progress.step {e : Happening} (hOthers : OthersQuiet s) (h : Progress told past s)
    (hHappens : (setting told).Happens s e s') (hComes : Comes told adapter (past ++ [e]) s') :
    Progress told (past ++ [e]) s' := by
  by_cases hTurn : e.turn.worker? = some .reader
  · cases hHappens with
    | takesUp hFree hTakes =>
      cases hTurn
      exact h.takes hTakes
    | goesOn hBusy hStep =>
      cases hTurn
      exact h.goesOn hBusy hStep hComes
    | isDone hBusy =>
      cases hTurn
      exact h.isDone hBusy
    | outside _ => cases hTurn
  · refine h.of_other ?_ (hHappens.busy_of_other hTurn) hTurn
    cases hHappens with
    | takesUp hFree hTakes => exact (Takes.quiet hTakes fun hEq => hTurn (congrArg some hEq)).1
    | goesOn hBusy hStep => exact ((hOthers _ _ _ (fun hEq => hTurn (congrArg some hEq)) hBusy).step hStep).1
    | isDone _ => exact .refl _
    | outside hOutside => exact hOutside.quiet

theorem Comes.progress (hComes : Comes told adapter past s) : OthersQuiet s ∧ Progress told past s := by
  induction hComes with
  | nil => exact ⟨fun _ _ _ _ hBusy => (nomatch hBusy), .reads rfl rfl (fun _ _ hBusy => (nomatch hBusy)) (by simp)⟩
  | snoc hComes hHappens ih => exact ⟨ih.1.step hHappens, ih.2.step ih.1 hHappens (hComes.snoc hHappens)⟩

/-- When serving is over because the client has ended its stream, the server has had a request to disconnect handled
from its beginning to its end. When it is over because the stream holds what is no message, the server has done nothing
of that, and left the session as it was. There is no other way in which serving comes to be over. -/
theorem disconnects_unless_broken (hComes : Comes told adapter past s) {outcome : Except Error Unit}
    (hResult : s.state.result = some outcome) :
    match outcome with
    | .ok _ => Disconnects (setting told).answers (deeds .reader past)
    | .error e => ∃ why, e = .os why ∧ Breaks why past := by
  obtain ⟨-, hProgress⟩ := Comes.progress hComes
  cases hProgress with
  | reads _ hNone _ _ => cases hNone.symm.trans hResult
  | closes _ hNone _ _ => cases hNone.symm.trans hResult
  | closed _ hOk hPerforms _ =>
    cases hOk.symm.trans hResult
    exact disconnects_of_close hPerforms
  | broken _ hError hBreaks _ =>
    cases hError.symm.trans hResult
    exact ⟨_, rfl, hBreaks⟩

/-! Runs -/

section Runs

/-- Whatever a debuggee of the host is asked, there is nothing to complain of. -/
def willing : (c : Host.Call) → Option (Host.Answer c)
  | .drive _ .disconnect => some (.ok ())
  | _ => none

/-- Cues for a server whose host ends debuggees when it is asked to. -/
def willingScript : Script (setting fun _ _ => True) Unit (Option Bytes) :=
  { script fun _ _ => True with
    answer? := fun _ c => (willing c).map (·, ())
    answers := fun _ => trivial }

/-- The reader is at the end of the stream, from beginning to end. -/
def readsEnd : Cues := .takesUp .reader () :: List.replicate 10 (.goesOn .reader)

/-- Whether serving is over, and was not broken off. -/
def isOver (s : Server) : Bool :=
  match s.result with
  | some (.ok _) => true
  | _ => false

/-- A session whose debuggee the host knows. -/
def withDebuggee : Adapter := { session := { debuggee := some 0 } }

theorem disconnects_at_the_end : ∃ past s, Comes (fun _ _ => True) withDebuggee past s ∧
    s.state.result = some (.ok ()) ∧ s.state.adapter.session.debuggee = none ∧
    Disconnects (setting fun _ _ => True).answers (deeds .reader past) := by
  obtain ⟨past, s, hComes, hCheck⟩ := willingScript.leads_of_check (.outside none :: readsEnd) (fresh withDebuggee)
    (fun _ s => isOver s.state && s.state.adapter.session.debuggee.isNone) (by decide +kernel)
  obtain ⟨hOver, hNone⟩ := Bool.and_eq_true_iff.mp hCheck
  have hResult : s.state.result = some (.ok ()) := by
    unfold isOver at hOver
    split at hOver
    · assumption
    · cases hOver
  exact ⟨past, s, hComes, hResult, Option.isNone_iff_eq_none.mp hNone, disconnects_unless_broken hComes hResult⟩

/-- The client has finished configuring, and no debuggee runs yet. -/
def configured : Bytes :=
  Dap.Framing.write "\x7b\"seq\":1,\"type\":\"request\",\"command\":\"configurationDone\"\x7d"

/-- A header that tells no length. -/
def lengthless : Bytes := Utf8.encode "Content-Length: x\r\n\r\n"

/-- Whoever waits for the end of the configuration is still waiting. -/
def isWaiting (s : Stage) : Bool :=
  match s.busy (.adapter (.session (.arrival 0))) with
  | some (_, r) => s.state.adapter.session.phase == .waiting && !r.canGoOn s.state
  | none => false

def noLength : OsError := ⟨.invalidData, "invalid Content-Length: x"⟩

def isBrokenOff (s : Server) : Bool :=
  match s.result with
  | some (.error (.os why)) => why == noLength
  | _ => false

/-- The client has finished configuring, and what it sends then is no message: serving is over, but whoever waits for
the end of the configuration is not released, and no request to disconnect was handled. -/
theorem broken_off_while_configuring : ∃ past s, Comes (fun _ _ => True) {} past s ∧
    s.state.result = some (.error (.os noLength)) ∧ isWaiting s = true ∧
    ¬Disconnects (setting fun _ _ => True).answers (deeds .reader past) := by
  obtain ⟨past, s, hComes, hCheck⟩ := (script fun _ _ => True).leads_of_check
    ([.outside (some configured)] ++ readsMessage ++ [.takesUp (.adapter (.session (.arrival 0))) ()] ++
      List.replicate 2 (.goesOn (.adapter (.session (.arrival 0)))) ++
      [.outside (some lengthless), .takesUp .reader (), .isDone .reader]) (fresh {})
    (fun past s => isBrokenOff s.state && isWaiting s && (deeds .reader past).isEmpty) (by decide +kernel)
  simp only [Bool.and_eq_true, List.isEmpty_iff] at hCheck
  obtain ⟨⟨hBroken, hWaiting⟩, hNothing⟩ := hCheck
  refine ⟨past, s, hComes, ?_, hWaiting, ?_⟩
  · unfold isBrokenOff at hBroken
    split at hBroken
    · next why hResult => rw [hResult, beq_iff_eq.mp hBroken]
    · cases hBroken
  · rintro ⟨first, rest, s₁, s₂, s₃, hDid, -⟩
    rw [hNothing] at hDid
    simp at hDid

end Runs

end JvmDebug.Server
