import JvmDebug.Proofs.Dap.Framing
import JvmDebug.Proofs.Json.Rendered
import JvmDebug.Proofs.Routine.Replay
import JvmDebug.Proofs.Session.Messages
import JvmDebug.Server

/-!
# What the client gets to read

Messages come into the outbox from any number of hands, and the writer takes them out. What it has written is read back
frame by frame, and each text is the message that stood at its place in the queue, under the number of the place.
-/

namespace JvmDebug.Server.Sending
set_option autoImplicit false

open Dap.Framing (Frame Reads stream maxMessageSize)

/-! The setting -/

/-- One of the hands through which messages come into the outbox, or the writer. -/
inductive Party where
  | client (n : Nat)
  | writer
  deriving DecidableEq, Repr

/-- What puts a message into the outbox. -/
def sending (m : Dap.Outgoing) : Activity Unit := onAdapter (Adapter.onSession (Session.send m))

inductive Takes : Party → Dap.Outgoing → Server → Activity Unit → Server → Prop where
  | send (n : Nat) (m : Dap.Outgoing) (s : Server) : Takes (.client n) m s (sending m) s
  | write {m : Dap.Outgoing} {s s' : Server} {r : Activity Unit} :
      s.adapter.session.outbox.head? = some m → s.takeOutput = some (r, s') → Takes .writer m s r s'

/-- The client takes what has been written, and whatever leaves the messages alone may happen. -/
inductive Outside (s : Server) : Server → Prop where
  | collect : Outside s s.collect.2
  | elsewhere (s' : Server) : s'.adapter.session.outbox = s.adapter.session.outbox → s'.nextSeq = s.nextSeq →
      s'.output = s.output → Outside s s'

def setting : Setting Party Dap.Outgoing Server Host Unit fun _ => Unit where
  takes := Takes
  answers _ _ _ _ := True
  keep := plan.keep
  outside s _ s' _ := Outside s s'

/-- Cues for the parties: a message to send, or that the client takes what has been written. -/
def script : Script setting (Option Dap.Outgoing) Unit where
  take? p m s :=
    match p, m with
    | .client _, some m => some (m, sending m, s)
    | .writer, none => do
      let m ← s.adapter.session.outbox.head?
      let (r, s') ← s.takeOutput
      return (m, r, s')
    | _, _ => none
  answer? _ _ := none
  come? _ s m := some (s.collect.2, m)
  takes {p hint s m r s'} h := by
    cases p with
    | client n =>
      cases hint with
      | none => cases h
      | some m =>
        cases h
        exact .send n m s
    | writer =>
      cases hint with
      | some m => cases h
      | none =>
        obtain ⟨m', hHead, h⟩ := Option.bind_eq_some_iff.mp h
        obtain ⟨⟨r', s₁⟩, hTake, h⟩ := Option.bind_eq_some_iff.mp h
        cases h
        exact .write hHead hTake
  answers h := by cases h
  outside h := by
    cases h
    exact .collect

abbrev Stage := Scene Party Dap.Outgoing Server Host Unit fun _ => Unit
abbrev Happening := Moment Party Dap.Outgoing Server Host

def fresh : Stage := .idle {} ()

/-- What may come of a server that has written nothing yet. -/
abbrev Comes (past : List Happening) (s : Stage) : Prop := setting.Leads fresh past s

/-! What has been queued and what has been written -/

def Happening.queued (e : Happening) : List Dap.Outgoing :=
  match e.turn with
  | .goesOn (.client _) _ _ => added e.before.adapter.session.outbox e.after.adapter.session.outbox
  | _ => []

/-- The messages that have been put into the outbox, the first one first. -/
def queued (past : List Happening) : List Dap.Outgoing := past.flatMap Happening.queued

def Happening.written (e : Happening) : Bytes :=
  match e.turn with
  | .takesUp .writer _ => added e.before.output e.after.output
  | _ => []

/-- The bytes that have been written for the client. -/
def written (past : List Happening) : Bytes := past.flatMap Happening.written

theorem queued_append (past since : List Happening) : queued (past ++ since) = queued past ++ queued since :=
  List.flatMap_append

theorem written_append (past since : List Happening) : written (past ++ since) = written past ++ written since :=
  List.flatMap_append

/-! What a message is to be read as -/

def body? : Dap.Outgoing → Option Json
  | .response r => r.body
  | .event e => e.body

/-- The field of a name that a message has under a number. -/
def field? (n : Int) (m : Dap.Outgoing) (name : String) : Option Json :=
  match m with
  | .response r =>
    match name with
    | "seq" => some (.int n)
    | "type" => some (.str "response")
    | "request_seq" => some (.int r.requestSeq)
    | "success" => some (.bool r.success)
    | "command" => some (.str r.command)
    | "message" => r.message.map .str
    | "body" => r.body
    | _ => none
  | .event e =>
    match name with
    | "seq" => some (.int n)
    | "type" => some (.str "event")
    | "event" => some (.str e.event)
    | "body" => e.body
    | _ => none

/-- A text is an object that has the fields of a message under a number, each of them once, and no others. -/
def Tells (text : String) (n : Int) (m : Dap.Outgoing) : Prop :=
  ∃ fields, Json.precise? text = some (.obj fields) ∧ (fields.map (·.1)).Nodup ∧
    ∀ name, (Json.obj fields).get? name = field? n m name

theorem foldl_optional (name other : String) (value found : Option Json) :
    (Json.optional other value).foldl (fun found f => if f.1 = name then some f.2 else found) found =
      if other = name then value.or found else found := by
  cases value with
  | none => simp [Json.optional]
  | some v => rfl

theorem get?_json (m : Dap.Outgoing) (n : Int) (name : String) : (m.json n).get? name = field? n m name := by
  rw [Dap.Outgoing.json, Json.get?_object, List.foldl_append]
  cases m with
  | response r =>
    simp only [Dap.Outgoing.fields, Dap.Response.fields, List.foldl_append, foldl_optional, List.foldl_cons, List.foldl_nil,
      Dap.Outgoing.kind]
    simp only [eq_comm (b := name)]
    generalize hFound : ite (name = _) _ _ = found
    simp only [field?]
    split <;> simp_all
  | event e =>
    simp only [Dap.Outgoing.fields, Dap.Event.fields, foldl_optional, List.foldl_cons, List.foldl_nil, Dap.Outgoing.kind]
    simp only [eq_comm (b := name)]
    generalize hFound : ite (name = _) _ _ = found
    simp only [field?]
    split <;> simp_all

theorem isFinite_optional {name : String} {value : Option Json} (hFinite : ∀ v ∈ value, v.isFinite = true) :
    ∀ f ∈ Json.optional name value, f.2.isFinite = true := by
  intro f hf
  cases value with
  | none => cases hf
  | some v =>
    rw [List.mem_singleton.mp hf]
    exact hFinite v rfl

theorem isFinite_json {m : Dap.Outgoing} (hFinite : ∀ body ∈ body? m, body.isFinite = true) (n : Int) :
    (m.json n).isFinite = true := by
  have hBody : ∀ f ∈ Json.optional "body" (body? m), f.2.isFinite = true := isFinite_optional hFinite
  apply Json.isFinite_object
  intro f hf
  cases m with
  | response r =>
    have hMessage : ∀ f ∈ Json.optional "message" (r.message.map .str), f.2.isFinite = true := by
      apply isFinite_optional
      intro v hv
      obtain ⟨text, -, rfl⟩ := Option.map_eq_some_iff.mp hv
      rfl
    simp only [Dap.Outgoing.fields, Dap.Response.fields, List.mem_append, List.mem_cons, List.not_mem_nil, or_false] at hf
    rcases hf with (((rfl | rfl | rfl) | hf) | hf) | (rfl | rfl)
    case inl.inl.inr => exact hMessage f hf
    case inl.inr => exact hBody f hf
    all_goals rfl
  | event e =>
    simp only [Dap.Outgoing.fields, Dap.Event.fields, List.mem_append, List.mem_cons, List.not_mem_nil, or_false] at hf
    rcases hf with (rfl | hf) | (rfl | rfl)
    case inl.inr => exact hBody f hf
    all_goals rfl

theorem tells_text {m : Dap.Outgoing} (hFinite : ∀ body ∈ body? m, body.isFinite = true) (n : Int) :
    Tells (m.text n) n m := by
  obtain ⟨fields, hFields, hOrdered⟩ := Json.ordered_object (m.fields ++ [("seq", .int n), ("type", .str m.kind)])
  refine ⟨fields, ?_, hOrdered.names, fun name => ?_⟩
  · rw [← hFields]
    exact Json.precise?_render (isFinite_json hFinite n)
  · rw [← hFields]
    exact get?_json m n name

/-! A run -/

def Happening.sent (e : Happening) : List Dap.Outgoing :=
  match e.turn with
  | .takesUp .writer m => [m]
  | _ => []

/-- The messages that the writer has taken out of the outbox. -/
def sent (past : List Happening) : List Dap.Outgoing := past.flatMap Happening.sent

theorem sent_append (past since : List Happening) : sent (past ++ since) = sent past ++ sent since := List.flatMap_append

/-- The frames that messages are written in, the first one under the number 1. -/
def framesOf (messages : List Dap.Outgoing) : List Frame := messages.mapIdx fun i m => { body := m.text (i + 1) }

theorem framesOf_snoc (messages : List Dap.Outgoing) (m : Dap.Outgoing) :
    framesOf (messages ++ [m]) = framesOf messages ++ [{ body := m.text (messages.length + 1) }] := by
  simp [framesOf, List.mapIdx_append]

/-- The messages that wait for the writer. -/
abbrev waiting (s : Server) : List Dap.Outgoing := s.adapter.session.outbox

/-! What one moment does -/

/-- A hand has sent its message, or has still to send it. -/
def Owes (m : Dap.Outgoing) (r : Activity Unit) : Prop := r = sending m ∨ r = .done ()

theorem Owes.step {m : Dap.Outgoing} {r r' : Activity Unit} {s s' : Server} {w w' : Unit} {asked : Option (Asked Host)}
    (h : Owes m r) (hStep : r.Step setting.answers setting.keep s w asked r' s' w') :
    r' = .done () ∧ waiting s' = waiting s ++ [m] ∧ s'.nextSeq = s.nextSeq ∧ s'.output = s.output := by
  rcases h with rfl | rfl
  · cases hStep
    exact ⟨rfl, rfl, rfl, rfl⟩
  · cases hStep

theorem takes_writer {m : Dap.Outgoing} {r : Activity Unit} {s s' : Server} (h : Takes .writer m s r s') :
    r = .done () ∧ waiting s = m :: waiting s' ∧ s'.nextSeq = s.nextSeq + 1 ∧
      s'.output = s.output ++ Dap.Framing.write (m.text s.nextSeq) := by
  cases h with
  | write hHead hTake =>
    rw [takeOutput] at hTake
    split at hTake
    · cases hTake
    · next first rest hWaiting =>
      rw [hWaiting] at hHead
      cases hHead
      cases hTake
      exact ⟨rfl, hWaiting, rfl, rfl⟩

/-- A message that is the next to be written can be taken. -/
theorem exists_takes {m : Dap.Outgoing} {rest : List Dap.Outgoing} {s : Server} (h : s.adapter.session.outbox = m :: rest) :
    ∃ s', Takes .writer m s (.done ()) s' ∧ waiting s' = rest := by
  let taken := (s.putAdapter (s.adapter.putSession { s.adapter.session with outbox := rest })).write m
  have hTake : s.takeOutput = some (.done (), taken) := by
    rw [takeOutput, h]
    rfl
  exact ⟨taken, .write (congrArg List.head? h) hTake, rfl⟩

/-- What has been written is what has been sent, and what has been queued is that and what still waits. -/
structure Keeps (past : List Happening) (s : Stage) : Prop where
  clients : ∀ n m r, s.busy (.client n) = some (m, r) → Owes m r
  writer : ∀ m r, s.busy .writer = some (m, r) → r = .done ()
  inQueue : queued past = sent past ++ waiting s.state
  nextSeq : s.state.nextSeq = (sent past).length + 1
  inBytes : written past = stream (framesOf (sent past)) []

variable {past : List Happening} {s s' : Stage} {e : Happening}

/-- What the parties are at after a moment. -/
theorem Keeps.busy (h : Keeps past s) (hHappens : setting.Happens s e s') :
    (∀ n m r, s'.busy (.client n) = some (m, r) → Owes m r) ∧ ∀ m r, s'.busy .writer = some (m, r) → r = .done () := by
  constructor
  · intro n m r hBusy
    rcases hHappens.busy_cases hBusy with ⟨-, hTakes⟩ | ⟨asked, r', -, hBefore, hStep⟩ | ⟨-, hBefore⟩
    · generalize s'.state = state at hTakes
      cases hTakes
      exact .inl rfl
    · exact .inr ((h.clients n m r' hBefore).step hStep).1
    · exact h.clients n m r hBefore
  · intro m r hBusy
    rcases hHappens.busy_cases hBusy with ⟨-, hTakes⟩ | ⟨asked, r', -, hBefore, hStep⟩ | ⟨-, hBefore⟩
    · exact (takes_writer hTakes).1
    · rw [h.writer m r' hBefore] at hStep
      generalize s'.state = state at hStep
      cases hStep
    · exact h.writer m r hBefore

theorem Keeps.step (h : Keeps past s) (hHappens : setting.Happens s e s') : Keeps (past ++ [e]) s' := by
  obtain ⟨hClients, hWriter⟩ := h.busy hHappens
  -- At most moments nothing is queued and nothing is sent.
  have hAside : e.queued = [] → e.sent = [] → e.written = [] → waiting s'.state = waiting s.state →
      s'.state.nextSeq = s.state.nextSeq → Keeps (past ++ [e]) s' := by
    intro hQueued hSent hWritten hWaiting hSeq
    have hSame : sent (past ++ [e]) = sent past := by simp [sent, hSent]
    refine ⟨hClients, hWriter, ?_, ?_, ?_⟩
    · rw [hSame, hWaiting, ← h.inQueue]
      simp [queued, hQueued]
    · rw [hSame, hSeq, h.nextSeq]
    · rw [hSame, ← h.inBytes]
      simp [written, hWritten]
  cases hHappens with
  | @takesUp p m r state hFree hTakes =>
    cases p with
    | client n =>
      cases hTakes
      exact hAside rfl rfl rfl rfl rfl
    | writer =>
      obtain ⟨-, hWaiting, hSeq, hOutput⟩ := takes_writer hTakes
      have hSent : sent (past ++ [⟨.takesUp .writer m, s.state, state⟩]) = sent past ++ [m] := sent_append ..
      refine ⟨hClients, hWriter, ?_, ?_, ?_⟩
      · rw [hSent, queued_append, h.inQueue, hWaiting]
        simp [queued, Happening.queued]
      · rw [hSent]
        simp [hSeq, h.nextSeq]
      · have hFrame := Frame.bytes_plain (m.text ((sent past).length + 1))
        rw [hSent, framesOf_snoc, Dap.Framing.stream_snoc, ← h.inBytes, written_append, hFrame]
        simp [written, Happening.written, hOutput, added_append, h.nextSeq, Dap.Framing.emptyLines]
  | @goesOn p m r r' asked state world hBusy hStep =>
    cases p with
    | client n =>
      obtain ⟨-, hWaiting, hSeq, hOutput⟩ := (h.clients n m r hBusy).step hStep
      have hSent : sent (past ++ [⟨.goesOn (.client n) m asked, s.state, state⟩]) = sent past := by
        simp [sent, Happening.sent]
      refine ⟨hClients, hWriter, ?_, ?_, ?_⟩
      · rw [hSent, queued_append, h.inQueue]
        simp [queued, Happening.queued, hWaiting, added_append]
      · rw [hSent]
        exact hSeq.trans h.nextSeq
      · rw [hSent, written_append, ← h.inBytes]
        simp [written, Happening.written]
    | writer =>
      rw [h.writer m r hBusy] at hStep
      cases hStep
  | isDone hBusy => exact hAside rfl rfl rfl rfl rfl
  | outside hOutside =>
    cases hOutside with
    | collect => exact hAside rfl rfl rfl rfl rfl
    | elsewhere s' hWaiting hSeq hOutput => exact hAside rfl rfl rfl hWaiting hSeq

theorem keeps_of_comes (hComes : Comes past s) : Keeps past s := by
  induction hComes with
  | nil => exact ⟨fun _ _ _ h => (nomatch h), fun _ _ h => (nomatch h), rfl, rfl, rfl⟩
  | snoc _ hHappens ih => exact ih.step hHappens

/-- The writer alone empties the outbox. -/
theorem drains {messages : List Dap.Outgoing} (hWaiting : waiting s.state = messages)
    (hWriter : ∀ m r, s.busy .writer = some (m, r) → r = .done ()) :
    ∃ since s', setting.Leads s since s' ∧ queued since = [] ∧ waiting s'.state = [] := by
  induction messages generalizing s with
  | nil => exact ⟨[], s, .nil, rfl, hWaiting⟩
  | cons m messages ih =>
    -- If the writer is still at a message, it has only to end that.
    obtain ⟨front, s₁, hFront, hFree, hSame, hNone⟩ : ∃ front s₁, setting.Leads s front s₁ ∧ s₁.busy .writer = none ∧
        s₁.state = s.state ∧ queued front = [] := by
      cases hBusy : s.busy .writer with
      | none => exact ⟨[], s, .nil, hBusy, rfl, rfl⟩
      | some x =>
        obtain ⟨m', r⟩ := x
        obtain rfl := hWriter m' r hBusy
        exact ⟨[⟨.isDone .writer m', s.state, s.state⟩], _, .snoc .nil (.isDone hBusy), Scene.busy_put .., rfl, rfl⟩
    rw [← hSame] at hWaiting
    obtain ⟨state, hTakes, hRest⟩ := exists_takes hWaiting
    have hNext := hFront.snoc (.takesUp hFree hTakes)
    obtain ⟨since, s', hSince, hQuiet, hEmpty⟩ := ih (s := { s₁.put .writer (some (m, .done ())) with state }) hRest <| by
      intro m' r hBusy
      obtain ⟨rfl, rfl⟩ : m = m' ∧ .done () = r := by simpa [Scene.put] using hBusy
      rfl
    refine ⟨_, s', hNext.trans hSince, ?_, hEmpty⟩
    rw [queued_append, queued_append, hNone, hQuiet]
    rfl

/-! What is read -/

/-- So many messages, the first ones of those that have been queued, are what is read to its end of what has been
written. -/
def Recovered (past : List Happening) (count : Nat) : Prop :=
  ∃ texts, Reads (written past) texts [] ∧ Dap.Framing.read true [] = .ended ∧ texts.length = count ∧
    ∀ (n : Nat) (text : String), texts[n]? = some text → ∃ m, (queued past)[n]? = some m ∧ Tells text (n + 1) m

theorem Keeps.recovered (h : Keeps past s) (hFinite : ∀ m ∈ queued past, ∀ body ∈ body? m, body.isFinite = true)
    (hFits : ∀ (n : Nat) (m : Dap.Outgoing), (queued past)[n]? = some m → (Utf8.encode (m.text (n + 1))).length ≤ maxMessageSize) :
    Recovered past (sent past).length := by
  have hPrefix : ∀ (n : Nat) (m : Dap.Outgoing), (sent past)[n]? = some m → (queued past)[n]? = some m := by
    intro n m hm
    rw [h.inQueue, List.getElem?_append_left (List.getElem?_eq_some_iff.mp hm).1]
    exact hm
  have hFrames : ∀ f ∈ framesOf (sent past), f.Fits := by
    intro f hf
    obtain ⟨n, hn, rfl⟩ := List.mem_mapIdx.mp hf
    exact hFits n _ (hPrefix n _ (List.getElem?_eq_getElem hn))
  refine ⟨(framesOf (sent past)).map (·.body), ?_, Dap.Framing.read_emptyLines [], ?_, ?_⟩
  · rw [h.inBytes]
    exact Dap.Framing.reads_frames hFrames []
  · simp [framesOf]
  · intro n text hText
    simp only [framesOf, List.getElem?_map, List.getElem?_mapIdx, Option.map_map, Option.map_eq_some_iff] at hText
    obtain ⟨m, hm, rfl⟩ := hText
    have hQueued := hPrefix n m hm
    exact ⟨m, hQueued, tells_text (hFinite m (List.mem_of_getElem? hQueued)) _⟩

/-- Whatever has been put into the outbox by any hands, the client reads the messages that have been written in their
order and numbered from 1 on, each with just its own fields; and once the writer has taken them all, that is the queue. -/
theorem queue_is_recovered (hComes : Comes past s) (hFinite : ∀ m ∈ queued past, ∀ body ∈ body? m, body.isFinite = true)
    (hFits : ∀ (n : Nat) (m : Dap.Outgoing), (queued past)[n]? = some m → (Utf8.encode (m.text (n + 1))).length ≤ maxMessageSize) :
    (∃ count, count + (waiting s.state).length = (queued past).length ∧ Recovered past count) ∧
      ∃ since s', setting.Leads s since s' ∧ queued (past ++ since) = queued past ∧ waiting s'.state = [] ∧
        Recovered (past ++ since) (queued past).length := by
  have hKeeps := keeps_of_comes hComes
  obtain ⟨since, s', hSince, hNone, hEmpty⟩ := drains rfl hKeeps.writer
  have hSame : queued (past ++ since) = queued past := by rw [queued_append, hNone, List.append_nil]
  have hKeeps' := keeps_of_comes (hComes.trans hSince)
  refine ⟨⟨(sent past).length, ?_, hKeeps.recovered hFinite hFits⟩, since, s', hSince, hSame, hEmpty, ?_⟩
  · rw [hKeeps.inQueue, List.length_append]
  · have hAll : (sent (past ++ since)).length = (queued past).length := by
      rw [← hSame, hKeeps'.inQueue, hEmpty, List.append_nil]
    rw [← hAll]
    exact hKeeps'.recovered (hSame ▸ hFinite) (hSame ▸ hFits)

/-! A run with two hands -/

/-- A body with a number that is not whole, and with text that has to be escaped. -/
def someBody : Json := Json.object [("ratio", .float ⟨0x3fb999999999999a⟩), ("text", .strings ["\u00e9\n", ""])]

/-- Both hands take up a message, and the second one sends its first. The client reads between the two. -/
def twoHands : List (Cue Party (Option Dap.Outgoing) Unit) :=
  [.takesUp (.client 0) (some (.response ⟨7, false, "evaluate", some "no \"frame\"", some someBody⟩)),
    .takesUp (.client 1) (some .initialized), .goesOn (.client 1), .goesOn (.client 0), .takesUp .writer none,
    .isDone .writer, .outside (), .takesUp .writer none]

theorem two_hands_are_recovered : ∃ past s, Comes past s ∧
    (queued past).map (fun m => (m.kind, (body? m).isSome)) = [("event", false), ("response", true)] ∧ Recovered past 2 := by
  obtain ⟨past, s, hComes, hCheck⟩ := script.leads_of_check twoHands fresh
    (fun past s => (queued past).map (fun m => (m.kind, (body? m).isSome)) == [("event", false), ("response", true)] &&
      (waiting s.state).isEmpty && (queued past).all (fun m => (body? m).all Json.isFinite) &&
      ((queued past).mapIdx fun n m => decide ((Utf8.encode (m.text (n + 1))).length ≤ maxMessageSize)).all id)
    (by decide +kernel)
  simp only [Bool.and_eq_true, beq_iff_eq, List.isEmpty_iff, List.all_eq_true, Option.all_eq_true] at hCheck
  obtain ⟨⟨⟨hQueued, hEmpty⟩, hFinite⟩, hFits⟩ := hCheck
  obtain ⟨⟨count, hCount, hRecovered⟩, -⟩ := queue_is_recovered hComes hFinite fun n m hm => by
    obtain ⟨hn, rfl⟩ := List.getElem?_eq_some_iff.mp hm
    exact of_decide_eq_true (hFits _ (List.mem_mapIdx.mpr ⟨n, hn, rfl⟩))
  have hLength := congrArg List.length hQueued
  rw [List.length_map] at hLength
  rw [hEmpty, hLength] at hCount
  obtain rfl : count = 2 := hCount
  exact ⟨past, s, hComes, hQueued, hRecovered⟩

end JvmDebug.Server.Sending
