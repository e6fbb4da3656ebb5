import JvmDebug.Jdwp.Connection.Traffic
import JvmDebug.Proofs.Routine.Bounds
import JvmDebug.Proofs.Routine.Replay

/-!
# How far everybody is

Any number of callers, the writer and the reader, side by side on one connection. Callers send commands under any ids;
bytes come at any time, and the stream may end or refuse a write at any point. All writes are kept, so that they can be
looked at.

What is left to be done of each errand on a connection, and what one step changes. From here on nobody needs to look at
the routines themselves.
-/

namespace JvmDebug.Jdwp.Connection
set_option autoImplicit false

/-! ## Who is at work -/

inductive Party where
  | caller (n : Nat)
  | writer
  | reader
  deriving DecidableEq

inductive Errand where
  | send (id : UInt32) (c : Command)
  | write (q : Queued)
  | reply (id : UInt32) (packet : Bytes)
  | events (packet : Bytes)
  | shutDown (why : Error)

/-- What a party yields when it is done. -/
abbrev Party.Result : Party → Type
  | caller _ => Except Error Reply
  | writer | reader => Unit

/-- What was written, and with what success. -/
abbrev Written := List (Bytes × Except OsError Unit)

inductive Takes : (k : Party) → Errand → Connection → Routine Connection Link k.Result → Connection → Prop where
  | send (n : Nat) (id : UInt32) (c : Command) (s : Connection) :
      Takes (.caller n) (.send id c) s (Connection.send id c) s
  | write {q : Queued} {s s' : Connection} {r : Routine Connection Link Unit} :
      s.queue.head? = some q → s.write? = some (r, s') → Takes .writer (.write q) s r s'
  | reply {id : UInt32} {packet rest : Bytes} {s s' : Connection} {r : Routine Connection Link Unit} :
      Packet.read s.ended s.incoming = .packet id true packet rest → s.read? = some (r, s') →
      Takes .reader (.reply id packet) s r s'
  | events {id : UInt32} {packet rest : Bytes} {s s' : Connection} {r : Routine Connection Link Unit} :
      Packet.read s.ended s.incoming = .packet id false packet rest → s.read? = some (r, s') →
      Takes .reader (.events packet) s r s'
  | shutDown {why : Error} {s s' : Connection} {r : Routine Connection Link Unit} :
      Packet.read s.ended s.incoming = .failed why → s.read? = some (r, s') → Takes .reader (.shutDown why) s r s'

/-- What comes of itself: bytes, the end of the stream, and whatever is done with events. -/
inductive Outside (s : Connection) : Connection → Prop where
  | receive (bytes : Bytes) : Outside s (s.receive bytes)
  | ends (why : OsError) : Outside s { s with ended := some why }
  | events (events : List EventSet) (eventsTaken eventsDropped : Bool) :
      Outside s { s with events, eventsTaken, eventsDropped }

def setting : Setting Party Errand Connection Link Written Party.Result where
  takes := Takes
  answers m (bytes : Bytes) (a : Except OsError Unit) m' := m' = m ++ [(bytes, a)]
  keep _ s := s
  outside s m s' m' := Outside s s' ∧ m' = m

abbrev Happening := Moment Party Errand Connection Link

/-- A connection from which packets are read, before anything was sent. -/
def fresh : Scene Party Errand Connection Link Written Party.Result := .idle { reading := true } []

abbrev Comes (past : List Happening) (s : Scene Party Errand Connection Link Written Party.Result) : Prop :=
  setting.Leads fresh past s

/-! ## What has happened -/

/-- The commands that were put into the queue, in their order. -/
def puts (past : List Happening) : List Queued := past.flatMap fun e => added e.before.queue e.after.queue

/-- What became of commands. -/
def settled (past : List Happening) : List (Ticket × Except Error Reply) :=
  past.flatMap fun e => added e.before.outcomes e.after.outcomes

/-- The bytes that have come. -/
def received (past : List Happening) : Bytes := past.flatMap fun e => added e.before.incoming e.after.incoming

def packetAt : Turn Party Errand Link → List Bytes
  | .takesUp _ (.reply _ packet) | .takesUp _ (.events packet) => [packet]
  | _ => []

def replyAt : Turn Party Errand Link → List (UInt32 × Bytes)
  | .takesUp _ (.reply id packet) => [(id, packet)]
  | _ => []

/-- The packets that were read, and those of them that are replies. -/
def packets (past : List Happening) : List Bytes := past.flatMap fun e => packetAt e.turn

def replies (past : List Happening) : List (UInt32 × Bytes) := past.flatMap fun e => replyAt e.turn

/-- The commands without an outcome. -/
def outstanding (past : List Happening) : List Queued :=
  (puts past).filter fun q => q.ticket ∉ (settled past).map (·.1)

/-- The reader has found the end of the stream, and is done with it. -/
def HasEnded (past : List Happening) : Prop := ∃ why, ∃ e ∈ past, e.turn = .isDone .reader (.shutDown why)

variable {s s' : Connection} {m m' : Written} {asked : Option (Asked Link)} {id : UInt32} {c : Command} {q : Queued}
  {α : Type}

/-! ## Callers -/

inductive Calling where
  | begins
  | numbering
  | putting (ticket : Ticket)
  | waiting (ticket : Ticket)
  | taking (ticket : Ticket)
  | finished (result : Except Error Reply)

def Calling.rest (id : UInt32) (c : Command) : Calling → Routine Connection Link (Except Error Reply)
  | begins => send id c
  | numbering => do
    let ticket ← Routine.modifyGet freshTicket
    Routine.waitAndChange hasRoom (enqueue ⟨id, c, ticket⟩)
    Routine.waitFor fun s => (s.outcome? ticket).isSome
    Routine.modifyGet (takeOutcome ticket)
  | putting ticket => do
    Routine.waitAndChange hasRoom (enqueue ⟨id, c, ticket⟩)
    Routine.waitFor fun s => (s.outcome? ticket).isSome
    Routine.modifyGet (takeOutcome ticket)
  | waiting ticket => do
    Routine.waitFor fun s => (s.outcome? ticket).isSome
    Routine.modifyGet (takeOutcome ticket)
  | taking ticket => Routine.modifyGet (takeOutcome ticket)
  | finished result => pure result

/-- The ticket of a call, once it has one and until it is over. -/
def Calling.ticket? : Calling → Option Ticket
  | putting ticket | waiting ticket | taking ticket => some ticket
  | _ => none

inductive Calls (id : UInt32) (c : Command) : Calling → Connection → Calling → Connection → Prop where
  | note (s : Connection) : Calls id c .begins s .numbering s
  | number (s : Connection) : Calls id c .numbering s (.putting s.nextTicket) { s with nextTicket := s.nextTicket + 1 }
  | put (ticket : Ticket) (s : Connection) : Calls id c (.putting ticket) s (.waiting ticket) (s.enqueue ⟨id, c, ticket⟩)
  | see {ticket : Ticket} {s : Connection} : (s.outcome? ticket).isSome → Calls id c (.waiting ticket) s (.taking ticket) s
  | take (ticket : Ticket) (s : Connection) :
      Calls id c (.taking ticket) s (.finished (s.takeOutcome ticket).1) (s.takeOutcome ticket).2

theorem Calling.step {w : Calling} {r : Routine Connection Link (Except Error Reply)}
    (h : (w.rest id c).Step setting.answers setting.keep s m asked r s' m') :
    asked = none ∧ m' = m ∧ ∃ w' : Calling, r = w'.rest id c ∧ Calls id c w s w' s' := by
  cases w with
  | begins =>
    cases h
    exact ⟨rfl, rfl, .numbering, rfl, .note s⟩
  | numbering =>
    cases h
    exact ⟨rfl, rfl, .putting s.nextTicket, rfl, .number s⟩
  | putting ticket =>
    cases h
    exact ⟨rfl, rfl, .waiting ticket, rfl, .put ticket s⟩
  | waiting ticket =>
    cases h with
    | ready _ _ _ _ hReady => exact ⟨rfl, rfl, .taking ticket, rfl, .see hReady⟩
  | taking ticket =>
    cases h
    exact ⟨rfl, rfl, .finished (s.takeOutcome ticket).1, rfl, .take ticket s⟩
  | finished result => cases h

/-! ## The writer -/

inductive Writing where
  | taken
  | noting
  | writing
  | failed (why : OsError)
  | recalling (why : OsError)
  | settling (ticket : Ticket) (why : OsError)
  | finished

def Writing.rest (q : Queued) : Writing → Routine Connection Link Unit
  | taken => writeQueued q
  | noting => do
    Routine.trace .eventLoop s!"Sending command id={q.id} set={q.command.set} cmd={q.command.number}"
    match ← write (q.command.packet q.id) with
    | .ok _ => return ()
    | .error why => failWrite q.id why
  | writing => do
    match ← write (q.command.packet q.id) with
    | .ok _ => return ()
    | .error why => failWrite q.id why
  | failed why => failWrite q.id why
  | recalling why => do
    match ← Routine.modifyGet (redeem q.id) with
    | some ticket => Routine.modify (settle ticket (.error (.os why)))
    | none => return ()
  | settling ticket why => Routine.modify (settle ticket (.error (.os why)))
  | finished => pure ()

inductive Writes (q : Queued) : Writing → Connection → Written → Writing → Connection → Written → Prop where
  | refuse {s : Connection} (m : Written) : s.closed = true →
      Writes q .taken s m .finished (s.settle q.ticket (.error .closed)) m
  | owe {s : Connection} (m : Written) : s.closed = false → Writes q .taken s m .noting (owe q s).2 m
  | note (s : Connection) (m : Written) : Writes q .noting s m .writing s m
  | write (s : Connection) (m : Written) : Writes q .writing s m .finished s (m ++ [(q.command.packet q.id, .ok ())])
  | fail (s : Connection) (m : Written) (why : OsError) :
      Writes q .writing s m (.failed why) s (m ++ [(q.command.packet q.id, .error why)])
  | noteFailure (s : Connection) (m : Written) (why : OsError) : Writes q (.failed why) s m (.recalling why) s m
  | withdraw {s : Connection} {ticket : Ticket} (m : Written) (why : OsError) : (redeem q.id s).1 = some ticket →
      Writes q (.recalling why) s m (.settling ticket why) (redeem q.id s).2 m
  | nobody {s : Connection} (m : Written) (why : OsError) : (redeem q.id s).1 = none →
      Writes q (.recalling why) s m .finished (redeem q.id s).2 m
  | settle (s : Connection) (m : Written) (ticket : Ticket) (why : OsError) :
      Writes q (.settling ticket why) s m .finished (s.settle ticket (.error (.os why))) m

theorem Writing.step {w : Writing} {r : Routine Connection Link Unit}
    (h : (w.rest q).Step setting.answers setting.keep s m asked r s' m') :
    ∃ w' : Writing, r = w'.rest q ∧ Writes q w s m w' s' m' := by
  cases w with
  | taken =>
    cases h
    cases hClosed : s.closed with
    | true =>
      have hOwe : owe q s = (false, s.settle q.ticket (.error .closed)) := by simp [owe, hClosed]
      refine ⟨.finished, ?_, ?_⟩
      · change (if (owe q s).1 = true then _ else _) = _
        rw [hOwe]
        rfl
      · change Writes q .taken s m .finished (owe q s).2 m
        rw [hOwe]
        exact .refuse m hClosed
    | false =>
      have hOwe : (owe q s).1 = true := by simp [owe, hClosed]
      refine ⟨.noting, ?_, .owe m hClosed⟩
      change (if (owe q s).1 = true then _ else _) = _
      rw [if_pos hOwe]
      rfl
  | noting =>
    cases h
    exact ⟨.writing, rfl, .note s m⟩
  | writing =>
    cases h with
    | @call _ a _ _ _ _ hAnswer =>
      cases hAnswer
      cases a with
      | ok _ => exact ⟨.finished, rfl, .write s m⟩
      | error why => exact ⟨.failed why, rfl, .fail s m why⟩
  | failed why =>
    cases h
    exact ⟨.recalling why, rfl, .noteFailure s m why⟩
  | recalling why =>
    cases h
    cases hRedeem : (redeem q.id s).1 with
    | none =>
      refine ⟨.finished, ?_, .nobody m why hRedeem⟩
      change (match (redeem q.id s).1 with | some _ => _ | none => _) = _
      rw [hRedeem]
      rfl
    | some ticket =>
      refine ⟨.settling ticket why, ?_, .withdraw m why hRedeem⟩
      change (match (redeem q.id s).1 with | some _ => _ | none => _) = _
      rw [hRedeem]
      rfl
  | settling ticket why =>
    cases h
    exact ⟨.finished, rfl, .settle s m ticket why⟩
  | finished => cases h

/-! ## The reader -/

/-- Nothing of what callers and the writer look at is changed. -/
structure Alike (s s' : Connection) : Prop where
  nextTicket : s'.nextTicket = s.nextTicket
  queue : s'.queue = s.queue
  owed : s'.owed = s.owed
  closed : s'.closed = s.closed
  outcomes : s'.outcomes = s.outcomes
  incoming : s'.incoming = s.incoming
  reading : s'.reading = s.reading

theorem Alike.refl (s : Connection) : Alike s s := ⟨rfl, rfl, rfl, rfl, rfl, rfl, rfl⟩

/-- Work with events: it asks nothing, and changes nothing of the rest. -/
def apart : Bounds Connection Link := ⟨Alike, fun _ => False, fun _ s => s⟩

/-- Work that leaves everything but events alone. -/
abbrev Apart (r : Routine Connection Link Unit) : Prop := r.Within apart fun _ => True

inductive Reading where
  | routing (id : UInt32) (packet : Bytes)
  | settling (id : UInt32) (ticket : Ticket) (packet : Bytes)
  | ending (why : Error)
  | closing
  | other (r : Routine Connection Link Unit) (h : Apart r)

def Reading.rest : Reading → Routine Connection Link Unit
  | routing id packet => routeReply id packet
  | settling _ ticket packet => Routine.modify (settle ticket (Reply.ofPacket packet))
  | ending why => shutDown why
  | closing => do
    Routine.modify close
    Routine.info .eventLoop "Event loop shutting down"
    Routine.modify endEvents
  | other r _ => r

inductive Reads : Reading → Connection → Reading → Connection → Prop where
  | redeem {s : Connection} {id : UInt32} {ticket : Ticket} (packet : Bytes) : (redeem id s).1 = some ticket →
      Reads (.routing id packet) s (.settling id ticket packet) (redeem id s).2
  | nobody {s : Connection} {id : UInt32} (packet : Bytes) {r : Routine Connection Link Unit} (h : Apart r) :
      (redeem id s).1 = none → Reads (.routing id packet) s (.other r h) (redeem id s).2
  | settle (s : Connection) (id : UInt32) (ticket : Ticket) (packet : Bytes) {r : Routine Connection Link Unit}
      (h : Apart r) : Reads (.settling id ticket packet) s (.other r h) (s.settle ticket (Reply.ofPacket packet))
  | note (s : Connection) (why : Error) : Reads (.ending why) s .closing s
  | close (s : Connection) {r : Routine Connection Link Unit} (h : Apart r) : Reads .closing s (.other r h) s.close
  | other {s s' : Connection} {r r' : Routine Connection Link Unit} (h : Apart r) (h' : Apart r') :
      Alike s s' → Reads (.other r h) s (.other r' h') s'

theorem shutDown_eq_note (why : Error) : ∃ record, shutDown why = .note record Reading.closing.rest := by
  unfold shutDown
  split
  · split <;> exact ⟨_, rfl⟩
  · exact ⟨_, rfl⟩

theorem Reading.step {w : Reading} {r : Routine Connection Link Unit}
    (h : w.rest.Step setting.answers setting.keep s m asked r s' m') :
    asked = none ∧ m' = m ∧ ∃ w' : Reading, r = w'.rest ∧ Reads w s w' s' := by
  cases w with
  | routing id packet =>
    cases h
    refine ⟨rfl, rfl, ?_⟩
    cases hRedeem : (redeem id s).1 with
    | none =>
      have hApart : Apart (Routine.warn .eventLoop s!"Received reply for unknown command id={id}") :=
        ⟨fun s => .refl s, trivial⟩
      refine ⟨.other _ hApart, ?_, .nobody packet hApart hRedeem⟩
      change (match (redeem id s).1 with | some _ => _ | none => _) = _
      rw [hRedeem]
      rfl
    | some ticket =>
      refine ⟨.settling id ticket packet, ?_, .redeem packet hRedeem⟩
      change (match (redeem id s).1 with | some _ => _ | none => _) = _
      rw [hRedeem]
      rfl
  | settling id ticket packet =>
    cases h
    have hApart : Apart (Routine.done ()) := trivial
    exact ⟨rfl, rfl, .other _ hApart, rfl, .settle s id ticket packet hApart⟩
  | ending why =>
    obtain ⟨record, hNote⟩ := shutDown_eq_note why
    rw [Reading.rest, hNote] at h
    cases h
    exact ⟨rfl, rfl, .closing, rfl, .note s why⟩
  | closing =>
    cases h
    have hApart : Apart (do Routine.info .eventLoop "Event loop shutting down"; Routine.modify endEvents) :=
      ⟨fun s => .refl s, fun s => ⟨⟨rfl, rfl, rfl, rfl, rfl, rfl, rfl⟩, trivial⟩⟩
    exact ⟨rfl, rfl, .other _ hApart, rfl, .close s hApart⟩
  | other r hApart =>
    obtain ⟨hAlike, hRest, hNone, hSame⟩ := Routine.Within.step hApart h
    cases asked with
    | none => exact ⟨rfl, hSame rfl, .other _ hRest, rfl, .other hApart hRest hAlike⟩
    | some x => exact (hNone x rfl).elim

/-! ## Everybody -/

/-- How far everybody is. -/
structure Desk where
  caller : Nat → Option (UInt32 × Command × Calling) := fun _ => none
  writer : Option (Queued × Writing) := none
  reader : Option (Errand × Reading) := none

def Desk.putCaller (d : Desk) (n : Nat) (x : Option (UInt32 × Command × Calling)) : Desk :=
  { d with caller := Function.update d.caller n x }

abbrev Busy := (k : Party) → Option (Errand × Routine Connection Link k.Result)

/-- What everybody has still to do is what the stages say. -/
structure Desk.Stands (d : Desk) (busy : Busy) : Prop where
  caller : ∀ n, busy (.caller n) = (d.caller n).map fun x => (.send x.1 x.2.1, x.2.2.rest x.1 x.2.1)
  writer : busy .writer = d.writer.map fun x => (.write x.1, x.2.rest x.1)
  reader : busy .reader = d.reader.map fun x => (x.1, x.2.rest)

theorem Desk.Stands.putCaller {d : Desk} {busy : Busy} (h : d.Stands busy) (n : Nat)
    (x : Option (UInt32 × Command × Calling)) :
    (d.putCaller n x).Stands
      (Function.update busy (.caller n) (x.map fun x => (.send x.1 x.2.1, x.2.2.rest x.1 x.2.1))) where
  caller j := by
    by_cases hSame : j = n
    · subst hSame
      simp [Desk.putCaller]
    · have hOther : Party.caller j ≠ .caller n := fun hEq => hSame (Party.caller.inj hEq)
      simp only [Desk.putCaller, Function.update_of_ne hSame, Function.update_of_ne hOther]
      exact h.caller j
  writer := by simpa [Desk.putCaller] using h.writer
  reader := by simpa [Desk.putCaller] using h.reader

theorem Desk.Stands.putWriter {d : Desk} {busy : Busy} (h : d.Stands busy) (x : Option (Queued × Writing)) :
    { d with writer := x }.Stands
      (Function.update busy .writer (x.map fun x : Queued × Writing => (.write x.1, x.2.rest x.1))) where
  caller j := by simpa using h.caller j
  writer := by simp
  reader := by simpa using h.reader

theorem Desk.Stands.putReader {d : Desk} {busy : Busy} (h : d.Stands busy) (x : Option (Errand × Reading)) :
    { d with reader := x }.Stands (Function.update busy .reader (x.map fun x : Errand × Reading => (x.1, x.2.rest))) where
  caller j := by simpa using h.caller j
  writer := by simpa using h.writer
  reader := by simp

/-- All that can happen. -/
inductive Goes : Desk → Connection → Written → Happening → Desk → Connection → Written → Prop where
  | calls {d : Desk} (s : Connection) (m : Written) {n : Nat} (id : UInt32) (c : Command) : d.caller n = none →
      Goes d s m ⟨.takesUp (.caller n) (.send id c), s, s⟩ (d.putCaller n (some (id, c, .begins))) s m
  | caller {d : Desk} {s s' : Connection} (m : Written) {n : Nat} {id : UInt32} {c : Command} {w w' : Calling} :
      d.caller n = some (id, c, w) → Calls id c w s w' s' →
      Goes d s m ⟨.goesOn (.caller n) (.send id c) none, s, s'⟩ (d.putCaller n (some (id, c, w'))) s' m
  | returns {d : Desk} (s : Connection) (m : Written) {n : Nat} {id : UInt32} {c : Command} {a : Except Error Reply} :
      d.caller n = some (id, c, .finished a) →
      Goes d s m ⟨.isDone (.caller n) (.send id c), s, s⟩ (d.putCaller n none) s m
  | takesCommand {d : Desk} {s : Connection} (m : Written) {q : Queued} {rest : List Queued} : d.writer = none →
      s.queue = q :: rest → Goes d s m ⟨.takesUp .writer (.write q), s, { s with queue := rest }⟩
        { d with writer := some (q, .taken) } { s with queue := rest } m
  | writer {d : Desk} {s s' : Connection} {m m' : Written} {q : Queued} {w w' : Writing} (asked : Option (Asked Link)) :
      d.writer = some (q, w) → Writes q w s m w' s' m' →
      Goes d s m ⟨.goesOn .writer (.write q) asked, s, s'⟩ { d with writer := some (q, w') } s' m'
  | wrote {d : Desk} (s : Connection) (m : Written) {q : Queued} {w : Writing} : d.writer = some (q, w) → w = .finished →
      Goes d s m ⟨.isDone .writer (.write q), s, s⟩ { d with writer := none } s m
  | takesReply {d : Desk} {s : Connection} (m : Written) {id : UInt32} {packet rest : Bytes} : d.reader = none →
      s.reading = true → Packet.read s.ended s.incoming = .packet id true packet rest →
      Goes d s m ⟨.takesUp .reader (.reply id packet), s, { s with incoming := rest }⟩
        { d with reader := some (.reply id packet, .routing id packet) } { s with incoming := rest } m
  | takesEvents {d : Desk} {s : Connection} (m : Written) {id : UInt32} {packet rest : Bytes}
      {r : Routine Connection Link Unit} (h : Apart r) : d.reader = none → s.reading = true →
      Packet.read s.ended s.incoming = .packet id false packet rest →
      Goes d s m ⟨.takesUp .reader (.events packet), s, { s with incoming := rest }⟩
        { d with reader := some (.events packet, .other r h) } { s with incoming := rest } m
  | takesEnd {d : Desk} {s : Connection} (m : Written) {why : Error} : d.reader = none → s.reading = true →
      Packet.read s.ended s.incoming = .failed why →
      Goes d s m ⟨.takesUp .reader (.shutDown why), s, { s with reading := false }⟩
        { d with reader := some (.shutDown why, .ending why) } { s with reading := false } m
  | reader {d : Desk} {s s' : Connection} (m : Written) {errand : Errand} {w w' : Reading} :
      d.reader = some (errand, w) → Reads w s w' s' →
      Goes d s m ⟨.goesOn .reader errand none, s, s'⟩ { d with reader := some (errand, w') } s' m
  | read {d : Desk} (s : Connection) (m : Written) {errand : Errand} {r : Routine Connection Link Unit} {h : Apart r} :
      d.reader = some (errand, .other r h) → Goes d s m ⟨.isDone .reader errand, s, s⟩ { d with reader := none } s m
  | outside {d : Desk} {s s' : Connection} (m : Written) : Outside s s' → Goes d s m ⟨.outside, s, s'⟩ d s' m

theorem Goes.around {d d' : Desk} {e : Happening} (h : Goes d s m e d' s' m') : e.before = s ∧ e.after = s' := by
  cases h <;> exact ⟨rfl, rfl⟩

theorem deliverEvents_apart (packet : Bytes) : Apart (deliverEvents packet) := by
  unfold deliverEvents
  split
  · refine Routine.within_then ⟨fun s => .refl s, trivial⟩ fun _ => ?_
    refine Routine.within_bind.mpr fun s => ⟨?_, ?_⟩
    · simp only [addEvents]
      split <;> exact ⟨rfl, rfl, rfl, rfl, rfl, rfl, rfl⟩
    · change Apart (if _ then _ else _)
      split
      · trivial
      · exact ⟨fun s => .refl s, trivial⟩
  · exact ⟨fun s => .refl s, trivial⟩

theorem Calling.finished_of_rest {w : Calling} {a : Except Error Reply} (h : w.rest id c = .done a) : w = .finished a := by
  cases w <;> cases h
  rfl

theorem Writing.finished_of_rest {w : Writing} {a : Unit} (h : w.rest q = .done a) : w = .finished := by
  cases w <;> first | rfl | cases h

theorem Reading.other_of_rest {w : Reading} {a : Unit} (h : w.rest = .done a) : ∃ r hApart, w = .other r hApart := by
  cases w with
  | ending why =>
    obtain ⟨record, hNote⟩ := shutDown_eq_note why
    rw [rest, hNote] at h
    cases h
  | other r hApart => exact ⟨r, hApart, rfl⟩
  | _ => cases h

/-- What the reader takes up where a packet can be read. -/
theorem read?_packet {isReply : Bool} {packet rest : Bytes} {r : Routine Connection Link Unit}
    (hPacket : Packet.read s.ended s.incoming = .packet id isReply packet rest) (h : s.read? = some (r, s')) :
    s.reading = true ∧ r = (if isReply then routeReply id packet else deliverEvents packet) ∧
      s' = { s with incoming := rest } := by
  unfold read? at h
  split at h
  · next hReading =>
    simp only [hPacket, Option.some.injEq, Prod.mk.injEq] at h
    exact ⟨hReading, h.1.symm, h.2.symm⟩
  · cases h

theorem read?_failed {why : Error} {r : Routine Connection Link Unit}
    (hPacket : Packet.read s.ended s.incoming = .failed why) (h : s.read? = some (r, s')) :
    s.reading = true ∧ r = shutDown why ∧ s' = { s with reading := false } := by
  unfold read? at h
  split at h
  · next hReading =>
    simp only [hPacket, Option.some.injEq, Prod.mk.injEq] at h
    exact ⟨hReading, h.1.symm, h.2.symm⟩
  · cases h

/-- What happens on a connection, in terms of the stages. -/
theorem goes_of_happens {d : Desk} {e : Happening} {a b : Scene Party Errand Connection Link Written Party.Result}
    (hStands : d.Stands a.busy) (h : setting.Happens a e b) :
    ∃ d' : Desk, d'.Stands b.busy ∧ Goes d a.state a.world e d' b.state b.world := by
  cases h with
  | takesUp hFree hTakes =>
    cases hTakes with
    | send n id c s =>
      have hNone : d.caller n = none := Option.map_eq_none_iff.mp ((hStands.caller n).symm.trans hFree)
      exact ⟨_, hStands.putCaller n (some (id, c, .begins)), .calls _ _ id c hNone⟩
    | @write q s s' r hHead hWrite =>
      have hNone : d.writer = none := Option.map_eq_none_iff.mp (hStands.writer.symm.trans hFree)
      obtain ⟨rest, hQueue⟩ : ∃ rest, a.state.queue = q :: rest := by
        cases hQueue : a.state.queue with
        | nil => simp [hQueue] at hHead
        | cons q' rest =>
          simp only [hQueue, List.head?_cons, Option.some.injEq] at hHead
          exact ⟨rest, hHead ▸ rfl⟩
      simp only [write?, dequeue?, hQueue, Option.map_some, Option.some.injEq, Prod.mk.injEq] at hWrite
      obtain ⟨rfl, rfl⟩ := hWrite
      exact ⟨_, hStands.putWriter (some (q, .taken)), .takesCommand _ hNone hQueue⟩
    | reply hPacket hRead =>
      have hNone : d.reader = none := Option.map_eq_none_iff.mp (hStands.reader.symm.trans hFree)
      obtain ⟨hReading, rfl, rfl⟩ := read?_packet hPacket hRead
      exact ⟨_, hStands.putReader (some (.reply _ _, .routing _ _)), .takesReply _ hNone hReading hPacket⟩
    | events hPacket hRead =>
      have hNone : d.reader = none := Option.map_eq_none_iff.mp (hStands.reader.symm.trans hFree)
      obtain ⟨hReading, rfl, rfl⟩ := read?_packet hPacket hRead
      have hApart := deliverEvents_apart
      exact ⟨_, hStands.putReader (some (.events _, .other _ (hApart _))), .takesEvents _ (hApart _) hNone hReading hPacket⟩
    | shutDown hPacket hRead =>
      have hNone : d.reader = none := Option.map_eq_none_iff.mp (hStands.reader.symm.trans hFree)
      obtain ⟨hReading, rfl, rfl⟩ := read?_failed hPacket hRead
      exact ⟨_, hStands.putReader (some (.shutDown _, .ending _)), .takesEnd _ hNone hReading hPacket⟩
  | @goesOn k job r r' asked state world hBusy hStep =>
    cases k with
    | caller n =>
      obtain ⟨⟨id, c, w⟩, hCaller, hEq⟩ := Option.map_eq_some_iff.mp ((hStands.caller n).symm.trans hBusy)
      cases hEq
      obtain ⟨rfl, rfl, w', rfl, hCalls⟩ := Calling.step hStep
      exact ⟨_, hStands.putCaller n (some (id, c, w')), .caller _ hCaller hCalls⟩
    | writer =>
      obtain ⟨⟨q, w⟩, hWriter, hEq⟩ := Option.map_eq_some_iff.mp (hStands.writer.symm.trans hBusy)
      cases hEq
      obtain ⟨w', rfl, hWrites⟩ := Writing.step hStep
      exact ⟨_, hStands.putWriter (some (q, w')), .writer asked hWriter hWrites⟩
    | reader =>
      obtain ⟨⟨errand, w⟩, hReader, hEq⟩ := Option.map_eq_some_iff.mp (hStands.reader.symm.trans hBusy)
      cases hEq
      obtain ⟨rfl, rfl, w', rfl, hReads⟩ := Reading.step hStep
      exact ⟨_, hStands.putReader (some (errand, w')), .reader _ hReader hReads⟩
  | @isDone k job x hBusy =>
    cases k with
    | caller n =>
      obtain ⟨⟨id, c, w⟩, hCaller, hEq⟩ := Option.map_eq_some_iff.mp ((hStands.caller n).symm.trans hBusy)
      obtain ⟨rfl, hRest⟩ := Prod.mk.inj hEq
      obtain rfl := Calling.finished_of_rest hRest
      exact ⟨_, hStands.putCaller n none, .returns _ _ hCaller⟩
    | writer =>
      obtain ⟨⟨q, w⟩, hWriter, hEq⟩ := Option.map_eq_some_iff.mp (hStands.writer.symm.trans hBusy)
      obtain ⟨rfl, hRest⟩ := Prod.mk.inj hEq
      exact ⟨_, hStands.putWriter none, .wrote _ _ hWriter (Writing.finished_of_rest hRest)⟩
    | reader =>
      obtain ⟨⟨errand, w⟩, hReader, hEq⟩ := Option.map_eq_some_iff.mp (hStands.reader.symm.trans hBusy)
      obtain ⟨rfl, hRest⟩ := Prod.mk.inj hEq
      obtain ⟨r, hApart, rfl⟩ := Reading.other_of_rest hRest
      exact ⟨_, hStands.putReader none, .read _ _ hReader⟩
  | outside hOutside =>
    obtain ⟨hOutside, rfl⟩ := hOutside
    exact ⟨d, hStands, .outside _ hOutside⟩

/-- What every step keeps true is true whatever has happened. -/
theorem Comes.keeps (holds : List Happening → Desk → Connection → Written → Prop) {past : List Happening}
    {a : Scene Party Errand Connection Link Written Party.Result} (h : Comes past a)
    (hStart : holds [] {} { reading := true } [])
    (hStep : ∀ past d s m e d' s' m', holds past d s m → Goes d s m e d' s' m' → holds (past ++ [e]) d' s' m') :
    ∃ d : Desk, d.Stands a.busy ∧ holds past d a.state a.world := by
  induction h with
  | nil => exact ⟨{}, ⟨fun _ => rfl, rfl, rfl⟩, hStart⟩
  | snoc _ hHappens ih =>
    obtain ⟨d, hStands, hHere⟩ := ih
    obtain ⟨d', hStands', hGoes⟩ := goes_of_happens hStands hHappens
    exact ⟨d', hStands', hStep _ _ _ _ _ _ _ _ hHere hGoes⟩

end JvmDebug.Jdwp.Connection
