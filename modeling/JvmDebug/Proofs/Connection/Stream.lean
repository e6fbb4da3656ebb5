import JvmDebug.Proofs.Connection.Stages

/-!
# What goes over the stream

The bytes that come are cut into packets, none of which is lost or read twice; and the commands are written whole, in
the order of the queue.
-/

namespace JvmDebug.Jdwp
set_option autoImplicit false

theorem splitExact_eq_some {n : Nat} {bytes first rest : Bytes} :
    splitExact n bytes = some (first, rest) ↔ bytes = first ++ rest ∧ first.length = n := by
  induction n generalizing bytes first with
  | zero =>
    simp only [splitExact, Option.some.injEq, Prod.mk.injEq, List.length_eq_zero_iff]
    constructor
    · rintro ⟨rfl, rfl⟩
      exact ⟨rfl, rfl⟩
    · rintro ⟨rfl, rfl⟩
      exact ⟨rfl, rfl⟩
  | succ n ih =>
    cases bytes with
    | nil =>
      simp only [splitExact, reduceCtorEq, false_iff, not_and]
      intro hNil hLength
      simp [(List.append_eq_nil_iff.mp hNil.symm).1] at hLength
    | cons b others =>
      rw [splitExact]
      constructor
      · intro h
        split at h
        · next first' others' hSplit =>
          cases h
          obtain ⟨rfl, rfl⟩ := ih.mp hSplit
          exact ⟨rfl, rfl⟩
        · cases h
      · rintro ⟨hEq, hLength⟩
        cases first with
        | nil => cases hLength
        | cons b' first' =>
          cases hEq
          have hSplit : splitExact n (first' ++ rest) = some (first', rest) := ih.mpr ⟨rfl, Nat.succ.inj hLength⟩
          simp [hSplit]

namespace Packet

variable {ended : Option OsError} {bytes packet rest : Bytes} {id : UInt32} {isReply : Bool}

theorem read_short (ended : Option OsError) : short ended ≠ .packet id isReply packet rest := by
  cases ended <;> nofun

/-- A packet is cut off the front of the stream, and has the id that stands in its header. -/
theorem read_packet (h : read ended bytes = .packet id isReply packet rest) :
    bytes = packet ++ rest ∧ ∀ r, Reply.ofPacket packet = .ok r → r.id = id := by
  unfold read at h
  split at h
  · exact absurd h (read_short ended)
  next header others hHeader =>
  dsimp only at h
  split at h
  · cases h
  next hLong =>
  split at h
  · cases h
  split at h
  · exact absurd h (read_short ended)
  next packet' rest' hPacket =>
  cases h
  obtain ⟨rfl, hHeaderLength⟩ := splitExact_eq_some.mp hHeader
  obtain ⟨hEq, hLength⟩ := splitExact_eq_some.mp hPacket
  refine ⟨hEq, fun r hReply => ?_⟩
  -- The header is the beginning of the packet, as the packet is no shorter.
  have hBegins : packet.take headerSize = header := by
    have hTake := congrArg (List.take headerSize) hEq
    rwa [List.take_left' hHeaderLength, List.take_append_of_le_length (by omega), eq_comm] at hTake
  unfold Reply.ofPacket at hReply
  split at hReply
  · cases hReply
  next header' data hSplit =>
  obtain ⟨rfl, hLength'⟩ := splitExact_eq_some.mp hSplit
  rw [List.take_left' hLength'] at hBegins
  subst hBegins
  dsimp only at hReply
  split at hReply
  · cases hReply
  · cases hReply
    rfl

end Packet

namespace Connection

variable {past : List Happening} {d d' : Desk} {s s' : Connection} {m m' : Written} {e : Happening} {q : Queued}

/-! ## What comes -/

theorem received_snoc (past : List Happening) (e : Happening) :
    received (past ++ [e]) = received past ++ added e.before.incoming e.after.incoming := by
  simp [received]

theorem packets_snoc (past : List Happening) (e : Happening) :
    packets (past ++ [e]) = packets past ++ packetAt e.turn := by
  simp [packets]

theorem Calls.incoming {id : UInt32} {c : Command} {w w' : Calling} (h : Calls id c w s w' s') :
    s'.incoming = s.incoming := by
  cases h <;> rfl

theorem owe_incoming (q : Queued) (s : Connection) : (owe q s).2.incoming = s.incoming := by
  unfold owe
  split <;> rfl

theorem Writes.incoming {w w' : Writing} (h : Writes q w s m w' s' m') : s'.incoming = s.incoming := by
  cases h with
  | owe _ _ => exact owe_incoming ..
  | _ => rfl

theorem Reads.incoming {w w' : Reading} (h : Reads w s w' s') : s'.incoming = s.incoming := by
  cases h with
  | other _ _ hAlike => exact hAlike.incoming
  | _ => rfl

/-- Bytes come at the end, and packets are cut off at the front. -/
theorem Goes.incoming (h : Goes d s m e d' s' m') :
    (∃ bytes, s'.incoming = s.incoming ++ bytes ∧ packetAt e.turn = []) ∨
      ∃ packet, s.incoming = packet ++ s'.incoming ∧ packetAt e.turn = [packet] := by
  have hSame : s'.incoming = s.incoming → packetAt e.turn = [] →
      ∃ bytes, s'.incoming = s.incoming ++ bytes ∧ packetAt e.turn = [] := fun hSame hNone =>
    ⟨[], by rw [hSame, List.append_nil], hNone⟩
  cases h with
  | caller _ _ hCalls => exact .inl (hSame hCalls.incoming rfl)
  | writer _ _ hWrites => exact .inl (hSame hWrites.incoming rfl)
  | reader _ _ hReads => exact .inl (hSame hReads.incoming rfl)
  | takesReply _ _ _ hPacket => exact .inr ⟨_, (Packet.read_packet hPacket).1, rfl⟩
  | takesEvents _ _ _ _ hPacket => exact .inr ⟨_, (Packet.read_packet hPacket).1, rfl⟩
  | outside _ hOutside =>
    cases hOutside with
    | receive bytes => exact .inl ⟨bytes, rfl, rfl⟩
    | ends why => exact .inl (hSame rfl rfl)
    | events events taken dropped => exact .inl (hSame rfl rfl)
  | _ => exact .inl (hSame rfl rfl)

/-- All bytes that came are in packets that were read, or wait to be read. -/
def AllReceived (past : List Happening) (s : Connection) : Prop :=
  received past = (packets past).flatten ++ s.incoming

theorem AllReceived.step (h : AllReceived past s) (hGoes : Goes d s m e d' s' m') : AllReceived (past ++ [e]) s' := by
  obtain ⟨hBefore, hAfter⟩ := hGoes.around
  have hPast : received past = (packets past).flatten ++ s.incoming := h
  rw [AllReceived, received_snoc, packets_snoc, hBefore, hAfter, hPast]
  rcases hGoes.incoming with ⟨bytes, hMore, hNone⟩ | ⟨packet, hCut, hOne⟩
  · rw [hMore, hNone, added_append, List.append_nil, List.append_assoc]
  · have hShorter : added s.incoming s'.incoming = [] := added_of_length_le (by simp [hCut])
    rw [hShorter, hOne, hCut]
    simp

/-! ## What is written -/

def commandAt : Turn Party Errand Link → List Queued
  | .takesUp _ (.write q) => [q]
  | _ => []

/-- The commands that the writer took out of the queue. -/
def takenCommands (past : List Happening) : List Queued := past.flatMap fun e => commandAt e.turn

def bytesOf (commands : List Queued) : List Bytes := commands.map fun q => q.command.packet q.id

theorem puts_snoc (past : List Happening) (e : Happening) :
    puts (past ++ [e]) = puts past ++ added e.before.queue e.after.queue := by
  simp [puts]

theorem takenCommands_snoc (past : List Happening) (e : Happening) :
    takenCommands (past ++ [e]) = takenCommands past ++ commandAt e.turn := by
  simp [takenCommands]

theorem Calls.queue {id : UInt32} {c : Command} {w w' : Calling} (h : Calls id c w s w' s') :
    ∃ put, s'.queue = s.queue ++ put := by
  cases h with
  | put ticket => exact ⟨[⟨id, c, ticket⟩], rfl⟩
  | _ => exact ⟨[], (List.append_nil _).symm⟩

theorem owe_queue (q : Queued) (s : Connection) : (owe q s).2.queue = s.queue := by
  unfold owe
  split <;> rfl

theorem Writes.queue {w w' : Writing} (h : Writes q w s m w' s' m') : s'.queue = s.queue := by
  cases h with
  | owe _ _ => exact owe_queue ..
  | _ => rfl

theorem Reads.queue {w w' : Reading} (h : Reads w s w' s') : s'.queue = s.queue := by
  cases h with
  | other _ _ hAlike => exact hAlike.queue
  | _ => rfl

/-- Commands are put at the end of the queue, and taken from its front. -/
theorem Goes.queue (h : Goes d s m e d' s' m') :
    (∃ put, s'.queue = s.queue ++ put ∧ commandAt e.turn = []) ∨
      ∃ q, s.queue = q :: s'.queue ∧ commandAt e.turn = [q] := by
  have hSame : s'.queue = s.queue → commandAt e.turn = [] →
      ∃ put, s'.queue = s.queue ++ put ∧ commandAt e.turn = [] := fun hSame hNone =>
    ⟨[], by rw [hSame, List.append_nil], hNone⟩
  cases h with
  | caller _ _ hCalls =>
    obtain ⟨put, hPut⟩ := hCalls.queue
    exact .inl ⟨put, hPut, rfl⟩
  | takesCommand _ _ hQueue => exact .inr ⟨_, hQueue, rfl⟩
  | writer _ _ hWrites => exact .inl (hSame hWrites.queue rfl)
  | reader _ _ hReads => exact .inl (hSame hReads.queue rfl)
  | outside _ hOutside => cases hOutside <;> exact .inl (hSame rfl rfl)
  | _ => exact .inl (hSame rfl rfl)

/-- All that was put into the queue was taken by the writer, or waits in the queue. -/
def AllQueued (past : List Happening) (s : Connection) : Prop := puts past = takenCommands past ++ s.queue

theorem AllQueued.step (h : AllQueued past s) (hGoes : Goes d s m e d' s' m') : AllQueued (past ++ [e]) s' := by
  obtain ⟨hBefore, hAfter⟩ := hGoes.around
  have hPast : puts past = takenCommands past ++ s.queue := h
  rw [AllQueued, puts_snoc, takenCommands_snoc, hBefore, hAfter, hPast]
  rcases hGoes.queue with ⟨put, hMore, hNone⟩ | ⟨q, hTaken, hOne⟩
  · rw [hMore, hNone, added_append, List.append_nil, List.append_assoc]
  · have hShorter : added s.queue s'.queue = [] := added_of_length_le (by simp [hTaken])
    rw [hShorter, hOne, hTaken]
    simp

theorem Calls.closed {id : UInt32} {c : Command} {w w' : Calling} (h : Calls id c w s w' s') :
    s'.closed = s.closed := by
  cases h <;> rfl

theorem owe_closed (q : Queued) (s : Connection) : (owe q s).2.closed = s.closed := by
  unfold owe
  split <;> rfl

theorem Writes.closed {w w' : Writing} (h : Writes q w s m w' s' m') : s'.closed = s.closed := by
  cases h with
  | owe _ _ => exact owe_closed ..
  | _ => rfl

theorem Reads.closed {w w' : Reading} (h : Reads w s w' s') (hClosed : s.closed = true) : s'.closed = true := by
  cases h with
  | close _ _ => rfl
  | other _ _ hAlike => exact hAlike.closed.trans hClosed
  | _ => exact hClosed

/-- What is closed stays closed. -/
theorem Goes.closed (h : Goes d s m e d' s' m') (hClosed : s.closed = true) : s'.closed = true := by
  cases h with
  | caller _ _ hCalls => exact hCalls.closed.trans hClosed
  | writer _ _ hWrites => exact hWrites.closed.trans hClosed
  | reader _ _ hReads => exact hReads.closed hClosed
  | outside _ hOutside => cases hOutside <;> exact hClosed
  | _ => exact hClosed

/-- The writes are those of some commands, and of all of them if the connection is not closed. -/
structure Wrote (commands : List Queued) (s : Connection) (m : Written) : Prop where
  begins : m.map (·.1) <+: bytesOf commands
  all : s.closed = false → m.map (·.1) = bytesOf commands

theorem Wrote.later {commands : List Queued} (h : Wrote commands s m) (hClosed : s.closed = true → s'.closed = true) :
    Wrote commands s' m := by
  refine ⟨h.begins, fun hOpen => h.all ?_⟩
  cases hBefore : s.closed with
  | false => rfl
  | true => rw [hClosed hBefore] at hOpen; cases hOpen

/-- What was written when the writer is at some stage of the command that it took last. -/
def Writing.Holds (taken : List Queued) (q : Queued) (s : Connection) (m : Written) : Writing → Prop
  | .taken => ∃ before, taken = before ++ [q] ∧ Wrote before s m
  | noting | writing => ∃ before, taken = before ++ [q] ∧ m.map (·.1) = bytesOf before
  | _ => Wrote taken s m

theorem Writing.Holds.later {taken : List Queued} {w : Writing} (h : w.Holds taken q s m)
    (hClosed : s.closed = true → s'.closed = true) : w.Holds taken q s' m := by
  cases w with
  | taken =>
    obtain ⟨before, hTaken, hWrote⟩ := h
    exact ⟨before, hTaken, hWrote.later hClosed⟩
  | noting | writing => exact h
  | _ => exact Wrote.later h hClosed

theorem Writing.Holds.step {taken : List Queued} {w w' : Writing} (h : w.Holds taken q s m)
    (hWrites : Writes q w s m w' s' m') : w'.Holds taken q s' m' := by
  have hClosed : s.closed = true → s'.closed = true := hWrites.closed.trans
  cases hWrites with
  | refuse _ hOver =>
    obtain ⟨before, rfl, hWrote⟩ := h
    refine ⟨hWrote.begins.trans (by simp [bytesOf]), fun hOpen => ?_⟩
    rw [show (s.settle q.ticket (.error .closed)).closed = s.closed from rfl, hOver] at hOpen
    cases hOpen
  | owe _ hOpen =>
    obtain ⟨before, hTaken, hWrote⟩ := h
    exact ⟨before, hTaken, hWrote.all hOpen⟩
  | note => exact h
  | write | fail =>
    obtain ⟨before, rfl, hWrote⟩ := h
    have hAll : ∀ a : Except OsError Unit,
        (m ++ [(q.command.packet q.id, a)]).map (·.1) = bytesOf (before ++ [q]) := fun a => by
      rw [List.map_append, hWrote]
      simp [bytesOf]
    exact ⟨hAll _ ▸ List.prefix_rfl, fun _ => hAll _⟩
  | noteFailure => exact h
  | withdraw _ _ _ | nobody _ _ _ => exact Wrote.later h hClosed
  | settle => exact Wrote.later h hClosed

/-- What was written, whether or not the writer is at work. -/
def Desk.HasWritten (d : Desk) (taken : List Queued) (s : Connection) (m : Written) : Prop :=
  match d.writer with
  | none => Wrote taken s m
  | some (q, w) => w.Holds taken q s m

theorem Desk.HasWritten.aside {taken : List Queued} (h : d.HasWritten taken s m) (hSame : d'.writer = d.writer)
    (hClosed : s.closed = true → s'.closed = true) : d'.HasWritten taken s' m := by
  unfold Desk.HasWritten at h ⊢
  rw [hSame]
  split
  · next hNone =>
    rw [hNone] at h
    exact Wrote.later h hClosed
  · next hSome =>
    rw [hSome] at h
    exact Writing.Holds.later h hClosed

theorem Desk.HasWritten.step {taken : List Queued} (h : d.HasWritten taken s m) (hGoes : Goes d s m e d' s' m') :
    d'.HasWritten (taken ++ commandAt e.turn) s' m' := by
  have hClosed := hGoes.closed
  cases hGoes with
  | takesCommand _ hNone _ =>
    simp only [Desk.HasWritten, hNone] at h
    exact ⟨taken, rfl, h.later hClosed⟩
  | writer _ hWriter hWrites =>
    simp only [Desk.HasWritten, hWriter] at h
    rw [show commandAt _ = [] from rfl, List.append_nil]
    exact h.step hWrites
  | wrote _ hWriter hOver =>
    subst hOver
    simp only [Desk.HasWritten, hWriter] at h
    rw [show commandAt _ = [] from rfl, List.append_nil]
    exact h
  | _ =>
    rw [show commandAt _ = [] from rfl, List.append_nil]
    exact h.aside rfl hClosed

/-- Whatever was written are whole packets, in the order in which the commands were taken. -/
theorem Desk.HasWritten.begins {taken : List Queued} (h : d.HasWritten taken s m) : m.map (·.1) <+: bytesOf taken := by
  unfold Desk.HasWritten at h
  split at h
  · exact Wrote.begins h
  next q w _ =>
  cases w with
  | taken =>
    obtain ⟨before, rfl, hWrote⟩ := h
    exact hWrote.begins.trans (by simp [bytesOf])
  | noting | writing =>
    obtain ⟨before, rfl, hWrote⟩ := h
    rw [hWrote]
    simp [bytesOf]
  | _ => exact Wrote.begins h

end Connection
end JvmDebug.Jdwp
