import JvmDebug.Proofs.Connection.Stream
import Mathlib.Data.List.Nodup

/-!
# Who is owed an outcome

From the moment in which a command is put into the queue until it has an outcome, exactly one of the queue, the writer,
the table of owed replies and the reader holds its ticket.
-/

namespace JvmDebug.Jdwp.Connection
set_option autoImplicit false

variable {past : List Happening} {d d' : Desk} {s s' : Connection} {m m' : Written} {e : Happening} {q : Queued}
  {id : UInt32} {c : Command} {ticket : Ticket}

/-- A ticket, and the id under which its command is sent. -/
abbrev Stub := UInt32 × Ticket

def stubOf (q : Queued) : Stub := (q.id, q.ticket)

/-- What the writer holds at a stage of its work. -/
def Writing.hand (q : Queued) : Writing → List Stub
  | .taken => [stubOf q]
  | settling ticket _ => [(q.id, ticket)]
  | _ => []

/-- What the reader holds at a stage of its work. -/
def Reading.hand : Reading → List Stub
  | settling id ticket _ => [(id, ticket)]
  | _ => []

def Desk.writerHand (d : Desk) : List Stub := d.writer.elim [] fun x => x.2.hand x.1

def Desk.readerHand (d : Desk) : List Stub := d.reader.elim [] fun x => x.2.hand

/-- All stubs for which there is no outcome yet, by where they are. -/
def Desk.open (d : Desk) (s : Connection) : List Stub :=
  s.queue.map stubOf ++ d.writerHand ++ s.owed ++ d.readerHand

/-- A stub and the outcome that its ticket got. -/
abbrev Paid := Stub × Except Error Reply

def Paid.outcome (x : Paid) : Ticket × Except Error Reply := (x.1.2, x.2)

/-! ## The table -/

/-- No two replies are owed under one id, and none once the connection is closed. -/
structure Tidy (s : Connection) : Prop where
  once : (s.owed.map (·.1)).Nodup
  closed : s.closed = true → s.owed = []

theorem Tidy.redeem (h : Tidy s) (id : UInt32) : Tidy (redeem id s).2 where
  once := h.once.sublist (List.filter_sublist.map _)
  closed hClosed := by
    change s.owed.filter _ = []
    rw [h.closed hClosed]
    rfl

theorem perm_of_split (l : List Stub) (id : UInt32) : (l.filter (·.1 ≠ id) ++ l.filter (·.1 = id)).Perm l := by
  refine List.perm_append_comm.trans ?_
  simpa using List.filter_append_perm (fun x : Stub => decide (x.1 = id)) l

theorem owe_open (hOpen : s.closed = false) (q : Queued) : (owe q s).2 = { s with
    owed := s.owed.filter (·.1 ≠ q.id) ++ [stubOf q]
    outcomes := s.outcomes ++ (s.owed.filter (·.1 = q.id)).map fun r => (r.2, .error .closed) } := by
  simp [owe, hOpen, stubOf]

theorem Tidy.owe (h : Tidy s) (hOpen : s.closed = false) (q : Queued) : Tidy (owe q s).2 := by
  rw [owe_open hOpen]
  constructor
  · rw [List.map_append, List.nodup_append]
    refine ⟨h.once.sublist (List.filter_sublist.map _), by simp, ?_⟩
    intro a ha b hb
    obtain ⟨x, hx, rfl⟩ := List.mem_map.mp ha
    rw [List.mem_singleton.mp hb]
    simpa [stubOf] using (List.mem_filter.mp hx).2
  · intro hClosed
    rw [show s.closed = true from hClosed] at hOpen
    cases hOpen

theorem Tidy.of_same (h : Tidy s) (hOwed : s'.owed = s.owed) (hClosed : s'.closed = s.closed) : Tidy s' :=
  ⟨hOwed ▸ h.once, fun hNow => hOwed.trans (h.closed (hClosed.symm.trans hNow))⟩

/-- What is redeemed is taken out of the table. -/
theorem redeem_some (h : Tidy s) (hSome : (redeem id s).1 = some ticket) :
    s.owed.Perm ((id, ticket) :: (redeem id s).2.owed) := by
  obtain ⟨x, hFind, rfl⟩ := Option.map_eq_some_iff.mp hSome
  have hMem := List.mem_of_find?_eq_some hFind
  obtain rfl : x.1 = id := by simpa using List.find?_some hFind
  have hOthers : s.owed.erase x = s.owed.filter (·.1 ≠ x.1) := by
    rw [(List.Nodup.of_map _ h.once).erase_eq_filter x]
    refine List.filter_congr fun y hy => ?_
    have hSame : y = x ↔ y.1 = x.1 := ⟨congrArg _, List.inj_on_of_nodup_map h.once hy hMem⟩
    rw [bne, beq_eq_decide, ← decide_not, decide_eq_decide]
    exact not_congr hSame
  change s.owed.Perm (x :: s.owed.filter (·.1 ≠ x.1))
  rw [← hOthers]
  exact List.perm_cons_erase hMem

theorem redeem_none (hNone : (redeem id s).1 = none) : (redeem id s).2.owed = s.owed := by
  refine List.filter_eq_self.mpr fun x hx => ?_
  have hNot := List.find?_eq_none.mp (Option.map_eq_none_iff.mp hNone) x hx
  simpa using hNot

/-! ## Steps -/

theorem Tidy.writes {w w' : Writing} (h : Tidy s) (hWrites : Writes q w s m w' s' m') : Tidy s' := by
  cases hWrites with
  | owe _ hOpen => exact h.owe hOpen q
  | withdraw _ _ _ | nobody _ _ _ => exact h.redeem q.id
  | _ => exact h.of_same rfl rfl

theorem Tidy.reads {w w' : Reading} (h : Tidy s) (hReads : Reads w s w' s') : Tidy s' := by
  cases hReads with
  | redeem _ _ | nobody _ _ _ => exact h.redeem _
  | close => exact ⟨List.nodup_nil, fun _ => rfl⟩
  | other _ _ hAlike => exact h.of_same hAlike.owed hAlike.closed
  | _ => exact h.of_same rfl rfl

theorem Tidy.step (h : Tidy s) (hGoes : Goes d s m e d' s' m') : Tidy s' := by
  cases hGoes with
  | caller _ _ hCalls => cases hCalls <;> exact h.of_same rfl rfl
  | writer _ _ hWrites => exact h.writes hWrites
  | reader _ _ hReads => exact h.reads hReads
  | outside _ hOutside => cases hOutside <;> exact h.of_same rfl rfl
  | _ => exact h.of_same rfl rfl

/-- A step pays some stubs, and passes on the others that it found. -/
structure Pays (found left : List Stub) (s s' : Connection) (paid : List Paid) : Prop where
  outcomes : added s.outcomes s'.outcomes = paid.map Paid.outcome
  passed : (left ++ paid.map (·.1)).Perm found

theorem Pays.nothing (found : List Stub) (h : s'.outcomes.length ≤ s.outcomes.length) : Pays found found s s' [] :=
  ⟨added_of_length_le h, by simp⟩

/-- What others hold is passed on as it is. -/
theorem Pays.within {found left : List Stub} {paid : List Paid} (h : Pays found left s s' paid) (before after : List Stub) :
    Pays (before ++ found ++ after) (before ++ left ++ after) s s' paid := by
  refine ⟨h.outcomes, List.perm_iff_count.mpr fun x => ?_⟩
  have hCount := h.passed.count_eq x
  simp only [List.count_append] at hCount ⊢
  omega

/-- An error for everybody in a list. -/
def allClosed (l : List Stub) : List Paid := l.map fun x => (x, .error .closed)

theorem allClosed_stubs (l : List Stub) : (allClosed l).map (·.1) = l := by
  simp [allClosed, Function.comp_def]

theorem allClosed_outcomes (l : List Stub) : (allClosed l).map Paid.outcome = l.map fun x => (x.2, .error .closed) := by
  simp [allClosed, Paid.outcome]

theorem allClosed_error {l : List Stub} {x : Paid} (hx : x ∈ allClosed l) : x.2 = .error .closed := by
  obtain ⟨y, -, rfl⟩ := List.mem_map.mp hx
  rfl

theorem Pays.writes {w w' : Writing} (h : Tidy s) (hWrites : Writes q w s m w' s' m') :
    ∃ paid, Pays (w.hand q ++ s.owed) (w'.hand q ++ s'.owed) s s' paid ∧ ∀ x ∈ paid, ∃ why, x.2 = .error why := by
  cases hWrites with
  | refuse _ _ =>
    refine ⟨[(stubOf q, .error .closed)], ⟨added_append .., ?_⟩, by simp⟩
    exact List.perm_append_comm
  | owe _ hOpen =>
    rw [owe_open hOpen]
    refine ⟨allClosed (s.owed.filter (·.1 = q.id)), ⟨?_, ?_⟩, ?_⟩
    · rw [allClosed_outcomes]
      exact added_append ..
    · rw [allClosed_stubs]
      change (s.owed.filter (·.1 ≠ q.id) ++ [stubOf q] ++ s.owed.filter (·.1 = q.id)).Perm (stubOf q :: s.owed)
      rw [List.append_assoc]
      exact List.perm_middle.trans ((perm_of_split s.owed q.id).cons _)
    · intro x hx
      exact ⟨_, allClosed_error hx⟩
  | note | write | fail | noteFailure => exact ⟨[], .nothing _ (Nat.le_refl _), by simp⟩
  | withdraw _ _ hSome =>
    refine ⟨[], ⟨added_self _, ?_⟩, by simp⟩
    simpa [Writing.hand] using (redeem_some h hSome).symm
  | nobody _ _ hNone =>
    refine ⟨[], ⟨added_self _, ?_⟩, by simp⟩
    simp [Writing.hand, redeem_none hNone]
  | settle _ _ ticket why =>
    refine ⟨[((q.id, ticket), .error (.os why))], ⟨added_append .., ?_⟩, by simp⟩
    exact List.perm_append_comm

theorem Pays.reads {w w' : Reading} (h : Tidy s) (hReads : Reads w s w' s') :
    ∃ paid, Pays (s.owed ++ w.hand) (s'.owed ++ w'.hand) s s' paid ∧
      ∀ x ∈ paid, (∃ packet, w = .settling x.1.1 x.1.2 packet ∧ x.2 = Reply.ofPacket packet) ∨
        w = .closing ∧ x.2 = .error .closed := by
  cases hReads with
  | redeem packet hSome =>
    refine ⟨[], ⟨added_self _, ?_⟩, by simp⟩
    simp only [Reading.hand, List.map_nil, List.append_nil]
    exact (List.perm_append_singleton ..).trans (redeem_some h hSome).symm
  | nobody _ _ hNone =>
    refine ⟨[], ⟨added_self _, ?_⟩, by simp⟩
    simp [Reading.hand, redeem_none hNone]
  | settle _ id ticket packet _ =>
    refine ⟨[((id, ticket), Reply.ofPacket packet)], ⟨added_append .., ?_⟩, ?_⟩
    · simp [Reading.hand, Connection.settle]
    · intro x hx
      rw [List.mem_singleton.mp hx]
      exact .inl ⟨packet, rfl, rfl⟩
  | note _ why => exact ⟨[], .nothing _ (Nat.le_refl _), by simp⟩
  | close _ _ =>
    refine ⟨allClosed s.owed, ⟨?_, ?_⟩, fun x hx => .inr ⟨rfl, allClosed_error hx⟩⟩
    · rw [allClosed_outcomes]
      exact added_append ..
    · simp [close, allClosed_stubs, Reading.hand]
  | other _ _ hAlike =>
    rw [hAlike.owed]
    exact ⟨[], .nothing _ (Nat.le_of_eq (congrArg _ hAlike.outcomes)), by simp⟩

/-! ## The reader's errand -/

/-- How a stage of the reader's work goes with its errand. -/
def Reading.Fits (errand : Errand) (s : Connection) : Reading → Prop
  | routing id packet | settling id _ packet => errand = .reply id packet
  | ending _ | closing => ∃ why, errand = .shutDown why
  | other _ _ => (∃ why, errand = .shutDown why) → s.closed = true

theorem Reading.Fits.later {errand : Errand} {w : Reading} (h : w.Fits errand s)
    (hClosed : s.closed = true → s'.closed = true) : w.Fits errand s' := by
  cases w with
  | other _ _ => exact fun hEnds => hClosed (h hEnds)
  | _ => exact h

theorem Reading.Fits.step {errand : Errand} {w w' : Reading} (h : w.Fits errand s) (hReads : Reads w s w' s') :
    w'.Fits errand s' := by
  cases hReads with
  | redeem _ _ => exact h
  | nobody _ _ _ | settle _ _ _ _ _ =>
    rintro ⟨why, rfl⟩
    cases h
  | note _ _ => exact h
  | close _ _ => exact fun _ => rfl
  | other _ _ hAlike => exact fun hEnds => hAlike.closed.trans (h hEnds)

theorem replies_snoc (past : List Happening) (e : Happening) :
    replies (past ++ [e]) = replies past ++ replyAt e.turn := by
  simp [replies]

/-- What the reader is at. When it has ended, it takes nothing up any more. -/
structure Heard (past : List Happening) (d : Desk) (s : Connection) : Prop where
  fits : ∀ errand w, d.reader = some (errand, w) → w.Fits errand s
  reply : ∀ id packet w, d.reader = some (.reply id packet, w) → (id, packet) ∈ replies past
  ends : ∀ why w, d.reader = some (.shutDown why, w) → s.reading = false
  ended : HasEnded past → d.reader = none ∧ s.reading = false ∧ s.closed = true

theorem HasEnded.before (h : HasEnded (past ++ [e])) (hOther : ∀ why, e.turn ≠ .isDone .reader (.shutDown why)) :
    HasEnded past := by
  obtain ⟨why, x, hx, hTurn⟩ := h
  rcases List.mem_append.mp hx with hx | hx
  · exact ⟨why, x, hx, hTurn⟩
  · rw [List.mem_singleton.mp hx] at hTurn
    exact absurd hTurn (hOther why)

/-- Nothing changes for the reader where the others are at work. -/
theorem Heard.aside (h : Heard past d s) (hReader : d'.reader = d.reader) (hReading : s'.reading = s.reading)
    (hClosed : s.closed = true → s'.closed = true) (hOther : ∀ why, e.turn ≠ .isDone .reader (.shutDown why)) :
    Heard (past ++ [e]) d' s' where
  fits errand w hWork := (h.fits errand w (hReader ▸ hWork)).later hClosed
  reply id packet w hWork := by
    rw [replies_snoc]
    exact List.mem_append_left _ (h.reply id packet w (hReader ▸ hWork))
  ends why w hWork := hReading.trans (h.ends why w (hReader ▸ hWork))
  ended hEnded :=
    have ⟨hNone, hStopped, hShut⟩ := h.ended (hEnded.before hOther)
    ⟨hReader.trans hNone, hReading.trans hStopped, hClosed hShut⟩

/-- As long as packets are read, the reader has not ended. -/
theorem Heard.not_ended (h : Heard past d s) (hReading : s.reading = true) : ¬ HasEnded past := fun hEnded => by
  have hStopped := (h.ended hEnded).2.1
  rw [hReading] at hStopped
  cases hStopped

/-- What there is to say when the reader comes to a stage of an errand. -/
theorem Heard.put {errand : Errand} {w : Reading} (hEnded : ¬ HasEnded past)
    (hOther : ∀ why, e.turn ≠ .isDone .reader (.shutDown why)) (hReader : d.reader = some (errand, w))
    (hFits : w.Fits errand s) (hReply : ∀ id packet, errand = .reply id packet → (id, packet) ∈ replies (past ++ [e]))
    (hEnds : ∀ why, errand = .shutDown why → s.reading = false) : Heard (past ++ [e]) d s where
  fits errand' w' hWork := by
    cases hReader.symm.trans hWork
    exact hFits
  reply id packet w' hWork := by
    cases hReader.symm.trans hWork
    exact hReply id packet rfl
  ends why w' hWork := by
    cases hReader.symm.trans hWork
    exact hEnds why rfl
  ended hNow := absurd (hNow.before hOther) hEnded

/-- The reader has nothing at hand. -/
theorem Heard.idle (hReader : d.reader = none) (hEnded : HasEnded past → s.reading = false ∧ s.closed = true) :
    Heard past d s where
  fits _ _ hWork := absurd (hReader.symm.trans hWork) (by simp)
  reply _ _ _ hWork := absurd (hReader.symm.trans hWork) (by simp)
  ends _ _ hWork := absurd (hReader.symm.trans hWork) (by simp)
  ended h := ⟨hReader, hEnded h⟩

theorem Writes.reading {w w' : Writing} (h : Writes q w s m w' s' m') : s'.reading = s.reading := by
  cases h with
  | owe _ hOpen => rw [owe_open hOpen]
  | _ => rfl

theorem Reads.reading {w w' : Reading} (h : Reads w s w' s') : s'.reading = s.reading := by
  cases h with
  | other _ _ hAlike => exact hAlike.reading
  | _ => rfl

theorem Heard.step (h : Heard past d s) (hGoes : Goes d s m e d' s' m') : Heard (past ++ [e]) d' s' := by
  have hClosed := hGoes.closed
  cases hGoes with
  | takesReply _ hNone hReading _ =>
    refine Heard.put (h.not_ended hReading) nofun rfl rfl ?_ nofun
    rintro id packet ⟨⟩
    simp [replies_snoc, replyAt]
  | takesEvents _ hApart hNone hReading _ => exact Heard.put (h.not_ended hReading) nofun rfl nofun nofun nofun
  | takesEnd _ hNone hReading _ =>
    exact Heard.put (h.not_ended hReading) nofun rfl ⟨_, rfl⟩ nofun fun _ _ => rfl
  | reader _ hReader hReads =>
    have hEnded : ¬ HasEnded past := fun hEnded => by cases (h.ended hEnded).1.symm.trans hReader
    refine Heard.put hEnded nofun rfl ((h.fits _ _ hReader).step hReads) ?_ ?_
    · rintro id packet rfl
      rw [replies_snoc]
      exact List.mem_append_left _ (h.reply id packet _ hReader)
    · rintro why rfl
      exact hReads.reading.trans (h.ends why _ hReader)
  | read _ hReader =>
    refine Heard.idle rfl fun hEnded => ?_
    obtain ⟨why, x, hx, hTurn⟩ := hEnded
    rcases List.mem_append.mp hx with hx | hx
    · cases (h.ended ⟨why, x, hx, hTurn⟩).1.symm.trans hReader
    · rw [List.mem_singleton.mp hx] at hTurn
      cases hTurn
      exact ⟨h.ends why _ hReader, h.fits _ _ hReader ⟨why, rfl⟩⟩
  | caller _ _ hCalls => exact h.aside rfl (by cases hCalls <;> rfl) hClosed nofun
  | writer _ _ hWrites => exact h.aside rfl hWrites.reading hClosed nofun
  | outside _ hOutside => exact h.aside rfl (by cases hOutside <;> rfl) hClosed nofun
  | _ => exact h.aside rfl rfl hClosed nofun

/-! ## The account -/

/-- The moment in which a reply is handed on pays what has its id, and nothing else is paid with a reply. -/
structure ByReply (past : List Happening) (e : Happening) (x : Paid) : Prop where
  handed : ∀ id packet, e.turn = .goesOn .reader (.reply id packet) none → x.1.1 = id ∧ x.2 = Reply.ofPacket packet
  reply : ∀ r, x.2 = .ok r → ∃ packet, (x.1.1, packet) ∈ replies past ∧ Reply.ofPacket packet = .ok r

/-- A step at which nothing is put and nothing is paid. -/
theorem Pays.none (hQueue : s'.queue.length ≤ s.queue.length) (hOutcomes : s'.outcomes.length ≤ s.outcomes.length)
    (hOpen : (d'.open s').Perm (d.open s)) :
    ∃ paid, Pays (d.open s ++ (added s.queue s'.queue).map stubOf) (d'.open s') s s' paid ∧
      ∀ x ∈ paid, ByReply past e x := by
  rw [added_of_length_le hQueue, List.map_nil, List.append_nil]
  exact ⟨[], ⟨added_of_length_le hOutcomes, by simpa using hOpen⟩, by simp⟩

theorem Pays.calls {w w' : Calling} (h : Calls id c w s w' s') (hWriter : d'.writer = d.writer)
    (hReader : d'.reader = d.reader) :
    ∃ paid, Pays (d.open s ++ (added s.queue s'.queue).map stubOf) (d'.open s') s s' paid ∧
      ∀ x ∈ paid, ByReply past e x := by
  have hHand : d'.writerHand = d.writerHand := by rw [Desk.writerHand, hWriter]; rfl
  have hHand' : d'.readerHand = d.readerHand := by rw [Desk.readerHand, hReader]; rfl
  have hEq : d'.open s' = s'.queue.map stubOf ++ d.writerHand ++ s'.owed ++ d.readerHand := by
    rw [Desk.open, hHand, hHand']
  cases h with
  | put ticket =>
    refine ⟨[], ⟨added_self _, ?_⟩, by simp⟩
    rw [hEq, show (s.enqueue ⟨id, c, ticket⟩).queue = s.queue ++ [⟨id, c, ticket⟩] from rfl, added_append]
    refine List.perm_iff_count.mpr fun x => ?_
    simp only [Desk.open, enqueue, List.map_append, List.map_nil, List.append_nil, List.count_append]
    omega
  | take ticket => exact Pays.none (Nat.le_refl _) (List.length_filter_le ..) (hEq ▸ .refl _)
  | _ => exact Pays.none (Nat.le_refl _) (Nat.le_refl _) (hEq ▸ .refl _)

theorem Goes.pays (h : Tidy s) (hHeard : Heard past d s) (hGoes : Goes d s m e d' s' m') :
    ∃ paid, Pays (d.open s ++ (added s.queue s'.queue).map stubOf) (d'.open s') s s' paid ∧
      ∀ x ∈ paid, ByReply past e x := by
  cases hGoes with
  | calls => exact Pays.none (Nat.le_refl _) (Nat.le_refl _) (.refl _)
  | caller _ _ hCalls => exact Pays.calls hCalls rfl rfl
  | returns => exact Pays.none (Nat.le_refl _) (Nat.le_refl _) (.refl _)
  | takesCommand _ hNone hQueue =>
    refine Pays.none (by simp [hQueue]) (Nat.le_refl _) ?_
    simp [Desk.open, Desk.writerHand, hNone, Writing.hand, hQueue, Desk.readerHand]
  | writer _ hWriter hWrites =>
    obtain ⟨paid, hPays, hErrors⟩ := Pays.writes h hWrites
    refine ⟨paid, ?_, fun x hx => ⟨by rintro _ _ ⟨⟩, fun r hr => by
      obtain ⟨why, hWhy⟩ := hErrors x hx
      cases hWhy.symm.trans hr⟩⟩
    have hAll := hPays.within (s.queue.map stubOf) d.readerHand
    rw [hWrites.queue, added_self]
    simpa [Desk.open, Desk.writerHand, hWriter, Desk.readerHand, hWrites.queue] using hAll
  | wrote _ hWriter hOver =>
    refine Pays.none (Nat.le_refl _) (Nat.le_refl _) ?_
    simp [Desk.open, Desk.writerHand, hWriter, hOver, Writing.hand, Desk.readerHand]
  | takesReply _ hNone hReading _ =>
    refine Pays.none (Nat.le_refl _) (Nat.le_refl _) ?_
    simp [Desk.open, Desk.readerHand, hNone, Reading.hand, Desk.writerHand]
  | takesEvents _ hApart hNone hReading _ =>
    refine Pays.none (Nat.le_refl _) (Nat.le_refl _) ?_
    simp [Desk.open, Desk.readerHand, hNone, Reading.hand, Desk.writerHand]
  | takesEnd _ hNone hReading _ =>
    refine Pays.none (Nat.le_refl _) (Nat.le_refl _) ?_
    simp [Desk.open, Desk.readerHand, hNone, Reading.hand, Desk.writerHand]
  | reader _ hReader hReads =>
    obtain ⟨paid, hPays, hReplies⟩ := Pays.reads h hReads
    refine ⟨paid, ?_, fun x hx => ?_⟩
    · have hAll := hPays.within (s.queue.map stubOf ++ d.writerHand) []
      rw [hReads.queue, added_self]
      simpa [Desk.open, Desk.readerHand, hReader, Desk.writerHand, hReads.queue] using hAll
    · have hFits := hHeard.fits _ _ hReader
      rcases hReplies x hx with ⟨packet, rfl, hPacket⟩ | ⟨rfl, hClosed⟩
      · obtain rfl := hFits
        refine ⟨?_, fun r hr => ⟨packet, hHeard.reply _ _ _ hReader, hPacket.symm.trans hr⟩⟩
        rintro id packet' ⟨⟩
        exact ⟨rfl, hPacket⟩
      · obtain ⟨why, rfl⟩ := hFits
        exact ⟨by rintro _ _ ⟨⟩, fun r hr => by cases hClosed.symm.trans hr⟩
  | read _ hReader =>
    refine Pays.none (Nat.le_refl _) (Nat.le_refl _) ?_
    simp [Desk.open, Desk.readerHand, hReader, Reading.hand, Desk.writerHand]
  | outside _ hOutside => cases hOutside <;> exact Pays.none (Nat.le_refl _) (Nat.le_refl _) (.refl _)

theorem settled_snoc (past : List Happening) (e : Happening) :
    settled (past ++ [e]) = settled past ++ added e.before.outcomes e.after.outcomes := by
  simp [settled]

/-- All stubs that were ever put are open or paid. -/
structure Account (past : List Happening) (d : Desk) (s : Connection) (paid : List Paid) : Prop where
  outcomes : settled past = paid.map Paid.outcome
  all : (d.open s ++ paid.map (·.1)).Perm ((puts past).map stubOf)
  reply : ∀ x ∈ paid, ∀ r, x.2 = .ok r → ∃ packet, (x.1.1, packet) ∈ replies past ∧ Reply.ofPacket packet = .ok r

theorem Account.step {paid : List Paid} (h : Account past d s paid) (hTidy : Tidy s) (hHeard : Heard past d s)
    (hGoes : Goes d s m e d' s' m') : ∃ paid', Account (past ++ [e]) d' s' (paid ++ paid') := by
  obtain ⟨hBefore, hAfter⟩ := hGoes.around
  obtain ⟨paid', hPays, hReplies⟩ := hGoes.pays hTidy hHeard
  refine ⟨paid', ?_, ?_, fun x hx r hr => ?_⟩
  · rw [settled_snoc, hBefore, hAfter, h.outcomes, hPays.outcomes, List.map_append]
  · rw [puts_snoc, hBefore, hAfter]
    refine List.perm_iff_count.mpr fun x => ?_
    have hOld := h.all.count_eq x
    have hNew := hPays.passed.count_eq x
    simp only [List.map_append, List.count_append] at hOld hNew ⊢
    omega
  · rw [replies_snoc]
    rcases List.mem_append.mp hx with hx | hx
    · obtain ⟨packet, hPacket, hReply⟩ := h.reply x hx r hr
      exact ⟨packet, List.mem_append_left _ hPacket, hReply⟩
    · obtain ⟨packet, hPacket, hReply⟩ := (hReplies x hx).reply r hr
      exact ⟨packet, List.mem_append_left _ hPacket, hReply⟩

end JvmDebug.Jdwp.Connection
