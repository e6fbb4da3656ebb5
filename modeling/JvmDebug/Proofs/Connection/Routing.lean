import JvmDebug.Proofs.Connection.Dealing

/-!
# Where packets go

The reader deals with the frames of a stream one after the other, however the stream comes in and whatever callers and
the writer do meanwhile. At the tail it stops, and with it the events end.
-/

namespace JvmDebug.Jdwp.Connection
set_option autoImplicit false

open Packet (streamOf IsTail)

variable {past : List Happening} {d d' : Desk} {s s' : Connection} {m m' : Written} {e : Happening}
  {a : Scene Party Errand Connection Link Written Party.Result} {frames : List Packet.Frame} {tail : Bytes} {why : Error}
  {job : Errand}

/-! ## The order of the stream -/

inductive Part where
  | frame (f : Packet.Frame)
  | tail (bytes : Bytes)

def parts (frames : List Packet.Frame) (tail : Bytes) : List Part := frames.map .frame ++ [.tail tail]

/-- As what the reader takes up a part of the stream. -/
def Part.Is : Part → Errand → Prop
  | .frame f, job => job = errandOf f
  | .tail bytes, job => ∃ why ended, Packet.read ended bytes = .failed why ∧ job = .shutDown why

/-- What the reader took up and did is what belongs to a part of the stream. -/
def Part.Dealt : Part → Errand × List Deed → Prop
  | .frame f, x => x.1 = errandOf f ∧ Connection.Dealt f x.2
  | .tail bytes, x => (∃ why ended, Packet.read ended bytes = .failed why ∧ x.1 = .shutDown why) ∧ Closes x.2

/-- What has come is always a beginning of the stream, and all of it once the stream has ended. -/
def Carries (stream : Bytes) (past : List Happening) : Prop :=
  ∀ i (h : i < past.length), received (past.take (i + 1)) <+: stream ∧
    (past[i].after.ended.isSome → received (past.take (i + 1)) = stream)

instance (stream : Bytes) (past : List Happening) : Decidable (Carries stream past) :=
  inferInstanceAs (Decidable (∀ i (_ : i < past.length), _))

variable {stream : Bytes}

theorem Carries.before (h : Carries stream (past ++ [e])) : Carries stream past := by
  intro i hi
  have hHere := h i (by simp; omega)
  rwa [List.take_append_of_le_length hi, List.getElem_append_left hi] at hHere

theorem Carries.now (h : Carries stream past) (hComes : Comes past a) :
    received past <+: stream ∧ (a.state.ended.isSome → received past = stream) := by
  cases hComes with
  | nil => exact ⟨List.nil_prefix, nofun⟩
  | @snoc past e b c _ hHappens =>
    have hLast := h past.length (by simp)
    rw [List.getElem_concat_length rfl, hHappens.after, List.take_of_length_le (by simp)] at hLast
    exact hLast

/-- How far the reader has come in the stream. -/
structure InOrder (frames : List Packet.Frame) (tail : Bytes) (past : List Happening) (s : Connection) : Prop where
  jobs : List.Forall₂ Part.Is ((parts frames tail).take (begun .reader past).length) (begun .reader past)
  packets : packets past = (frames.take (begun .reader past).length).map (·.bytes)
  reading : if s.reading then (begun .reader past).length ≤ frames.length
    else (begun .reader past).length = frames.length + 1

theorem InOrder.aside (h : InOrder frames tail past s) (hBegins : e.begins .reader = []) (hNone : packetAt e.turn = [])
    (hReading : s'.reading = s.reading) : InOrder frames tail (past ++ [e]) s' := by
  have hBegun : begun .reader (past ++ [e]) = begun .reader past := by rw [begun_snoc, hBegins, List.append_nil]
  have hPackets : Connection.packets (past ++ [e]) = Connection.packets past := by
    rw [packets_snoc, hNone, List.append_nil]
  constructor
  · rw [hBegun]
    exact h.jobs
  · rw [hBegun, hPackets]
    exact h.packets
  · rw [hBegun, hReading]
    exact h.reading

theorem InOrder.here (h : InOrder frames tail past s) (hReading : s.reading = true) :
    (begun .reader past).length ≤ frames.length := by
  have hHere := h.reading
  rwa [if_pos hReading] at hHere

/-- What waits to be read is of the frames that were not taken up, and of the tail. -/
theorem InOrder.waiting (h : InOrder frames tail past s) (hAll : AllReceived past s) (hStream : received past <+: streamOf frames tail) :
    s.incoming <+: streamOf (frames.drop (begun .reader past).length) tail ∧
      (received past = streamOf frames tail → s.incoming = streamOf (frames.drop (begun .reader past).length) tail) := by
  have hSplit : streamOf frames tail =
      (Connection.packets past).flatten ++ streamOf (frames.drop (begun .reader past).length) tail := by
    rw [h.packets, streamOf, streamOf, ← List.append_assoc, ← List.flatten_append, ← List.map_append, List.take_append_drop]
  have hReceived : received past = (Connection.packets past).flatten ++ s.incoming := hAll
  rw [hSplit, hReceived]
  rw [hSplit, hReceived] at hStream
  exact ⟨(List.prefix_append_right_inj _).mp hStream, List.append_cancel_left⟩

/-- The reader takes up the part that is next. -/
theorem InOrder.next (h : InOrder frames tail past s) {p : Part} (hPart : (parts frames tail)[(begun .reader past).length]? = some p)
    (hIs : p.Is job) (hBegins : e.begins .reader = [job]) (hPackets : packetAt e.turn =
      ((frames.drop (begun .reader past).length).take 1).map (·.bytes))
    (hReading : if s'.reading then (begun .reader past).length < frames.length
      else (begun .reader past).length = frames.length) : InOrder frames tail (past ++ [e]) s' := by
  have hBegun : begun .reader (past ++ [e]) = begun .reader past ++ [job] := by rw [begun_snoc, hBegins]
  have hLength : (begun .reader (past ++ [e])).length = (begun .reader past).length + 1 := by simp [hBegun]
  constructor
  · rw [hLength, hBegun, List.take_add_one, hPart]
    exact List.rel_append h.jobs (.cons hIs .nil)
  · rw [hLength, packets_snoc, h.packets, hPackets, ← List.map_append, List.take_add]
  · rw [hLength]
    split at hReading
    · next hOn => rwa [if_pos hOn]
    · next hOff => rw [if_neg hOff, hReading]

theorem parts_frame {n : Nat} {f : Packet.Frame} {others : List Packet.Frame} (h : frames.drop n = f :: others) :
    (parts frames tail)[n]? = some (.frame f) ∧ n < frames.length := by
  have hLess : n < frames.length := by
    by_contra hNot
    rw [List.drop_eq_nil_of_le (Nat.le_of_not_lt hNot)] at h
    cases h
  refine ⟨?_, hLess⟩
  have hHead : frames[n]? = some f := by rw [← List.head?_drop, h, List.head?_cons]
  rw [parts, List.getElem?_append_left (by simpa using hLess), List.getElem?_map, hHead]
  rfl

theorem parts_tail (frames : List Packet.Frame) (tail : Bytes) : (parts frames tail)[frames.length]? = some (.tail tail) := by
  simp [parts]

theorem InOrder.step (h : InOrder frames tail past s) (hTail : IsTail tail) (hAll : AllReceived past s)
    (hStream : received past <+: streamOf frames tail) (hEnd : s.ended.isSome → received past = streamOf frames tail)
    (hGoes : Goes d s m e d' s' m') : InOrder frames tail (past ++ [e]) s' := by
  obtain ⟨hFront, hWhole⟩ := h.waiting hAll hStream
  -- A packet that is taken up is the next frame.
  have hFrame : ∀ {isReply : Bool} {id packet rest}, s.reading = true → s'.reading = true →
      Packet.read s.ended s.incoming = .packet id isReply packet rest → packetAt e.turn = [packet] →
      e.begins .reader = [if isReply then .reply id packet else .events packet] → InOrder frames tail (past ++ [e]) s' := by
    intro isReply id packet rest hReading hReading' hRead hPacket hBegins
    obtain ⟨f, others, hNext, rfl, rfl, rfl⟩ := Packet.first_frame hTail hFront hRead
    obtain ⟨hPart, hLess⟩ := parts_frame hNext
    refine h.next hPart rfl hBegins ?_ ?_
    · rw [hPacket, hNext]
      rfl
    · rwa [if_pos hReading']
  cases hGoes with
  | takesReply _ _ hReading hRead => exact hFrame hReading hReading hRead rfl rfl
  | takesEvents _ _ _ hReading hRead => exact hFrame hReading hReading hRead rfl rfl
  | @takesEnd _ why _ hReading hRead =>
    obtain ⟨hNone, hFails⟩ := Packet.only_tail_fails hFront (fun hEnded => hWhole (hEnd hEnded)) hRead
    have hAllTaken : (begun .reader past).length = frames.length :=
      Nat.le_antisymm (h.here hReading) (List.drop_eq_nil_iff.mp hNone)
    obtain ⟨ended, hFails⟩ := hFails
    refine h.next (p := .tail tail) ?_ ⟨why, ended, hFails, rfl⟩ rfl ?_ ?_
    · rw [hAllTaken]
      exact parts_tail frames tail
    · rw [hNone]
      rfl
    · exact hAllTaken
  | caller _ _ hCalls =>
    refine h.aside rfl rfl ?_
    cases hCalls <;> rfl
  | writer _ _ hWrites => exact h.aside rfl rfl hWrites.reading
  | reader _ _ hReads => exact h.aside rfl rfl hReads.reading
  | outside _ hOutside =>
    refine h.aside rfl rfl ?_
    cases hOutside <;> rfl
  | _ => exact h.aside rfl rfl rfl

theorem Comes.inOrder (h : Comes past a) (hTail : IsTail tail) (hCarries : Carries (streamOf frames tail) past) :
    InOrder frames tail past a.state := by
  induction h with
  | nil => exact ⟨.nil, rfl, Nat.zero_le _⟩
  | snoc hComes hHappens ih =>
    obtain ⟨d, hStands, hSound⟩ := Comes.sound hComes
    obtain ⟨d', -, hGoes⟩ := goes_of_happens hStands hHappens
    obtain ⟨hStream, hEnd⟩ := hCarries.before.now hComes
    exact (ih hCarries.before).step hTail hSound.received hStream hEnd hGoes

/-! ## What follows -/

/-- What the reader does on a connection over which such a stream comes. -/
structure Routed (frames : List Packet.Frame) (tail : Bytes) (past : List Happening)
    (s : Scene Party Errand Connection Link Written Party.Result) : Prop where
  /-- The frames are dealt with in the order of the stream, and then the tail. -/
  inOrder : List.Forall₂ Part.Dealt ((parts frames tail).take (finished .reader past).length) (finished .reader past)
  /-- Whatever the reader has taken up comes to its end. -/
  ends : ∀ job r, s.busy .reader = some (job, r) → setting.Ends .reader job s
  /-- A frame that has come is taken up without what follows it. -/
  takesUp : ∀ before f after, frames = before ++ f :: after → (finished .reader past).length = before.length →
    s.busy .reader = none → streamOf (before ++ [f]) [] <+: received past → CanGoOn s .reader
  /-- So is a tail, once it is known to be one. -/
  shutsDown : (finished .reader past).length = frames.length → s.busy .reader = none →
    received past = streamOf frames tail → s.state.ended.isSome ∨ Packet.IsBroken tail → CanGoOn s .reader
  ended : HasEnded past ↔ (finished .reader past).length = frames.length + 1
  stopped : HasEnded past →
    s.busy .reader = none ∧ s.state.reading = false ∧ s.state.closed = true ∧ s.state.eventsEnded = true
  /-- Events do not end before all frames are dealt with. -/
  events : s.state.eventsEnded = true → frames.length ≤ (finished .reader past).length

theorem InOrder.dealt (h : InOrder frames tail past s) (hBegun : (finished .reader past).map Prod.fst <+: begun .reader past)
    (hDone : ∀ x ∈ finished .reader past,
      (∀ f, errandOf f = x.1 → Dealt f x.2) ∧ ∀ why, x.1 = .shutDown why → Closes x.2) :
    List.Forall₂ Part.Dealt ((parts frames tail).take (finished .reader past).length) (finished .reader past) := by
  have hFewer : (finished .reader past).length ≤ (begun .reader past).length := by simpa using hBegun.length_le
  have hJobs := List.forall₂_take (finished .reader past).length h.jobs
  rw [List.take_take, Nat.min_eq_left hFewer, ← List.length_map (f := Prod.fst), ← List.prefix_iff_eq_take.mp hBegun,
    List.forall₂_map_right_iff, List.length_map] at hJobs
  have hBoth := (List.forall₂_and_left _ _).mpr ⟨hDone, hJobs.flip⟩
  refine hBoth.flip.imp fun p x hx => ?_
  obtain ⟨⟨hFrame, hShutDown⟩, hIs⟩ := hx
  cases p with
  | frame f => exact ⟨hIs, hFrame f hIs.symm⟩
  | tail bytes =>
    obtain ⟨why, ended, hFails, hJob⟩ := hIs
    exact ⟨⟨why, ended, hFails, hJob⟩, hShutDown why hJob⟩

/-- A reader that is free goes on when there is something to be read. -/
theorem reader_goes_on (hFree : a.busy .reader = none) (hReading : a.state.reading = true)
    (hRead : Packet.read a.state.ended a.state.incoming ≠ .incomplete) : CanGoOn a .reader := by
  cases hFront : Packet.read a.state.ended a.state.incoming with
  | incomplete => exact absurd hFront hRead
  | packet id isReply packet rest =>
    have hTakes : a.state.read? = some (if isReply then routeReply id packet else deliverEvents packet,
        { a.state with incoming := rest }) := by rw [read?, if_pos hReading, hFront]
    cases isReply with
    | true => exact ⟨_, _, .takesUp hFree (.reply hFront hTakes), rfl⟩
    | false => exact ⟨_, _, .takesUp hFree (.events hFront hTakes), rfl⟩
  | failed why =>
    have hTakes : a.state.read? = some (shutDown why, { a.state with reading := false }) := by
      rw [read?, if_pos hReading, hFront]
    exact ⟨_, _, .takesUp hFree (.shutDown hFront hTakes), rfl⟩

/-- As long as the reader is not done with the tail, it reads on whenever it is free. -/
theorem InOrder.reading_of_free (h : InOrder frames tail past s) (hFree : (begun .reader past).length ≤ frames.length) :
    s.reading = true := by
  have hReading := h.reading
  split at hReading
  · assumption
  · omega

/-- The tail is taken up behind all frames. -/
theorem InOrder.shutDown_begun (h : InOrder frames tail past s) (hMem : .shutDown why ∈ begun .reader past) :
    (begun .reader past).length = frames.length + 1 := by
  have hReading := h.reading
  split at hReading
  · have hJobs := h.jobs
    rw [parts, List.take_append_of_le_length (by simpa using hReading), ← List.map_take, List.forall₂_map_left_iff] at hJobs
    have hFrames : List.Forall₂ Eq (begun .reader past) ((frames.take (begun .reader past).length).map errandOf) :=
      List.forall₂_map_right_iff.mpr hJobs.flip
    rw [List.forall₂_eq_eq_eq] at hFrames
    rw [hFrames] at hMem
    obtain ⟨f, -, hErrand⟩ := List.mem_map.mp hMem
    exact absurd hErrand (errandOf_ne_shutDown f)
  · exact hReading

/-- A frame that has come is there to be read. -/
theorem InOrder.takes_up {before after : List Packet.Frame} {f : Packet.Frame}
    (h : InOrder (before ++ f :: after) tail past a.state) (hAll : AllReceived past a.state) (hFree : a.busy .reader = none)
    (hHere : (begun .reader past).length = before.length) (hCome : streamOf (before ++ [f]) [] <+: received past) :
    CanGoOn a .reader := by
  refine reader_goes_on hFree (h.reading_of_free (by simp [hHere])) ?_
  have hReceived : received past = (Connection.packets past).flatten ++ a.state.incoming := hAll
  rw [hReceived, h.packets, hHere, List.take_left' rfl] at hCome
  obtain ⟨more, hMore⟩ : f.bytes <+: a.state.incoming := by
    simpa [streamOf, List.prefix_append_right_inj] using hCome
  rw [← hMore, Packet.read_frame]
  intro hStarved
  cases hStarved

theorem InOrder.shuts_down (h : InOrder frames tail past a.state) (hFree : a.busy .reader = none)
    (hHere : (begun .reader past).length = frames.length) (hIncoming : a.state.incoming = tail)
    (hKnown : a.state.ended.isSome ∨ Packet.IsBroken tail) : CanGoOn a .reader := by
  refine reader_goes_on hFree (h.reading_of_free (Nat.le_of_eq hHere)) ?_
  rw [hIncoming]
  rcases hKnown with hEnded | hBroken
  · obtain ⟨e, hEnded⟩ := Option.isSome_iff_exists.mp hEnded
    rw [hEnded]
    exact Packet.read_ended e tail
  · obtain ⟨why, hFails⟩ := Packet.read_broken a.state.ended hBroken
    rw [hFails]
    intro hStarved
    cases hStarved

/-- Who is done with the tail has found the end. -/
theorem hasEnded_of_all
    (h : List.Forall₂ Part.Dealt ((parts frames tail).take (finished .reader past).length) (finished .reader past))
    (hLength : (finished .reader past).length = frames.length + 1) : HasEnded past := by
  have hAllParts : (parts frames tail).length = frames.length + 1 := by simp [parts]
  have hLast := h.get (i := frames.length) (by rw [List.length_take]; omega) (by omega)
  have hTail : (parts frames tail)[frames.length] = .tail tail := Option.some.inj (by
    rw [← List.getElem?_eq_getElem, parts_tail])
  rw [List.get_eq_getElem, List.getElem_take, hTail] at hLast
  obtain ⟨⟨why, -, -, hJob⟩, -⟩ := hLast
  obtain ⟨e, he, hTurn⟩ := exists_of_mem_finished (List.get_mem (finished .reader past) ⟨frames.length, by omega⟩)
  exact ⟨why, e, he, hTurn.trans (congrArg _ hJob)⟩

theorem stream_routed (h : Comes past a) (hTail : IsTail tail) (hCarries : Carries (streamOf frames tail) past) :
    Routed frames tail past a := by
  have hOrder := h.inOrder hTail hCarries
  obtain ⟨d, hStands, hSound⟩ := h.sound
  have hBegun := Setting.Leads.begun_eq h (k := .reader) rfl
  have hInOrder := hOrder.dealt (hBegun ▸ List.prefix_append ..) h.done_with
  have hSame : a.busy .reader = none → (begun .reader past).length = (finished .reader past).length := by
    intro hFree
    rw [hBegun, hFree]
    simp
  have hStopped : HasEnded past → a.busy .reader = none ∧ a.state.reading = false ∧ a.state.closed = true := fun hEnded => by
    obtain ⟨hNone, hStopped, hClosed⟩ := hSound.heard.ended hEnded
    exact ⟨by rw [hStands.reader, hNone]; rfl, hStopped, hClosed⟩
  refine ⟨hInOrder, ?_, ?_, ?_, ⟨?_, hasEnded_of_all hInOrder⟩, ?_, ?_⟩
  · intro job r hBusy
    exact .of_unwaiting (fun m bytes => ⟨.ok (), _, rfl⟩) (h.reader_unwaiting hBusy) hBusy
  · rintro before f after rfl hLength hFree hCome
    exact hOrder.takes_up hSound.received hFree ((hSame hFree).trans hLength) hCome
  · intro hLength hFree hAll hKnown
    have hHere : (begun .reader past).length = frames.length := (hSame hFree).trans hLength
    refine hOrder.shuts_down hFree hHere ?_ hKnown
    rw [(hOrder.waiting hSound.received (hAll ▸ List.prefix_rfl)).2 hAll, hHere, List.drop_length]
    rfl
  · intro hEnded
    obtain ⟨hFree, hOff, -⟩ := hStopped hEnded
    have hReading := hOrder.reading
    rw [if_neg (by simp [hOff]), hSame hFree] at hReading
    exact hReading
  · intro hEnded
    obtain ⟨hFree, hOff, hClosed⟩ := hStopped hEnded
    exact ⟨hFree, hOff, hClosed, h.eventsEnded hEnded⟩
  · intro hEventsEnded
    obtain ⟨why, hMem⟩ := h.shutDown_of_eventsEnded hEventsEnded
    have hLength := hOrder.shutDown_begun hMem
    have hOne : ((a.busy .reader).map Prod.fst).toList.length ≤ 1 := by cases a.busy .reader <;> simp
    rw [hBegun, List.length_append, List.length_map] at hLength
    omega

/-! A reply that is owed, one that is not, an event set and what is none, and then a length that is no length. -/

section FourFrames

def answer : Packet.Frame := .ofReply ⟨1, 0, [7]⟩ (by decide)
def stray : Packet.Frame := .ofReply ⟨9, 0, []⟩ (by decide)
def threadStart : Packet.Frame :=
  ⟨Command.packet ⟨64, 100, [0, 0, 0, 0, 1, 6, 0, 0, 0, 3, 0, 0, 0, 0, 0, 0, 0, 9]⟩ 5, by decide, by decide, by decide⟩
def nonsense : Packet.Frame := ⟨Command.packet ⟨64, 100, [255]⟩ 6, by decide, by decide, by decide⟩
def noLength : Bytes := List.replicate 11 0

def fourFrames : List (Cue Party (UInt32 × Command) (Except OsError Bytes)) :=
  works (.caller 0) 1 3 ++ works .writer 0 3 ++ [.isDone .writer] ++
    [.outside (.ok (streamOf [answer, stray] [])), .outside (.ok (streamOf [threadStart, nonsense] noLength))] ++
    works .reader 0 2 ++ [.isDone .reader] ++ works .reader 0 2 ++ [.isDone .reader] ++
    works .reader 0 2 ++ [.isDone .reader] ++ works .reader 0 1 ++ [.isDone .reader] ++
    works .reader 0 4 ++ [.isDone .reader]

theorem stream_routed_of_fourFrames : ∃ past s, Comes past s ∧ IsTail noLength ∧
    Carries (streamOf [answer, stray, threadStart, nonsense] noLength) past ∧
    Routed [answer, stray, threadStart, nonsense] noLength past s ∧ HasEnded past := by
  obtain ⟨past, s, hComes, hCheck⟩ := script.leads_of_check fourFrames fresh
    (fun past _ => (past.any fun e => isEnd e.turn) &&
      decide (Carries (streamOf [answer, stray, threadStart, nonsense] noLength) past)) (by decide +kernel)
  rw [Bool.and_eq_true] at hCheck
  have hTail : IsTail noLength := by decide
  have hCarries := of_decide_eq_true hCheck.2
  exact ⟨past, s, hComes, hTail, hCarries, stream_routed hComes hTail hCarries, hasEnded_of_any hCheck.1⟩

end FourFrames

end JvmDebug.Jdwp.Connection
