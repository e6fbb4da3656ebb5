import JvmDebug.Proofs.Connection.Callers

/-!
# Commands and their replies

Each command gets at most one outcome, and a reply goes to the command under whose id it was sent. After the end of the
stream nobody waits in vain.
-/

namespace JvmDebug.Jdwp.Connection
set_option autoImplicit false

variable {past : List Happening} {d d' : Desk} {s s' : Connection} {m m' : Written} {e : Happening}
  {a : Scene Party Errand Connection Link Written Party.Result}

/-- All that holds at every moment. -/
structure Sound (past : List Happening) (d : Desk) (s : Connection) (m : Written) : Prop where
  tidy : Tidy s
  heard : Heard past d s
  account : ∃ paid, Account past d s paid
  numbered : Numbered (puts past) d s
  served : Served past d s
  received : AllReceived past s
  queued : AllQueued past s
  written : d.HasWritten (takenCommands past) s m

theorem sound_fresh : Sound [] {} { reading := true } [] where
  tidy := ⟨List.nodup_nil, nofun⟩
  heard := .idle rfl fun ⟨_, _, hMem, _⟩ => by cases hMem
  account := ⟨[], rfl, .refl _, nofun⟩
  numbered := ⟨nofun, List.nodup_nil, nofun, nofun, nofun⟩
  served := ⟨nofun, nofun⟩
  received := rfl
  queued := rfl
  written := ⟨List.prefix_rfl, fun _ => rfl⟩

/-- Only of commands that were put something becomes. -/
theorem Account.put {paid : List Paid} (h : Account past d s paid) {x : Ticket × Except Error Reply}
    (hx : x ∈ settled past) : ∃ q ∈ puts past, q.ticket = x.1 ∧
      ∀ r, x.2 = .ok r → ∃ packet, (q.id, packet) ∈ replies past ∧ Reply.ofPacket packet = .ok r := by
  rw [h.outcomes] at hx
  obtain ⟨y, hy, rfl⟩ := List.mem_map.mp hx
  have hStub : y.1 ∈ (puts past).map stubOf :=
    h.all.subset (List.mem_append_right _ (List.mem_map_of_mem hy))
  obtain ⟨q, hq, hEq⟩ := List.mem_map.mp hStub
  refine ⟨q, hq, congrArg Prod.snd hEq, fun r hr => ?_⟩
  rw [show q.id = y.1.1 from congrArg Prod.fst hEq]
  exact h.reply y hy r hr

theorem Sound.step (h : Sound past d s m) (hGoes : Goes d s m e d' s' m') : Sound (past ++ [e]) d' s' m' := by
  obtain ⟨paid, hAccount⟩ := h.account
  have hPut : ∀ x ∈ settled past, ∃ q ∈ puts past, q.ticket = x.1 := fun x hx => by
    obtain ⟨q, hq, hTicket, -⟩ := hAccount.put hx
    exact ⟨q, hq, hTicket⟩
  obtain ⟨paid', hMore⟩ := hAccount.step h.tidy h.heard hGoes
  refine ⟨h.tidy.step hGoes, h.heard.step hGoes, ⟨_, hMore⟩, h.numbered.step hGoes, ?_, h.received.step hGoes,
    h.queued.step hGoes, ?_⟩
  · exact h.served.step h.numbered hPut hGoes
  · rw [takenCommands_snoc]
    exact h.written.step hGoes

theorem Comes.sound (h : Comes past a) : ∃ d : Desk, d.Stands a.busy ∧ Sound past d a.state a.world :=
  h.keeps Sound sound_fresh fun _ _ _ _ _ _ _ _ hSound hGoes => hSound.step hGoes

/-! ## What follows -/

theorem Sound.tickets (h : Sound past d s m) :
    ∃ waiting : List Ticket, (waiting ++ (settled past).map (·.1)).Perm ((puts past).map (·.ticket)) ∧
      waiting = (d.open s).map (·.2) := by
  obtain ⟨paid, hAccount⟩ := h.account
  refine ⟨_, ?_, rfl⟩
  have hPerm := hAccount.all.map Prod.snd
  rw [List.map_append] at hPerm
  rw [hAccount.outcomes]
  simpa [Function.comp_def, Paid.outcome, stubOf] using hPerm

theorem Sound.settled_once (h : Sound past d s m) : ((settled past).map (·.1)).Nodup := by
  obtain ⟨waiting, hPerm, -⟩ := h.tickets
  exact (hPerm.nodup_iff.mpr h.numbered.once).of_append_right

theorem Placed.put {n : Nat} {q : Queued} (h : Placed past n q) : q ∈ puts past := by
  obtain ⟨x, hx, hAdded⟩ := h
  obtain ⟨before, e, after, job, rfl, -, hBefore, hAfter⟩ := exists_of_mem_deeds hx
  refine List.mem_flatMap.mpr ⟨e, by simp, ?_⟩
  rw [hBefore, hAfter, hAdded]
  exact List.mem_singleton_self q

/-- Where nobody holds a stub any more, every command has an outcome. -/
theorem Sound.all_settled (h : Sound past d s m) (hNone : d.open s = []) {q : Queued} (hq : q ∈ puts past) :
    ∃ o, (q.ticket, o) ∈ settled past := by
  obtain ⟨waiting, hPerm, hWaiting⟩ := h.tickets
  rw [hNone] at hWaiting
  subst hWaiting
  obtain ⟨x, hx, hTicket⟩ := List.mem_map.mp (hPerm.symm.subset (List.mem_map_of_mem hq))
  exact ⟨x.2, hTicket ▸ hx⟩

/-- After the end nothing is owed, and whoever is free holds nothing. -/
theorem Sound.open_of_ended (h : Sound past d s m) (hEnded : HasEnded past) (hQueue : s.queue = [])
    (hWriter : d.writer = none) : d.open s = [] := by
  obtain ⟨hReader, -, hClosed⟩ := h.heard.ended hEnded
  simp [Desk.open, Desk.writerHand, Desk.readerHand, hQueue, hWriter, hReader, h.tidy.closed hClosed]

/-- A caller that has something to wait for only waits for it as long as it is not there. -/
theorem Calling.goes_on {w : Calling} {id : UInt32} {c : Command} (s : Connection) (m : Written)
    (hRoom : s.hasRoom = true) (hThere : ∀ t, w = .waiting t → (s.outcome? t).isSome) :
    (∃ r, w = .finished r) ∨
      ∃ r' s', (w.rest id c).Step setting.answers setting.keep s m none r' s' m := by
  cases w with
  | begins => exact .inr ⟨_, _, .note ..⟩
  | numbering => exact .inr ⟨_, _, .atomic ..⟩
  | putting ticket => exact .inr ⟨_, _, .ready _ _ _ m hRoom⟩
  | waiting ticket => exact .inr ⟨_, _, .ready _ _ _ m (hThere ticket rfl)⟩
  | taking ticket => exact .inr ⟨_, _, .atomic ..⟩
  | finished r => exact .inl ⟨r, rfl⟩

/-- Whether a worker can do something now. -/
def CanGoOn (s : Scene Party Errand Connection Link Written Party.Result) (k : Party) : Prop :=
  ∃ e s', setting.Happens s e s' ∧ e.turn.worker? = some k

theorem Sound.caller_goes_on (h : Sound past d a.state a.world) (hStands : d.Stands a.busy) (hNone : d.open a.state = [])
    {n : Nat} (hBusy : a.busy (.caller n) ≠ none) : CanGoOn a (.caller n) := by
  obtain ⟨⟨job, r⟩, hJob⟩ := Option.ne_none_iff_exists'.mp hBusy
  obtain ⟨⟨id, c, w⟩, hCaller, hEq⟩ := Option.map_eq_some_iff.mp ((hStands.caller n).symm.trans hJob)
  cases hEq
  have hHolds := h.served.callers n id c w hCaller
  have hQueue : a.state.queue = [] := by
    have hEmpty : a.state.queue.map stubOf = [] := by
      simp only [Desk.open, List.append_eq_nil_iff] at hNone
      exact hNone.1.1.1
    exact List.map_eq_nil_iff.mp hEmpty
  have hThere : ∀ t, w = .waiting t → (a.state.outcome? t).isSome := by
    rintro t rfl
    obtain ⟨hPlaced, hKept⟩ := hHolds
    obtain ⟨o, ho⟩ := h.all_settled hNone hPlaced.put
    exact outcome?_isSome.mpr ⟨o, hKept o ho⟩
  rcases Calling.goes_on a.state a.world (by simp [hasRoom, hQueue, queueLimit]) hThere with ⟨r, rfl⟩ | ⟨r', s', hStep⟩
  · exact ⟨_, _, .isDone hJob, rfl⟩
  · exact ⟨_, _, .goesOn hJob hStep, rfl⟩

/-- A reply that is handed on goes to a command that is outstanding under its id. -/
theorem Sound.handed (h : Sound past d s m) (hGoes : Goes d s m e d' s' m') {id : UInt32} {packet : Bytes}
    (hTurn : e.turn = .goesOn .reader (.reply id packet) none) {t : Ticket} {o : Except Error Reply}
    (ho : (t, o) ∈ added s.outcomes s'.outcomes) :
    o = Reply.ofPacket packet ∧ ∃ q ∈ outstanding past, q.ticket = t ∧ q.id = id := by
  obtain ⟨waiting, hPerm, hWaiting⟩ := h.tickets
  obtain ⟨paid, hAccount⟩ := h.account
  obtain ⟨paid', hPays, hReplies⟩ := hGoes.pays h.tidy h.heard
  rw [hPays.outcomes] at ho
  obtain ⟨x, hx, hEq⟩ := List.mem_map.mp ho
  obtain ⟨rfl, rfl⟩ := Prod.mk.inj hEq
  obtain ⟨rfl, hPacket⟩ := (hReplies x hx).handed id packet hTurn
  have hQueue : added s.queue s'.queue = [] := by
    cases hGoes with
    | reader _ _ hReads => rw [hReads.queue, added_self]
    | _ => cases hTurn
  -- What is paid was open just before, so nothing had become of it.
  have hOpen : x.1 ∈ d.open s := by
    have hFound := hPays.passed.subset (List.mem_append_right _ (List.mem_map_of_mem hx))
    rwa [hQueue, List.map_nil, List.append_nil] at hFound
  obtain ⟨q, hq, hStub⟩ := List.mem_map.mp (hAccount.all.subset (List.mem_append_left _ hOpen))
  refine ⟨hPacket, q, List.mem_filter.mpr ⟨hq, ?_⟩, congrArg Prod.snd hStub, congrArg Prod.fst hStub⟩
  have hOnce := hPerm.nodup_iff.mpr h.numbered.once
  rw [List.nodup_append] at hOnce
  have hUnsettled : q.ticket ∉ (settled past).map (·.1) := fun hSettled =>
    hOnce.2.2 q.ticket (hWaiting ▸ List.mem_map.mpr ⟨x.1, hOpen, (congrArg Prod.snd hStub).symm⟩) _ hSettled rfl
  simpa using hUnsettled

/-- How commands, replies and callers go together. -/
structure Correlated (past : List Happening) (s : Scene Party Errand Connection Link Written Party.Result) : Prop where
  /-- Nothing becomes of a command twice. -/
  once : ((puts past).map (·.ticket)).Nodup ∧ ((settled past).map (·.1)).Nodup
  /-- Whatever is settled is a command that was put; a reply to it has its id, and was among the bytes that came. -/
  settled : ∀ x ∈ settled past, ∃ q ∈ puts past, q.ticket = x.1 ∧ ∀ r, x.2 = .ok r →
    r.id = q.id ∧ ∃ packet, (q.id, packet) ∈ replies past ∧ Reply.ofPacket packet = .ok r
  received : received past = (packets past).flatten ++ s.state.incoming ∧ ∀ x ∈ replies past, x.2 ∈ packets past
  /-- A reply is handed to a command that is outstanding under its id; if the ids are distinct, it is the only one. -/
  handed : ∀ before e after id packet, past = before ++ e :: after →
    e.turn = .goesOn .reader (.reply id packet) none → ∀ x ∈ added e.before.outcomes e.after.outcomes,
    x.2 = Reply.ofPacket packet ∧ ∃ q ∈ outstanding before, q.ticket = x.1 ∧ q.id = id ∧
      (((outstanding before).map (·.id)).Nodup → ∀ q' ∈ outstanding before, q'.id = id → q' = q)
  /-- A caller is told what became of the command that it put into the queue in this call. -/
  told : ∀ n id c o, s.busy (.caller n) = some (.send id c, .done o) →
    ∃ t, Placed past n ⟨id, c, t⟩ ∧ (t, o) ∈ Connection.settled past
  /-- Whole packets are written, in the order of the queue. -/
  written : s.world.map (·.1) <+: bytesOf (puts past)
  ended : HasEnded past → s.state.closed = true ∧ s.state.owed = []
  /-- When the queue is worked off after the end, every command has an outcome, and every caller can go on. -/
  drained : HasEnded past → s.state.queue = [] → s.busy .writer = none →
    (∀ q ∈ puts past, ∃ o, (q.ticket, o) ∈ Connection.settled past) ∧
      ∀ n, s.busy (.caller n) ≠ none → CanGoOn s (.caller n)

theorem reply_mem_packets {x : UInt32 × Bytes} (hx : x ∈ replies past) : x.2 ∈ packets past := by
  obtain ⟨e, he, hx⟩ := List.mem_flatMap.mp hx
  refine List.mem_flatMap.mpr ⟨e, he, ?_⟩
  unfold replyAt at hx
  split at hx
  · next hTurn =>
    rw [hTurn, List.mem_singleton.mp hx]
    exact List.mem_singleton_self _
  · cases hx

/-- The id under which a reply is handed on is the one in its packet. -/
theorem Comes.reply_id (h : Comes past a) {id : UInt32} {packet : Bytes} {r : Reply} (hMem : (id, packet) ∈ replies past)
    (hReply : Reply.ofPacket packet = .ok r) : r.id = id := by
  obtain ⟨e, he, hx⟩ := List.mem_flatMap.mp hMem
  obtain ⟨before, after, rfl⟩ := List.append_of_mem he
  obtain ⟨b, b', -, hHappens, -⟩ := Setting.Leads.around h
  cases hHappens with
  | takesUp _ hTakes =>
    cases hTakes with
    | reply hPacket _ =>
      cases List.mem_singleton.mp hx
      exact (Packet.read_packet hPacket).2 r hReply
    | _ => cases hx
  | _ => cases hx

theorem correlated (h : Comes past a) : Correlated past a := by
  obtain ⟨d, hStands, hSound⟩ := h.sound
  obtain ⟨paid, hAccount⟩ := hSound.account
  refine ⟨⟨hSound.numbered.once, hSound.settled_once⟩, ?_, ⟨hSound.received, fun _ => reply_mem_packets⟩, ?_, ?_, ?_, ?_, ?_⟩
  · intro x hx
    obtain ⟨q, hq, hTicket, hReply⟩ := hAccount.put hx
    refine ⟨q, hq, hTicket, fun r hr => ?_⟩
    obtain ⟨packet, hPacket, hOf⟩ := hReply r hr
    exact ⟨Comes.reply_id h hPacket hOf, packet, hPacket, hOf⟩
  · rintro before e after id packet rfl hTurn x hx
    obtain ⟨b, b', hFirst, hHappens, -⟩ := Setting.Leads.around h
    obtain ⟨d₁, hStands₁, hSound₁⟩ := Comes.sound hFirst
    obtain ⟨d₂, -, hGoes⟩ := goes_of_happens hStands₁ hHappens
    obtain ⟨hBefore, hAfter⟩ := hGoes.around
    rw [hBefore, hAfter] at hx
    obtain ⟨hPacket, q, hq, hTicket, hId⟩ := hSound₁.handed hGoes hTurn hx
    refine ⟨hPacket, q, hq, hTicket, hId, fun hDistinct q' hq' hSame => ?_⟩
    exact List.inj_on_of_nodup_map hDistinct hq' hq (hSame.trans hId.symm)
  · intro n id c o hBusy
    obtain ⟨⟨id', c', w⟩, hCaller, hEq⟩ := Option.map_eq_some_iff.mp ((hStands.caller n).symm.trans hBusy)
    obtain ⟨hErrand, hRest⟩ := Prod.mk.inj hEq
    cases hErrand
    obtain rfl := Calling.finished_of_rest hRest
    exact hSound.served.callers n _ _ _ hCaller
  · refine hSound.written.begins.trans ?_
    rw [hSound.queued, bytesOf, bytesOf, List.map_append]
    exact List.prefix_append ..
  · intro hEnded
    obtain ⟨-, -, hClosed⟩ := hSound.heard.ended hEnded
    exact ⟨hClosed, hSound.tidy.closed hClosed⟩
  · intro hEnded hQueue hFree
    have hWriter : d.writer = none := Option.map_eq_none_iff.mp (hStands.writer.symm.trans hFree)
    have hNone := hSound.open_of_ended hEnded hQueue hWriter
    exact ⟨fun q hq => hSound.all_settled hNone hq, fun n hBusy => hSound.caller_goes_on hStands hNone hBusy⟩

/-! Two callers send a command. Writing the second one fails; the reply to the first one comes, and the stream ends. -/

section TwoCallers

/-- Packets are only written as long as none was. -/
def script : Script setting (UInt32 × Command) (Except OsError Bytes) where
  take?
    | .caller _, (id, c), s => some (.send id c, send id c, s)
    | .writer, _, s => s.queue.head?.bind fun q => s.write?.map fun (r, s') => (.write q, r, s')
    | .reader, _, s => s.read?.map fun (r, s') =>
      match Packet.read s.ended s.incoming with
      | .packet id true packet _ => (.reply id packet, r, s')
      | .packet _ false packet _ => (.events packet, r, s')
      | .failed why => (.shutDown why, r, s')
      | .incomplete => (.shutDown .closed, r, s')
  answer? m (bytes : Bytes) :=
    let a : Except OsError Unit := if m = [] then .ok () else .error .notAllowed
    some (a, m ++ [(bytes, a)])
  come? x s m := some (match x with | .ok bytes => s.receive bytes | .error why => { s with ended := some why }, m)
  takes {k hint s job r s'} h := by
    cases k with
    | caller n =>
      cases h
      exact .send n hint.1 hint.2 s
    | writer =>
      obtain ⟨q, hHead, h⟩ := Option.bind_eq_some_iff.mp h
      obtain ⟨⟨r', s₁⟩, hWrite, hEq⟩ := Option.map_eq_some_iff.mp h
      cases hEq
      exact .write hHead hWrite
    | reader =>
      obtain ⟨⟨r', s₁⟩, hRead, hEq⟩ := Option.map_eq_some_iff.mp h
      dsimp only at hEq
      split at hEq <;> cases hEq
      next hPacket => exact .reply hPacket hRead
      next hPacket => exact .events hPacket hRead
      next hPacket => exact .shutDown hPacket hRead
      next hPacket => simp [read?, hPacket] at hRead
  answers h := by
    cases h
    rfl
  outside {x s m s' m'} h := by
    cases h
    cases x with
    | ok bytes => exact ⟨.receive bytes, rfl⟩
    | error why => exact ⟨.ends why, rfl⟩

def versionCommand : Command := ⟨1, 1, []⟩

def works (k : Party) (id : UInt32) (steps : Nat) : List (Cue Party (UInt32 × Command) (Except OsError Bytes)) :=
  .takesUp k (id, versionCommand) :: List.replicate steps (.goesOn k)

def oneReplied : List (Cue Party (UInt32 × Command) (Except OsError Bytes)) :=
  works (.caller 0) 1 3 ++ works (.caller 1) 2 3 ++ works .writer 0 3 ++ [.isDone .writer] ++
    [.outside (.ok (Reply.packet ⟨1, 0, [7]⟩))] ++ works .reader 0 2 ++ [.isDone .reader] ++ works .writer 0 6 ++
    [.isDone .writer, .outside (.error .shortRead)] ++ works .reader 0 4 ++ [.isDone .reader] ++
    List.replicate 2 (.goesOn (.caller 0)) ++ List.replicate 2 (.goesOn (.caller 1))

def isEnd : Turn Party Errand Link → Bool
  | .isDone .reader (.shutDown _) => true
  | _ => false

theorem hasEnded_of_any (h : (past.any fun e => isEnd e.turn) = true) : HasEnded past := by
  obtain ⟨e, he, hEnd⟩ := List.any_eq_true.mp h
  unfold isEnd at hEnd
  split at hEnd
  · next why hTurn => exact ⟨why, e, he, hTurn⟩
  · cases hEnd

/-- What a caller is told at the end of its call. -/
def told? (b : Option (Errand × Routine Connection Link (Except Error Reply))) : Option (Except Error Reply) :=
  match b with
  | some (_, .done a) => some a
  | _ => none

theorem correlated_of_oneReplied : ∃ past s, Comes past s ∧ Correlated past s ∧ HasEnded past ∧
    (puts past).map (·.id) = [1, 2] ∧ told? (s.busy (.caller 0)) = some (.ok ⟨1, 0, [7]⟩) ∧
      told? (s.busy (.caller 1)) = some (.error (.os .notAllowed)) := by
  obtain ⟨past, s, hComes, hCheck⟩ := script.leads_of_check oneReplied fresh
    (fun past s => (past.any fun e => isEnd e.turn) && decide ((puts past).map (·.id) = [1, 2] ∧
      told? (s.busy (.caller 0)) = some (.ok ⟨1, 0, [7]⟩) ∧
      told? (s.busy (.caller 1)) = some (.error (.os .notAllowed)))) (by decide +kernel)
  rw [Bool.and_eq_true] at hCheck
  exact ⟨past, s, hComes, correlated hComes, hasEnded_of_any hCheck.1, of_decide_eq_true hCheck.2⟩

end TwoCallers

end JvmDebug.Jdwp.Connection
