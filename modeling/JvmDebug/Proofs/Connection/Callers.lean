import JvmDebug.Proofs.Connection.Custody

/-!
# Callers and their tickets

No two callers have one ticket. What a caller waits for under its ticket is the outcome of the command that it put into
the queue itself, and nobody else takes it away.
-/

namespace JvmDebug.Jdwp.Connection
set_option autoImplicit false

variable {past : List Happening} {d d' : Desk} {s s' : Connection} {m m' : Written} {e : Happening} {q : Queued} {n : Nat}
  {id : UInt32} {c : Command} {ticket : Ticket}

/-- What happens at a moment that is no caller's. -/
structure Aside (d : Desk) (s : Connection) (d' : Desk) (s' : Connection) : Prop where
  caller : d'.caller = d.caller
  nextTicket : s'.nextTicket = s.nextTicket
  queue : s'.queue.length ≤ s.queue.length
  outcomes : ∃ new, s'.outcomes = s.outcomes ++ new

theorem Writes.outcomes {w w' : Writing} (h : Writes q w s m w' s' m') :
    s'.nextTicket = s.nextTicket ∧ ∃ new, s'.outcomes = s.outcomes ++ new := by
  have hSame : ∃ new, s.outcomes = s.outcomes ++ new := ⟨[], (List.append_nil _).symm⟩
  cases h with
  | refuse _ _ => exact ⟨rfl, _, rfl⟩
  | owe _ hOpen =>
    rw [owe_open hOpen]
    exact ⟨rfl, _, rfl⟩
  | settle => exact ⟨rfl, _, rfl⟩
  | _ => exact ⟨rfl, hSame⟩

theorem Reads.outcomes {w w' : Reading} (h : Reads w s w' s') :
    s'.nextTicket = s.nextTicket ∧ ∃ new, s'.outcomes = s.outcomes ++ new := by
  have hSame : ∃ new, s.outcomes = s.outcomes ++ new := ⟨[], (List.append_nil _).symm⟩
  cases h with
  | settle => exact ⟨rfl, _, rfl⟩
  | close => exact ⟨rfl, _, rfl⟩
  | other _ _ hAlike => exact ⟨hAlike.nextTicket, by rw [hAlike.outcomes]; exact hSame⟩
  | _ => exact ⟨rfl, hSame⟩

theorem Goes.aside (h : Goes d s m e d' s' m') (hOther : ∀ n, e.turn.worker? ≠ some (.caller n)) : Aside d s d' s' := by
  have hSame : ∃ new, s.outcomes = s.outcomes ++ new := ⟨[], (List.append_nil _).symm⟩
  cases h with
  | calls => exact absurd rfl (hOther _)
  | caller => exact absurd rfl (hOther _)
  | returns => exact absurd rfl (hOther _)
  | takesCommand _ _ hQueue => exact ⟨rfl, rfl, by simp [hQueue], hSame⟩
  | writer _ _ hWrites => exact ⟨rfl, hWrites.outcomes.1, Nat.le_of_eq (by rw [hWrites.queue]), hWrites.outcomes.2⟩
  | reader _ _ hReads => exact ⟨rfl, hReads.outcomes.1, Nat.le_of_eq (by rw [hReads.queue]), hReads.outcomes.2⟩
  | outside _ hOutside => cases hOutside <;> exact ⟨rfl, rfl, Nat.le_refl _, hSame⟩
  | _ => exact ⟨rfl, rfl, Nat.le_refl _, hSame⟩

/-! ## Numbers -/

/-- The ticket under which a caller waits, or is going to. -/
def Desk.ticket? (d : Desk) (n : Nat) : Option Ticket := (d.caller n).bind fun x => x.2.2.ticket?

theorem Desk.ticket?_putCaller (d : Desk) (n : Nat) (x : Option (UInt32 × Command × Calling)) :
    (d.putCaller n x).ticket? n = x.bind fun x => x.2.2.ticket? := by
  simp [Desk.ticket?, Desk.putCaller]

theorem Desk.ticket?_putCaller_of_ne {n k : Nat} (h : k ≠ n) (d : Desk) (x : Option (UInt32 × Command × Calling)) :
    (d.putCaller n x).ticket? k = d.ticket? k := by
  simp [Desk.ticket?, Desk.putCaller, Function.update_of_ne h]

theorem Desk.caller_putCaller_of_ne {n k : Nat} (h : k ≠ n) (d : Desk) (x : Option (UInt32 × Command × Calling)) :
    (d.putCaller n x).caller k = d.caller k := by
  simp [Desk.putCaller, Function.update_of_ne h]

/-- Tickets are given out once; where one is still to be put, nothing has been put under it. -/
structure Numbered (put : List Queued) (d : Desk) (s : Connection) : Prop where
  below : ∀ q ∈ put, q.ticket < s.nextTicket
  once : (put.map (·.ticket)).Nodup
  calls : ∀ n t, d.ticket? n = some t → t < s.nextTicket
  apart : ∀ j k t, d.ticket? j = some t → d.ticket? k = some t → j = k
  unused : ∀ n id c t, d.caller n = some (id, c, .putting t) → ∀ q ∈ put, q.ticket ≠ t

variable {put : List Queued}

theorem Numbered.aside (h : Numbered put d s) (hAside : Aside d s d' s') : Numbered put d' s' := by
  have hTicket : ∀ n, d'.ticket? n = d.ticket? n := fun n => by rw [Desk.ticket?, hAside.caller]; rfl
  refine ⟨?_, h.once, ?_, ?_, ?_⟩
  · rw [hAside.nextTicket]
    exact h.below
  · rw [hAside.nextTicket]
    exact fun n t hn => h.calls n t (hTicket n ▸ hn)
  · exact fun j k t hj hk => h.apart j k t (hTicket j ▸ hj) (hTicket k ▸ hk)
  · rw [hAside.caller]
    exact h.unused

/-- A caller keeps its ticket, or gives it back. -/
theorem Numbered.moves {x : Option (UInt32 × Command × Calling)} (h : Numbered put d s)
    (hNext : s'.nextTicket = s.nextTicket)
    (hTicket : ∀ t, (x.bind fun x => x.2.2.ticket?) = some t → d.ticket? n = some t)
    (hPutting : ∀ id c t, x ≠ some (id, c, .putting t)) : Numbered put (d.putCaller n x) s' := by
  have hOld : ∀ k t, (d.putCaller n x).ticket? k = some t → d.ticket? k = some t := by
    intro k t hk
    by_cases hSame : k = n
    · subst hSame
      exact hTicket t ((d.ticket?_putCaller k x).symm.trans hk)
    · exact (d.ticket?_putCaller_of_ne hSame x).symm.trans hk
  refine ⟨?_, h.once, ?_, fun j k t hj hk => h.apart j k t (hOld j t hj) (hOld k t hk), ?_⟩
  · rw [hNext]
    exact h.below
  · rw [hNext]
    exact fun k t hk => h.calls k t (hOld k t hk)
  · intro k id c t hk
    by_cases hSame : k = n
    · subst hSame
      exact absurd (by simpa [Desk.putCaller] using hk) (hPutting id c t)
    · exact h.unused k id c t ((d.caller_putCaller_of_ne hSame x).symm.trans hk)

/-- A caller gets a new ticket. -/
theorem Numbered.number (h : Numbered put d s) (n : Nat) (id : UInt32) (c : Command) :
    Numbered put (d.putCaller n (some (id, c, .putting s.nextTicket))) { s with nextTicket := s.nextTicket + 1 } := by
  have hTicket : ∀ k t, (d.putCaller n (some (id, c, .putting s.nextTicket))).ticket? k = some t →
      (k = n ∧ t = s.nextTicket) ∨ (k ≠ n ∧ d.ticket? k = some t) := by
    intro k t hk
    by_cases hSame : k = n
    · subst hSame
      rw [Desk.ticket?_putCaller] at hk
      exact .inl ⟨rfl, (Option.some.inj hk).symm⟩
    · exact .inr ⟨hSame, (d.ticket?_putCaller_of_ne hSame _).symm.trans hk⟩
  refine ⟨fun q hq => Nat.lt_succ_of_lt (h.below q hq), h.once, ?_, ?_, ?_⟩
  · intro k t hk
    rcases hTicket k t hk with ⟨-, rfl⟩ | ⟨-, hk⟩
    · exact Nat.lt_succ_self _
    · exact Nat.lt_succ_of_lt (h.calls k t hk)
  · intro j k t hj hk
    rcases hTicket j t hj with ⟨hjn, hjt⟩ | ⟨-, hj⟩
    · rcases hTicket k t hk with ⟨hkn, -⟩ | ⟨-, hk⟩
      · rw [hjn, hkn]
      · exact absurd hjt (Nat.ne_of_lt (h.calls k t hk))
    · rcases hTicket k t hk with ⟨-, hkt⟩ | ⟨-, hk⟩
      · exact absurd hkt (Nat.ne_of_lt (h.calls j t hj))
      · exact h.apart j k t hj hk
  · intro k id' c' t hk q hq
    by_cases hSame : k = n
    · subst hSame
      obtain rfl : s.nextTicket = t := by
        simp only [Desk.putCaller, Function.update_self, Option.some.injEq, Prod.mk.injEq, Calling.putting.injEq] at hk
        exact hk.2.2
      exact Nat.ne_of_lt (h.below q hq)
    · exact h.unused k id' c' t ((d.caller_putCaller_of_ne hSame _).symm.trans hk) q hq

/-- A caller puts its command under its ticket. -/
theorem Numbered.enqueue (h : Numbered put d s) (hCaller : d.caller n = some (id, c, .putting ticket)) :
    Numbered (put ++ [⟨id, c, ticket⟩]) (d.putCaller n (some (id, c, .waiting ticket))) (s.enqueue ⟨id, c, ticket⟩) := by
  have hHas : d.ticket? n = some ticket := by simp [Desk.ticket?, hCaller, Calling.ticket?]
  have hMoved : Numbered put (d.putCaller n (some (id, c, .waiting ticket))) (s.enqueue ⟨id, c, ticket⟩) :=
    h.moves rfl (fun t ht => hHas.trans ht) nofun
  refine ⟨?_, ?_, hMoved.calls, hMoved.apart, ?_⟩
  · intro q hq
    rcases List.mem_append.mp hq with hq | hq
    · exact hMoved.below q hq
    · rw [List.mem_singleton.mp hq]
      exact h.calls n ticket hHas
  · rw [List.map_append, List.nodup_append]
    refine ⟨h.once, by simp, ?_⟩
    rintro t ht t' ht' rfl
    obtain ⟨q, hq, rfl⟩ := List.mem_map.mp ht
    have hEq : q.ticket = ticket := by simpa using ht'
    exact h.unused n id c ticket hCaller q hq hEq
  · intro k id' c' t hk q hq
    rcases List.mem_append.mp hq with hq | hq
    · exact hMoved.unused k id' c' t hk q hq
    · rw [List.mem_singleton.mp hq]
      rintro rfl
      have hk' : (d.putCaller n (some (id, c, .waiting ticket))).ticket? k = some ticket := by
        rw [Desk.ticket?, hk]
        rfl
      have hn' : (d.putCaller n (some (id, c, .waiting ticket))).ticket? n = some ticket := Desk.ticket?_putCaller ..
      obtain rfl := hMoved.apart k n ticket hk' hn'
      simp [Desk.putCaller] at hk

theorem Numbered.step (h : Numbered (puts past) d s) (hGoes : Goes d s m e d' s' m') :
    Numbered (puts (past ++ [e])) d' s' := by
  have hAside := hGoes.aside
  obtain ⟨hBefore, hAfter⟩ := hGoes.around
  have hPuts : s'.queue.length ≤ s.queue.length → puts (past ++ [e]) = puts past := fun hFewer => by
    rw [puts_snoc, hBefore, hAfter, added_of_length_le hFewer, List.append_nil]
  cases hGoes with
  | calls =>
    rw [hPuts (Nat.le_refl _)]
    exact h.moves rfl nofun nofun
  | returns =>
    rw [hPuts (Nat.le_refl _)]
    exact h.moves rfl nofun nofun
  | caller _ hCaller hCalls =>
    cases hCalls with
    | note =>
      rw [hPuts (Nat.le_refl _)]
      exact h.moves rfl nofun nofun
    | number =>
      rw [hPuts (Nat.le_refl _)]
      exact h.number ..
    | put ticket =>
      rw [puts_snoc, show added s.queue (s.enqueue _).queue = _ from added_append ..]
      exact h.enqueue hCaller
    | see _ =>
      rw [hPuts (Nat.le_refl _)]
      exact h.moves rfl (fun t ht => by rw [Desk.ticket?, hCaller]; exact ht) nofun
    | take ticket =>
      rw [hPuts (Nat.le_refl _)]
      exact h.moves rfl nofun nofun
  | _ =>
    have hAside := hAside nofun
    rw [hPuts hAside.queue]
    exact h.aside hAside

/-! ## What a caller waits for -/

/-- In the call that it is in, a caller has put this command into the queue. -/
def Placed (past : List Happening) (n : Nat) (q : Queued) : Prop :=
  ∃ x ∈ deeds (Party.caller n) past, added x.before.queue x.after.queue = [q]

/-- The outcome of a ticket, if it has one, is still there. -/
def Kept (past : List Happening) (s : Connection) (t : Ticket) : Prop := ∀ o, (t, o) ∈ settled past → (t, o) ∈ s.outcomes

def Calling.Holds (past : List Happening) (n : Nat) (id : UInt32) (c : Command) (s : Connection) : Calling → Prop
  | waiting t => Placed past n ⟨id, c, t⟩ ∧ Kept past s t
  | taking t => Placed past n ⟨id, c, t⟩ ∧ Kept past s t ∧ ∃ o, (t, o) ∈ s.outcomes
  | finished a => ∃ t, Placed past n ⟨id, c, t⟩ ∧ (t, a) ∈ settled past
  | _ => True

theorem outcome?_isSome : (s.outcome? ticket).isSome ↔ ∃ o, (ticket, o) ∈ s.outcomes := by
  rw [outcome?, Option.isSome_map, List.find?_isSome]
  constructor
  · rintro ⟨⟨t, o⟩, hMem, hSame⟩
    obtain rfl : t = ticket := by simpa using hSame
    exact ⟨o, hMem⟩
  · rintro ⟨o, hMem⟩
    exact ⟨_, hMem, by simp⟩

theorem takeOutcome_mem (h : ∃ o, (ticket, o) ∈ s.outcomes) : (ticket, (s.takeOutcome ticket).1) ∈ s.outcomes := by
  obtain ⟨x, hFind⟩ := Option.isSome_iff_exists.mp (Option.isSome_map .. ▸ outcome?_isSome.mpr h)
  have hMem := List.mem_of_find?_eq_some hFind
  obtain rfl : x.1 = ticket := by simpa using List.find?_some hFind
  simpa [takeOutcome, outcome?, hFind] using hMem

theorem Placed.later (h : Placed past n q) (hOther : ∀ job, e.turn ≠ .takesUp (.caller n) job) :
    Placed (past ++ [e]) n q := by
  obtain ⟨x, hx, hAdded⟩ := h
  exact ⟨x, (deeds_grows past (by simpa using hOther)).subset hx, hAdded⟩

theorem mem_settled_snoc {x : Ticket × Except Error Reply} (e : Happening) (hx : x ∈ settled past) :
    x ∈ settled (past ++ [e]) := by
  rw [settled_snoc]
  exact List.mem_append_left _ hx

/-- What a caller waits for remains, if nothing happens to the outcome of its ticket. -/
theorem Calling.Holds.later {w : Calling} (h : w.Holds past n id c s) (hBefore : e.before = s) (hAfter : e.after = s')
    (hOther : ∀ job, e.turn ≠ .takesUp (.caller n) job)
    (hThere : ∀ t, w.ticket? = some t → ∀ o, (t, o) ∈ s.outcomes ∨ (t, o) ∈ added s.outcomes s'.outcomes →
      (t, o) ∈ s'.outcomes) : w.Holds (past ++ [e]) n id c s' := by
  have hKept : ∀ t, w.ticket? = some t → Kept past s t → Kept (past ++ [e]) s' t := by
    intro t ht hKept o ho
    rw [settled_snoc, hBefore, hAfter] at ho
    exact hThere t ht o ((List.mem_append.mp ho).imp_left (hKept o))
  cases w with
  | waiting t => exact ⟨h.1.later hOther, hKept t rfl h.2⟩
  | taking t =>
    obtain ⟨hPlaced, hKeeps, o, ho⟩ := h
    exact ⟨hPlaced.later hOther, hKept t rfl hKeeps, o, hThere t rfl o (.inl ho)⟩
  | finished a =>
    obtain ⟨t, hPlaced, hSettled⟩ := h
    exact ⟨t, hPlaced.later hOther, mem_settled_snoc e hSettled⟩
  | _ => trivial

/-- What is there to be taken has been settled, and all callers get what is theirs. -/
structure Served (past : List Happening) (d : Desk) (s : Connection) : Prop where
  known : ∀ x ∈ s.outcomes, x ∈ settled past
  callers : ∀ n id c w, d.caller n = some (id, c, w) → w.Holds past n id c s

theorem mem_deeds_goesOn {k : Party} {job : Errand} {asked : Option (Asked Link)} (past : List Happening)
    (s s' : Connection) : ⟨asked, s, s'⟩ ∈ deeds k (past ++ [⟨.goesOn k job asked, s, s'⟩]) := by
  simp [deeds_snoc, Moment.addTo]

/-- What a caller does itself. -/
theorem Calling.Holds.step {w w' : Calling} (h : w.Holds past n id c s) (hCalls : Calls id c w s w' s')
    (hKnown : ∀ x ∈ s.outcomes, x ∈ settled past)
    (hUnused : ∀ t, w = .putting t → ∀ x ∈ settled past, x.1 ≠ t) :
    w'.Holds (past ++ [⟨.goesOn (.caller n) (.send id c) none, s, s'⟩]) n id c s' := by
  cases hCalls with
  | note | number => trivial
  | put ticket =>
    refine ⟨⟨_, mem_deeds_goesOn .., added_append ..⟩, fun o ho => ?_⟩
    rw [settled_snoc, show added s.outcomes (s.enqueue _).outcomes = [] from added_self _, List.append_nil] at ho
    exact absurd rfl (hUnused ticket rfl _ ho)
  | see hThere =>
    obtain ⟨hPlaced, hKept⟩ := h
    refine ⟨hPlaced.later nofun, fun o ho => ?_, outcome?_isSome.mp hThere⟩
    rw [settled_snoc, added_self, List.append_nil] at ho
    exact hKept o ho
  | take ticket =>
    obtain ⟨hPlaced, -, hThere⟩ := h
    exact ⟨ticket, hPlaced.later nofun, mem_settled_snoc _ (hKnown _ (takeOutcome_mem hThere))⟩

theorem Served.aside (h : Served past d s) (hAside : Aside d s d' s') (hBefore : e.before = s) (hAfter : e.after = s')
    (hOther : ∀ n, e.turn.worker? ≠ some (.caller n)) : Served (past ++ [e]) d' s' := by
  obtain ⟨new, hNew⟩ := hAside.outcomes
  refine ⟨fun x hx => ?_, fun n id c w hCaller => ?_⟩
  · rw [settled_snoc, hBefore, hAfter, hNew, added_append]
    rw [hNew] at hx
    exact List.mem_append.mpr ((List.mem_append.mp hx).imp_left (h.known x))
  · rw [hAside.caller] at hCaller
    refine (h.callers n id c w hCaller).later hBefore hAfter (fun job hTurn => hOther n (by rw [hTurn]; rfl)) ?_
    intro t _ o ho
    rw [hNew, added_append] at ho
    rw [hNew]
    exact List.mem_append.mpr ho

/-- One caller is at work. -/
theorem Served.moves {x : Option (UInt32 × Command × Calling)} (h : Served past d s) (hBefore : e.before = s)
    (hAfter : e.after = s') (hTurn : e.turn.worker? = some (.caller n))
    (hOwn : ∀ id c w, x = some (id, c, w) → w.Holds (past ++ [e]) n id c s')
    (hKnown : ∀ x ∈ s'.outcomes, x ∈ s.outcomes)
    (hOthers : ∀ k t, k ≠ n → d.ticket? k = some t → ∀ o, (t, o) ∈ s.outcomes → (t, o) ∈ s'.outcomes)
    (hFewer : s'.outcomes.length ≤ s.outcomes.length) : Served (past ++ [e]) (d.putCaller n x) s' := by
  refine ⟨fun y hy => mem_settled_snoc e (h.known y (hKnown y hy)), fun k id c w hCaller => ?_⟩
  by_cases hSame : k = n
  · subst hSame
    exact hOwn id c w (by simpa [Desk.putCaller] using hCaller)
  · rw [d.caller_putCaller_of_ne hSame] at hCaller
    have hOther : ∀ job, e.turn ≠ .takesUp (.caller k) job := by
      intro job hEq
      rw [hEq] at hTurn
      exact hSame (Party.caller.inj (Option.some.inj hTurn))
    refine (h.callers k id c w hCaller).later hBefore hAfter hOther fun t ht o ho => ?_
    rw [added_of_length_le hFewer] at ho
    exact hOthers k t hSame (by rw [Desk.ticket?, hCaller]; exact ht) o (ho.resolve_right (by simp))

theorem Served.step (h : Served past d s) (hNumbered : Numbered (puts past) d s)
    (hPuts : ∀ x ∈ settled past, ∃ q ∈ puts past, q.ticket = x.1) (hGoes : Goes d s m e d' s' m') :
    Served (past ++ [e]) d' s' := by
  have hAside := hGoes.aside
  obtain ⟨hBefore, hAfter⟩ := hGoes.around
  cases hGoes with
  | calls =>
    refine h.moves rfl rfl rfl ?_ (fun _ hx => hx) (fun _ _ _ _ _ ho => ho) (Nat.le_refl _)
    rintro _ _ _ ⟨⟩
    trivial
  | returns => exact h.moves rfl rfl rfl nofun (fun _ hx => hx) (fun _ _ _ _ _ ho => ho) (Nat.le_refl _)
  | caller _ hCaller hCalls =>
    have hOwn := (h.callers _ _ _ _ hCaller).step hCalls h.known fun t hPutting x hx hEq => by
      obtain ⟨q, hq, hSame⟩ := hPuts x hx
      exact hNumbered.unused _ _ _ t (hPutting ▸ hCaller) q hq (hSame.trans hEq)
    cases hCalls with
    | take ticket =>
      refine h.moves rfl rfl rfl (fun _ _ _ hEq => ?_) (fun x hx => (List.mem_filter.mp hx).1) ?_
        (List.length_filter_le ..)
      · cases hEq
        exact hOwn
      intro k t hOther hTicket o ho
      have hDifferent : t ≠ ticket := fun hEq => by
        refine hOther (hNumbered.apart k _ t hTicket ?_)
        rw [Desk.ticket?, hCaller, hEq]
        rfl
      exact List.mem_filter.mpr ⟨ho, by simpa using hDifferent⟩
    | _ =>
      refine h.moves rfl rfl rfl (fun _ _ _ hEq => ?_) (fun _ hx => hx) (fun _ _ _ _ _ ho => ho) (Nat.le_refl _)
      cases hEq
      exact hOwn
  | _ => exact h.aside (hAside nofun) hBefore hAfter nofun

end JvmDebug.Jdwp.Connection
