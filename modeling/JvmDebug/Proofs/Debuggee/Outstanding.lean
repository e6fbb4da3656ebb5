import JvmDebug.Proofs.Debuggee.Stepping

/-!
# What becomes of step requests

Every step request that the machine holds is accounted for: it is remembered, or in the hands of a worker, or was
forgotten when its thread died. So a thread that was resumed is free of them exactly if no step of it is still out.
-/

namespace JvmDebug.Debuggee
set_option autoImplicit false

open Jdwp (ThreadId RequestId EventSet Reader)

/-! ## Lists of requests -/

section Requests

variable {pending : List StepRequest} {x : StepRequest} {thread : ThreadId} {request : RequestId}

theorem lookup_eq_none_iff : lookup thread pending = none ↔ thread ∉ pending.map Prod.fst := by
  simp only [lookup, Option.map_eq_none_iff, List.find?_eq_none, decide_eq_true_eq, List.mem_map, not_exists, not_and]

/-- A key that stands once in a list is all that is filtered out with it. -/
theorem perm_cons_filter {β : Type} [DecidableEq β] {key : StepRequest → β} (hOnce : (pending.map key).Nodup)
    (h : x ∈ pending) : pending.Perm (x :: pending.filter (key · ≠ key x)) := by
  obtain ⟨before, after, rfl⟩ := List.append_of_mem h
  have hPerm : (before ++ x :: after).Perm (x :: (before ++ after)) := List.perm_middle
  have hOthers : ∀ y ∈ before ++ after, key y ≠ key x := by
    have hNodup := (hPerm.map key).nodup_iff.mp hOnce
    intro y hy hEq
    exact (List.nodup_cons.mp hNodup).1 (hEq ▸ List.mem_map_of_mem hy)
  have hKeeps : (before ++ after).filter (key · ≠ key x) = before ++ after :=
    List.filter_eq_self.mpr fun y hy => by simpa using hOthers y hy
  have hFilter := hPerm.filter (key · ≠ key x)
  rw [List.filter_cons_of_neg (by simp), hKeeps] at hFilter
  exact hPerm.trans (hFilter.symm.cons x)

/-- What is forgotten with a thread is set aside. -/
theorem perm_forgotten (thread : ThreadId) (pending lost others : List StepRequest) :
    (pending ++ (lost ++ others)).Perm
      (pending.filter (·.1 ≠ thread) ++ (lost ++ pending.filter (·.1 = thread) ++ others)) := by
  have hSplit := (List.filter_append_perm (fun x : StepRequest => x.1 ≠ thread) pending).symm
  simp only [ne_eq, decide_not, Bool.not_not] at hSplit ⊢
  refine (hSplit.append_right _).trans ?_
  rw [List.append_assoc]
  apply List.Perm.append_left
  rw [← List.append_assoc]
  exact List.perm_append_comm.append_right _

end Requests

/-! ## The account -/

namespace Stepping

def other : Actor → Actor
  | .client => .pump
  | .pump => .client

variable {φ : Actor → StepPhase} {past : List (Moment Actor Task Debuggee World)} {d d' : Debuggee}
  {held held' : List StepRequest} {k : Actor} {g g' : StepPhase} {asked : Option (Asked World)}

/-- Every request that the machine holds is remembered, in the hands of a worker, or lost with its thread. -/
structure Account (φ : Actor → StepPhase) (past : List (Moment Actor Task Debuggee World)) (d : Debuggee)
    (held : List StepRequest) : Prop where
  owned : ∀ k, held.Perm (d.pendingSteps ++ ((φ k).holds ++ (φ (other k)).holds))
  numbers : (held.map Prod.snd).Nodup
  once : (d.pendingSteps.map Prod.fst).Nodup
  client : ∀ thread, (φ .client).hand.thread? = some thread → thread ∉ d.pendingSteps.map Prod.fst
  pump : ∀ x, (φ .pump).hand ≠ .puts x
  lost : ∀ k, ∀ x ∈ (φ k).lost, x.1 ∈ (φ k).dead
  dead : ∀ k, ∀ thread ∈ (φ k).dead, Died thread past

/-- It is enough to account for what is held from the side of one worker. -/
theorem owned_of (k : Actor) {pending : List StepRequest}
    (h : held.Perm (pending ++ ((φ k).holds ++ (φ (other k)).holds))) (j : Actor) :
    held.Perm (pending ++ ((φ j).holds ++ (φ (other j)).holds)) := by
  have hSwapped := h.trans (List.perm_append_comm.append_left pending)
  cases k <;> cases j
  · exact h
  · exact hSwapped
  · exact hSwapped
  · exact h

theorem holds_of_idle (h : g.hand.isIdle = true) : g.holds = g.lost := by
  rw [StepPhase.holds, Hand.holds_of_idle h, List.nil_append]

/-- What has to be shown when one worker moves on. -/
structure Moved (φ : Actor → StepPhase) (k : Actor) (g' : StepPhase) (d d' : Debuggee) (held' : List StepRequest) :
    Prop where
  owned : held'.Perm (d'.pendingSteps ++ (g'.holds ++ (φ (other k)).holds))
  numbers : (held'.map Prod.snd).Nodup
  once : (d'.pendingSteps.map Prod.fst).Nodup
  keys : k = .pump → ∀ thread ∈ d'.pendingSteps.map Prod.fst, thread ∈ d.pendingSteps.map Prod.fst
  client : k = .client → ∀ thread, g'.hand.thread? = some thread → thread ∉ d'.pendingSteps.map Prod.fst
  pump : k = .pump → ∀ x, g'.hand ≠ .puts x
  lost : ∀ x ∈ g'.lost, x.1 ∈ g'.dead
  dead : g'.dead = (φ k).dead

theorem Account.moved (h : Account φ past d held) (hMoved : Moved φ k g' d d' held') (e : Moment Actor Task Debuggee World) :
    Account (Function.update φ k g') (past ++ [e]) d' held' where
  owned := by
    apply owned_of k
    have hOther : other k ≠ k := by cases k <;> decide
    rw [Function.update_self, Function.update_of_ne hOther]
    exact hMoved.owned
  numbers := hMoved.numbers
  once := hMoved.once
  client thread hThread := by
    cases k with
    | client => exact hMoved.client rfl thread (by simpa using hThread)
    | pump => exact fun hKey => h.client thread (by simpa using hThread) (hMoved.keys rfl thread hKey)
  pump x := by
    cases k with
    | client => simpa using h.pump x
    | pump => simpa using hMoved.pump rfl x
  lost j x hx := by
    by_cases hj : j = k
    · subst hj
      rw [Function.update_self] at hx ⊢
      exact hMoved.lost x hx
    · rw [Function.update_of_ne hj] at hx ⊢
      exact h.lost j x hx
  dead j thread hThread := by
    refine (h.dead j thread ?_).later [e]
    by_cases hj : j = k
    · subst hj
      rwa [Function.update_self, hMoved.dead] at hThread
    · rwa [Function.update_of_ne hj] at hThread

theorem mem_keys_takeStep {thread other : ThreadId} (h : other ∈ (takeStep thread d).2.pendingSteps.map Prod.fst) :
    other ∈ d.pendingSteps.map Prod.fst ∧ other ≠ thread := by
  obtain ⟨x, hx, rfl⟩ := List.mem_map.mp h
  obtain ⟨hMem, hNe⟩ := List.mem_filter.mp hx
  exact ⟨List.mem_map_of_mem hMem, by simpa using hNe⟩

theorem once_takeStep (thread : ThreadId) (h : (d.pendingSteps.map Prod.fst).Nodup) :
    ((takeStep thread d).2.pendingSteps.map Prod.fst).Nodup :=
  h.sublist (List.filter_sublist.map Prod.fst)

theorem filter_of_none {thread : ThreadId} {pending : List StepRequest} (h : thread ∉ pending.map Prod.fst) :
    pending.filter (·.1 ≠ thread) = pending := by
  rw [List.filter_eq_self]
  intro x hx
  simpa using fun hEq : x.1 = thread => h (hEq ▸ List.mem_map_of_mem hx)

theorem Account.goes (h : Account φ past d held) (hMoves : StepPhase.Moves k (φ k) asked d d' g')
    (hReplied : contending.Replied asked held held') : Moved φ k g' d d' held' := by
  have hOwned := h.owned k
  have hLost := h.lost k
  generalize hg : φ k = g at hMoves hOwned hLost
  have hClient : ∀ thread, k = .client → g.hand.thread? = some thread → thread ∉ d.pendingSteps.map Prod.fst := by
    rintro thread rfl hThread
    exact h.client thread (hg ▸ hThread)
  have hPump : ∀ x, k = .pump → g.hand ≠ .puts x := by
    rintro x rfl
    exact hg ▸ h.pump x
  cases hMoves with
  | aside _ hSame =>
    obtain rfl : held' = held := hReplied
    refine ⟨hSame ▸ hOwned, h.numbers, hSame ▸ h.once, fun _ t ht => hSame ▸ ht, ?_, fun hk x => hPump x hk, hLost, hg ▸ rfl⟩
    exact fun hk t ht => hSame ▸ hClient t hk ht
  | asks _ hSpares =>
    obtain rfl := hSpares _ _ hReplied
    exact ⟨hOwned, h.numbers, h.once, fun _ _ => id, fun hk t => hClient t hk, fun hk x => hPump x hk, hLost, hg ▸ rfl⟩
  | @finds _ _ _ thread request hIdle hFound =>
    obtain rfl : held' = held := hReplied
    have hTaken := perm_cons_filter h.once (mem_of_lookup hFound)
    refine ⟨?_, h.numbers, once_takeStep thread h.once, fun _ _ ht => (mem_keys_takeStep ht).1, ?_, nofun, hLost, hg ▸ rfl⟩
    · rw [holds_of_idle hIdle] at hOwned
      exact hOwned.trans ((hTaken.append_right _).trans List.perm_middle.symm)
    · rintro - _ ⟨⟩ hKey
      exact (mem_keys_takeStep hKey).2 rfl
  | @misses _ _ _ thread hIdle hNone =>
    obtain rfl : held' = held := hReplied
    have hSame : (takeStep thread d).2.pendingSteps = d.pendingSteps := filter_of_none (lookup_eq_none_iff.mp hNone)
    refine ⟨?_, h.numbers, once_takeStep thread h.once, fun _ _ ht => (mem_keys_takeStep ht).1, ?_, nofun, hLost, hg ▸ rfl⟩
    · rw [holds_of_idle hIdle] at hOwned
      exact hSame.symm ▸ hOwned
    · rintro - _ ⟨⟩ hKey
      exact (mem_keys_takeStep hKey).2 rfl
  | @withdraws _ _ _ x _ hHand =>
    obtain rfl := Obeys.withdrawn hReplied
    -- The request that is withdrawn was held, and nothing else has its number.
    rw [StepPhase.holds_of_drops hHand] at hOwned
    have hMoved := hOwned.trans List.perm_middle
    have hHeld := perm_cons_filter h.numbers (hMoved.mem_iff.mpr List.mem_cons_self)
    refine ⟨(hHeld.symm.trans hMoved).cons_inv, h.numbers.sublist (List.filter_sublist.map Prod.snd), h.once,
      fun _ _ => id, ?_, nofun, hLost, hg ▸ rfl⟩
    rintro hk _ ⟨⟩
    exact hClient x.1 hk (by rw [hHand]; rfl)
  | @sets _ _ thread kind request id hHand =>
    obtain ⟨rfl, hFresh⟩ := Obeys.numbered hReplied
    have hHolds : g.holds = g.lost := holds_of_idle (by rw [hHand]; rfl)
    rw [hHolds] at hOwned
    refine ⟨(hOwned.cons _).trans List.perm_middle.symm, List.nodup_cons.mpr ⟨hFresh, h.numbers⟩, h.once, nofun, ?_,
      nofun, hLost, hg ▸ rfl⟩
    rintro hk _ ⟨⟩
    exact hClient thread hk (by rw [hHand]; rfl)
  | @puts _ _ x hHand =>
    obtain rfl : held' = held := hReplied
    have hNone := hClient x.1 rfl (by rw [hHand]; rfl)
    have hPut : (putStep x.1 x.2 d).pendingSteps = x :: d.pendingSteps := by
      rw [putStep, filter_of_none hNone]
    rw [StepPhase.holds_of_puts hHand] at hOwned
    refine ⟨?_, h.numbers, ?_, nofun, nofun, nofun, hLost, hg ▸ rfl⟩
    · rw [hPut]
      exact hOwned.trans List.perm_middle
    · rw [hPut]
      exact List.nodup_cons.mpr ⟨hNone, h.once⟩
  | @forgets _ _ _ thread hIdle hDead =>
    obtain rfl : held' = held := hReplied
    rw [holds_of_idle hIdle] at hOwned
    refine ⟨?_, h.numbers, once_takeStep thread h.once, fun _ _ ht => (mem_keys_takeStep ht).1, nofun, nofun, ?_, hg ▸ rfl⟩
    · exact hOwned.trans (perm_forgotten ..)
    · intro x hx
      rcases List.mem_append.mp hx with hx | hx
      · exact hLost x hx
      · have hThread : x.1 = thread := by simpa using (List.mem_filter.mp hx).2
        exact hThread ▸ hDead

/-! ## Runs -/

def concert : Concert contending fun _ => StepPhase where
  phases := phases
  home _ g := g.hand.isIdle = true
  post _ _ _ g := g.hand.isIdle = true

/-- The threads that a set of events says are dead. -/
def deaths (s : EventSet) : List ThreadId :=
  s.events.filterMap fun e => match e.happening with
    | .threadDeath thread => some thread
    | _ => none

theorem mem_deaths {s : EventSet} {thread : ThreadId} :
    thread ∈ deaths s ↔ ∃ e ∈ s.events, e.happening = .threadDeath thread := by
  simp only [deaths, List.mem_filterMap]
  refine exists_congr fun e => and_congr_right fun _ => ?_
  split <;> simp_all

theorem Account.later (h : Account φ past d held) (hSame : d'.pendingSteps = d.pendingSteps)
    (e : Moment Actor Task Debuggee World) : Account φ (past ++ [e]) d' held where
  owned := hSame ▸ h.owned
  numbers := h.numbers
  once := hSame ▸ h.once
  client := hSame ▸ h.client
  pump := h.pump
  lost := h.lost
  dead j thread hThread := (h.dead j thread hThread).later [e]

/-- Deaths that are told of are known to the pump from then on. -/
theorem Account.told (h : Account φ past d held) (s : EventSet) :
    Account (Function.update φ .pump { φ .pump with dead := (φ .pump).dead ++ deaths s })
      (past ++ [⟨.takesUp .pump (.handles s), d, d⟩]) d held where
  owned := by
    apply owned_of .pump
    rw [Function.update_self, Function.update_of_ne (by decide)]
    exact h.owned .pump
  numbers := h.numbers
  once := h.once
  client thread hThread := h.client thread (by simpa using hThread)
  pump x := by simpa using h.pump x
  lost j x hx := by
    cases j with
    | client => simpa using h.lost .client x (by simpa using hx)
    | pump =>
      rw [Function.update_self] at hx ⊢
      exact List.mem_append_left _ (h.lost .pump x hx)
  dead j thread hThread := by
    cases j with
    | client => exact (h.dead .client thread (by simpa using hThread)).later _
    | pump =>
      rw [Function.update_self] at hThread
      rcases List.mem_append.mp hThread with hOld | hNew
      · exact (h.dead .pump thread hOld).later _
      · exact ⟨_, List.mem_append_right _ List.mem_cons_self, s, rfl, mem_deaths.mp hNew⟩

theorem keeps : concert.KeepsIn (fun _ _ => True) Account where
  keep _ := rfl
  answered _ held _ _ held' hObeys := ⟨held, held', hObeys⟩
  fits _ _ := trivial
  takes := by
    rintro φ past d held k task r d' hAccount hHome ⟨hUndertaken, rfl⟩ -
    cases hUndertaken with
    | serves c =>
      refine ⟨φ .client, Routine.Passes.map ((passes_serve c hHome).mono fun _ g' hRests => hRests.1), ?_⟩
      rw [Function.update_eq_self]
      exact hAccount.later rfl _
    | handles s =>
      have hDead : ∀ e ∈ s.events, ∀ thread, e.happening = .threadDeath thread →
          thread ∈ (φ .pump).dead ++ deaths s := by
        intro e he thread hEq
        exact List.mem_append_right _ (mem_deaths.mpr ⟨e, he, hEq⟩)
      have hPasses := passes_pump (k := .pump) (g := { φ .pump with dead := (φ .pump).dead ++ deaths s }) hDead hHome
      exact ⟨_, hPasses.mono fun _ g' hRests => hRests.1, hAccount.told s⟩
  goes hAccount hMoves hReplied _ := hAccount.moved (hAccount.goes hMoves hReplied) _
  done hAccount hIdle := ⟨hIdle, hAccount.later rfl _⟩
  outside := by
    rintro φ past d held d' held' hAccount ⟨hSame, rfl⟩
    exact hAccount.later hSame _

/-- A worker that has a request to withdraw does so next. -/
theorem withdraws_of_drops {α : Type} {post : α → StepPhase → Prop} {r : Activity α} {x : StepRequest} (d : Debuggee)
    (hPost : ∀ a, ¬post a g) (hHand : g.hand = .drops x) (h : r.Passes (phases k) post g) :
    ∃ next, r = .call (.command (dropStep x.2)) next := by
  have hDropping : g.hand.isDropping = true := by rw [hHand]; rfl
  -- With a request to withdraw there is nothing else that the worker may do.
  have hOnly : ∀ {asked d d' g'}, StepPhase.Moves k g asked d d' g' →
      ∃ a : Answer (.command (dropStep x.2)), asked = some ⟨.command (dropStep x.2), a⟩ := by
    intro asked d d' g' hMoves
    cases hMoves with
    | aside hNot | asks hNot =>
      rw [hDropping] at hNot
      cases hNot
    | finds hIdle | misses hIdle | forgets hIdle =>
      rw [hHand] at hIdle
      cases hIdle
    | sets hOther | puts hOther =>
      rw [hHand] at hOther
      cases hOther
    | @withdraws _ _ _ y a hSame =>
      obtain rfl := Hand.drops.inj (hHand.symm.trans hSame)
      exact ⟨a, rfl⟩
  cases r with
  | done a => exact (hPost a h).elim
  | atomic change next =>
    obtain ⟨g', hMoves, -⟩ := h d trivial
    cases (hOnly hMoves).choose_spec
  | wait ready change limit next =>
    have hNot : g.hand.isDropping = false := h.1
    rw [hDropping] at hNot
    cases hNot
  | call c next =>
    obtain ⟨a, hObeyed⟩ := exists_obeyed c
    obtain ⟨g', hMoves, -⟩ := h d trivial a hObeyed
    obtain ⟨b, hEq⟩ := hOnly hMoves
    cases hEq
    exact ⟨next, rfl⟩
  | note record next =>
    obtain ⟨g', hMoves, -⟩ := h d trivial
    cases (hOnly hMoves).choose_spec

theorem account_begins (hNone : d.pendingSteps = []) : Account (fun _ => .atRest) [] d [] := by
  constructor
  · intro k
    rw [hNone]
    exact .refl _
  · exact List.nodup_nil
  · rw [hNone]
    exact List.nodup_nil
  · exact nofun
  · exact nofun
  · exact fun _ _ hx => absurd hx List.not_mem_nil
  · exact fun _ _ hx => absurd hx List.not_mem_nil

/-- Along every run there is an account of what the machine holds. -/
theorem accounted {now : Scene Actor Task Debuggee World (List StepRequest) Outcome}
    (hLeads : contending.Leads (.idle d []) past now) (hNone : d.pendingSteps = []) :
    ∃ φ, (∀ k, concert.Plays φ now k) ∧ Account φ past now.state now.world :=
  hLeads.plays_in (φ := fun _ => StepPhase.atRest) keeps (fun _ => rfl) (fun _ => rfl) (account_begins hNone)

/-- What a worker is about to withdraw is held still. -/
theorem Account.held_of_drops {x : StepRequest} (h : Account φ past d held) (hHand : (φ k).hand = .drops x) :
    x ∈ held := by
  have hHolds : x ∈ (φ k).holds := StepPhase.holds_of_drops hHand ▸ List.mem_cons_self
  exact (h.owned k).mem_iff.mpr (List.mem_append_right _ (List.mem_append_left _ hHolds))

/-- Where to find what is held for a thread that has not died. -/
theorem Account.found {x : StepRequest} (h : Account φ past d held) (hAlive : ¬Died x.1 past) (hHeld : x ∈ held) :
    x ∈ d.pendingSteps ∨ x ∈ (φ .client).hand.holds ∨ (φ .pump).hand = .drops x := by
  have hNotLost : ∀ k, x ∉ (φ k).lost := fun k hLost => hAlive (h.dead k _ (h.lost k _ hLost))
  have hSomewhere := (h.owned .client).mem_iff.mp hHeld
  rw [List.mem_append, List.mem_append, StepPhase.holds, List.mem_append] at hSomewhere
  rcases hSomewhere with hPending | (hClients | hLost) | hPumps
  · exact .inl hPending
  · exact .inr (.inl hClients)
  · exact (hNotLost _ hLost).elim
  rcases List.mem_append.mp hPumps with hHand | hLost
  · change x ∈ (φ .pump).hand.holds at hHand
    cases hPump : (φ .pump).hand with
    | free | ready =>
      rw [hPump] at hHand
      cases hHand
    | puts y => exact (h.pump y hPump).elim
    | drops y =>
      rw [hPump] at hHand
      exact .inr (.inr (by rw [List.mem_singleton.mp hHand]))
  · exact (hNotLost _ hLost).elim

/-- What is held for a thread that has not died, while the client has none in its hands. -/
theorem Account.pending_or_dropped {x : StepRequest} (h : Account φ past d held) (hIdle : (φ .client).hand.isIdle = true)
    (hAlive : ¬Died x.1 past) (hHeld : x ∈ held) : x ∈ d.pendingSteps ∨ (φ .pump).hand = .drops x := by
  rcases h.found hAlive hHeld with hPending | hClients | hPumps
  · exact .inl hPending
  · rw [Hand.holds_of_idle hIdle] at hClients
    cases hClients
  · exact .inr hPumps

/-- Two requests of a thread are held only while the pump has one of them in its hands. -/
theorem Account.dropped_of_two {x y : StepRequest} (h : Account φ past d held) (hAlive : ¬Died x.1 past) (hx : x ∈ held)
    (hy : y ∈ held) (hThread : y.1 = x.1) (hNe : x ≠ y) : (φ .pump).hand = .drops x ∨ (φ .pump).hand = .drops y := by
  -- What the client has in its hands is of a thread of which nothing is remembered.
  have hApart : ∀ {z z' : StepRequest}, z ∈ d.pendingSteps → z' ∈ (φ .client).hand.holds → z'.1 ≠ z.1 := by
    intro z z' hPending hHand hEq
    exact h.client z'.1 (Hand.thread_of_holds hHand) (hEq ▸ List.mem_map_of_mem hPending)
  rcases h.found hAlive hx with hxPending | hxHand | hxPump
  · rcases h.found (hThread ▸ hAlive) hy with hyPending | hyHand | hyPump
    · exact (hNe (List.inj_on_of_nodup_map h.once hxPending hyPending hThread.symm)).elim
    · exact (hApart hxPending hyHand hThread).elim
    · exact .inr hyPump
  · rcases h.found (hThread ▸ hAlive) hy with hyPending | hyHand | hyPump
    · exact (hApart hyPending hxHand hThread.symm).elim
    · exact (hNe (Hand.eq_of_holds hxHand hyHand)).elim
    · exact .inr hyPump
  · exact .inl hxPump

end Stepping

section Resumed

variable {past : List (Moment Actor Task Debuggee World)} {thread : ThreadId} {d : Debuggee}
  {now : Scene Actor Task Debuggee World (List StepRequest) Outcome}

/-- The machine holds no step request for a thread. -/
def IsFree (thread : ThreadId) (held : List StepRequest) : Prop := ∀ request, (thread, request) ∉ held

/-- The pump is about to withdraw a request that the machine still holds. -/
def Withdraws (x : StepRequest) (s : Scene Actor Task Debuggee World (List StepRequest) Outcome) : Prop :=
  x ∈ s.world ∧ ∃ task next, s.busy .pump = some (task, .call (.command (dropStep x.2)) next)

/-- A pump that has a request in its hands is at work, and withdraws it next. -/
theorem withdraws_of_plays {φ : Actor → StepPhase} {x : StepRequest} (hPlays : Stepping.concert.Plays φ now .pump)
    (hHand : (φ .pump).hand = .drops x) (hHeld : x ∈ now.world) : Withdraws x now := by
  have hNotIdle : ¬(φ .pump).hand.isIdle = true := by
    rw [hHand]
    nofun
  rw [Concert.Plays] at hPlays
  split at hPlays
  · exact (hNotIdle hPlays).elim
  · next task r hBusy =>
    have hNotDone : ∀ gone, ¬Stepping.concert.post .pump task gone (φ .pump) := fun _ => hNotIdle
    obtain ⟨next, rfl⟩ := Stepping.withdraws_of_drops now.state hNotDone hHand hPlays
    exact ⟨hHeld, task, next, hBusy⟩

/-- A thread that has been resumed is free of step requests if and only if none is still remembered for it, and none of
it is just being withdrawn. Resuming withdraws none itself. -/
theorem resumed_free_iff (hLeads : stepping.Leads (.idle d []) past now) (hNone : d.pendingSteps = []) {task : Task}
    {a : Except Error ResumeOutcome} (hDone : now.busy .client = some (task, .done ⟨.resume thread, a⟩)) :
    a = .ok .resumed ∧ (¬Died thread past → (IsFree thread now.world ↔
      lookup thread now.state.pendingSteps = none ∧ ∀ request, ¬Withdraws (thread, request) now)) := by
  obtain ⟨φ, hPlays, hAccount⟩ := Stepping.accounted (contends hLeads) hNone
  have hIdle := hPlays .client
  rw [Concert.Plays, hDone] at hIdle
  refine ⟨succeeds hLeads rfl hDone, fun hAlive => ⟨fun hFree => ?_, ?_⟩⟩
  · refine ⟨?_, fun request hWithdraws => hFree request hWithdraws.1⟩
    rw [lookup_eq_none_iff]
    intro hKey
    obtain ⟨⟨_, request⟩, hPending, rfl⟩ := List.mem_map.mp hKey
    exact hFree request ((hAccount.owned .client).mem_iff.mpr (List.mem_append_left _ hPending))
  · rintro ⟨hLookup, hWithdraws⟩ request hHeld
    rcases hAccount.pending_or_dropped hIdle hAlive hHeld with hPending | hHand
    · exact lookup_eq_none_iff.mp hLookup (List.mem_map_of_mem hPending)
    · exact hWithdraws request (withdraws_of_plays (hPlays .pump) hHand hHeld)

/-! ## A step that is overtaken -/

/-- The machine numbers the step of thread 7 with 1. -/
def willing (held : List StepRequest) : (c : Call) → Option (Answer c × List StepRequest)
  | .command c =>
    if c.set ≠ 15 then some (.ok ⟨0, 0, []⟩, held)
    else if c = setStep 7 .next ∧ (1 : RequestId) ∉ held.map Prod.snd then some (.ok ⟨0, 0, Jdwp.Layout.i32 1⟩, (7, 1) :: held)
    else if c = dropStep 1 then some (.ok ⟨0, 0, []⟩, held.filter (·.2 ≠ 1))
    else none
  | .publish _ => some ((), held)
  | .exitCode => some (none, held)
  | .kill => some (.ok (), held)

theorem accepts_willing {held held' : List StepRequest} {c : Call} {a : Answer c}
    (h : willing held c = some (a, held')) : Accepts held c a held' := by
  cases c with
  | publish =>
    cases h
    exact .publish
  | exitCode =>
    cases h
    exact .exitCode
  | kill =>
    cases h
    exact .kill
  | command c =>
    dsimp only [willing] at h
    split at h
    · next hSet =>
      cases h
      have hNot := not_of_steps (not_isOfSteps hSet)
      exact .obeys hNot.1 hNot.2
    split at h
    · next hSets =>
      obtain ⟨rfl, hFresh⟩ := hSets
      cases h
      exact .sets hFresh
    split at h
    · next hDrops =>
      subst hDrops
      cases h
      exact .drops
    · cases h

def obeying : Script stepping Task Empty where
  take?
    | .client, .serves c, d => some (.serves c, Sigma.mk c <$> serve c.request, d)
    | .pump, .handles s, d => if s.events.all isOfThreads then some (.handles s, pump s, d) else none
    | _, _, _ => none
  answer? := willing
  come? := nofun
  takes {k hint _ _ _ _} h := by
    cases k <;> cases hint <;> simp only [reduceCtorEq] at h
    · cases h
      exact ⟨.serves _, rfl⟩
    · split at h
      · next hAll =>
        cases h
        exact ⟨.handles (List.all_eq_true.mp hAll), rfl⟩
      · cases h
  answers := accepts_willing
  outside {x} := nomatch x

def attachedMachine : Debuggee := { origin := .attached, book := {}, placer := { index := {}, root := ⟨"/w"⟩ } }

/-- Thread 7 makes a step, then something is told of it, then it is resumed. -/
def steppedThen (s : EventSet) (steps : Nat) : List (Cue Actor Task Empty) :=
  [.takesUp .client (.serves (.step 7 .next))] ++ List.replicate 5 (.goesOn .client) ++ [.isDone .client,
    .takesUp .pump (.handles s)] ++ List.replicate steps (.goesOn .pump) ++ [.isDone .pump,
    .takesUp .client (.serves (.resume 7)), .goesOn .client]

def stepEnds : EventSet := ⟨1, [⟨1, .step 7 ⟨1, 4, 5, 6⟩⟩]⟩

def breakpointHit : EventSet := ⟨1, [⟨2, .breakpoint 7 ⟨1, 4, 5, 6⟩⟩]⟩

/-- Whether thread 7 has just been resumed, with these requests held and the pump at rest. -/
def isResumedWith (held : List StepRequest) (s : Scene Actor Task Debuggee World (List StepRequest) Outcome) : Bool :=
  s.world = held && (s.busy .pump).isNone && match s.busy .client with
    | some (_, .done ⟨.resume thread, .ok .resumed⟩) => thread = 7
    | _ => false

theorem eq_of_isResumedWith {held : List StepRequest} (h : isResumedWith held now = true) : now.world = held ∧
    now.busy .pump = none ∧ ∃ task, now.busy .client = some (task, .done ⟨.resume 7, .ok .resumed⟩) := by
  obtain ⟨hBoth, hClient⟩ := Bool.and_eq_true_iff.mp h
  obtain ⟨hWorld, hPump⟩ := Bool.and_eq_true_iff.mp hBoth
  refine ⟨of_decide_eq_true hWorld, Option.isNone_iff_eq_none.mp hPump, ?_⟩
  split at hClient
  · next task thread hDone =>
    obtain rfl : thread = 7 := of_decide_eq_true hClient
    exact ⟨task, hDone⟩
  · cases hClient

def isToldAlive (thread : ThreadId) (past : List (Moment Actor Task Debuggee World)) : Bool :=
  past.all fun e => match e.turn with
    | .takesUp .pump (.handles s) => !(Stepping.deaths s).contains thread
    | _ => true

theorem not_died_of_isToldAlive (h : isToldAlive thread past = true) : ¬Died thread past := by
  rintro ⟨e, he, s, hTurn, hDeath⟩
  have hAlive := List.all_eq_true.mp h e he
  rw [hTurn] at hAlive
  have hMem := Stepping.mem_deaths.mpr hDeath
  simp [hMem] at hAlive

theorem resumed_free_iff_stepEnds : ∃ past now task, stepping.Leads (.idle attachedMachine []) past now ∧
    attachedMachine.pendingSteps = [] ∧ now.busy .client = some (task, .done ⟨.resume 7, .ok .resumed⟩) ∧
    ¬Died 7 past ∧ IsFree 7 now.world ∧ lookup 7 now.state.pendingSteps = none := by
  obtain ⟨past, now, hLeads, hCheck⟩ := obeying.leads_of_check (steppedThen stepEnds 4) (.idle attachedMachine [])
    (fun past now => isToldAlive 7 past && isResumedWith [] now) (by decide +kernel)
  obtain ⟨hToldAlive, hResumed⟩ := Bool.and_eq_true_iff.mp hCheck
  obtain ⟨hWorld, -, task, hDone⟩ := eq_of_isResumedWith hResumed
  have hAlive := not_died_of_isToldAlive hToldAlive
  have hFree : IsFree 7 now.world := by
    rw [hWorld]
    exact fun _ => List.not_mem_nil
  exact ⟨past, now, task, hLeads, rfl, hDone, hAlive, hFree, (((resumed_free_iff hLeads rfl hDone).2 hAlive).mp hFree).1⟩

/-- A breakpoint stops a thread in the middle of its step. The thread is resumed, and the machine still holds the
request of the step. -/
theorem held_after_breakpoint : ∃ past now task, stepping.Leads (.idle attachedMachine []) past now ∧
    now.busy .client = some (task, .done ⟨.resume 7, .ok .resumed⟩) ∧ now.busy .pump = none ∧ ¬Died 7 past ∧
    ¬IsFree 7 now.world := by
  obtain ⟨past, now, hLeads, hCheck⟩ := obeying.leads_of_check (steppedThen breakpointHit 2) (.idle attachedMachine [])
    (fun past now => isToldAlive 7 past && isResumedWith [(7, 1)] now) (by decide +kernel)
  obtain ⟨hToldAlive, hResumed⟩ := Bool.and_eq_true_iff.mp hCheck
  obtain ⟨hWorld, hPump, task, hDone⟩ := eq_of_isResumedWith hResumed
  refine ⟨past, now, task, hLeads, hDone, hPump, not_died_of_isToldAlive hToldAlive, fun hFree => hFree 1 ?_⟩
  rw [hWorld]
  exact List.mem_singleton.mpr rfl

end Resumed
end JvmDebug.Debuggee
