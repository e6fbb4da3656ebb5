import JvmDebug.Proofs.Session.Accounting
import JvmDebug.Proofs.Session.Resuming

/-!
# Requests and responses match

Requests and responses match one to one, the responses of a lane come in the order in which its requests were dispatched,
and what the client is told beyond the responses of the default lane stands right behind the response that it follows.
-/

namespace JvmDebug.Session
set_option autoImplicit false

/-- The worker of the default lane has answered a request, and is not done with it. -/
def IsFollowing (past : List Happening) (s : Scene Hand Job Session World Unit fun _ => Unit) : Prop :=
  ∃ q r, s.busy (.worker .defaultLane) = some (.request q, r) ∧ (∀ x, r ≠ .done x) ∧
    responsesBy (.worker .defaultLane) past ≠ []

/-- Requests and responses match one to one. -/
structure Matched (past : List Happening) (s : Scene Hand Job Session World Unit fun _ => Unit) : Prop where
  /-- The client gets the responses that were sent while a request was being served, and no others. -/
  responses : Dap.responses s.state.outbox = (answered past).map (·.2)
  /-- Each of them carries the number and the command of that request. -/
  carries : ∀ x ∈ answered past, ∃ result, x.2 = .of x.1 result
  /-- Each request that was dispatched has been answered, is at work, or waits, and is so once. -/
  account : ∃ atWork : List (Hand × Dap.Request), (atWork.map (·.1)).Nodup ∧
    (∀ k q, (k, q) ∈ atWork ↔ (∃ r, s.busy k = some (.request q, r)) ∧ responsesBy k past = []) ∧
    (dispatched past).Perm (served past ++ atWork.map (·.2) ++ s.state.waiting)
  /-- A worker that was done with a request had answered it, once. -/
  finished : ∀ before e after k q, past = before ++ e :: after → e.turn = .isDone k (.request q) →
    ∃ result, responsesBy k before = [.of q result] ∧ (q, .of q result) ∈ answered past
  inOrder : ∀ x ≠ Route.arrival, (served past).filter (goesTo x) <+: (dispatched past).filter (goesTo x)
  /-- What the client hears of the default lane is what it is to be told of the requests that were answered there, or all
  of that but what is still to follow the last response. -/
  talk : s.state.outbox.filter isOfDefaultLane = transcript false (onDefault past) ∨
    IsFollowing past s ∧ ∃ xs x, onDefault past = xs ++ [x] ∧
      s.state.outbox.filter isOfDefaultLane = transcript false xs ++ [.response x.2]
  once : (s.state.outbox.filter (·.isInitialized)).length ≤ 1
  /-- When a request has made the session ready, the client has been told, or it is about to be. -/
  initialized : ∀ x ∈ onDefault past, initializes x = true →
    .initialized ∈ s.state.outbox ∨ IsFollowing past s ∧ (onDefault past).getLast? = some x

variable {told : (c : Call) → Answer c → Prop} {journal : Option Log.Journal} {past : List Happening} {e : Happening}
  {k : Hand} {job : Job} {q : Dap.Request} {s s' : Session} {g g' : Reply} {o : Owed} {φ : Casting Hand Job Reply}

/-! ## What the client has been told -/

/-- What the outbox holds if `o` is still owed to the client after the last response of the default lane. -/
structure Follows (o : Owed) (past : List Happening) (s : Session) : Prop where
  responses : Dap.responses s.outbox = (answered past).map (·.2)
  carries : ∀ x ∈ answered past, ∃ result, x.2 = .of x.1 result
  talk : s.outbox.filter isOfDefaultLane ++ o.messages = transcript false (onDefault past)
  ready : (onDefault past).any initializes = (s.initialized || o.isMark)
  mark : ∀ wasTold, o = .mark wasTold → s.initialized = wasTold
  message : ∀ m, o = .message m → isOfDefaultLane m = true ∧ m.response? = none
  last : o ≠ .nothing → ∃ xs x, onDefault past = xs ++ [x] ∧
    s.outbox.filter isOfDefaultLane = transcript false xs ++ [.response x.2]

theorem isOfDefaultLane_of (q : Dap.Request) (result : Except Error (Option Json)) :
    isOfDefaultLane (.response (.of q result)) = goesTo .default q := by
  cases result <;> rfl

/-- Messages that belong to no request. -/
theorem Follows.sends (h : Follows o past s) {new : List Dap.Outgoing} (hOutbox : s'.outbox = s.outbox ++ new)
    (hNew : ∀ m ∈ new, isOfDefaultLane m = false ∧ m.response? = none) (hSame : s'.initialized = s.initialized)
    (hAnswered : answeredAt e = []) : Follows o (past ++ [e]) s' where
  responses := by
    rw [hOutbox, Dap.responses_append, Dap.responses_eq_nil fun m hm => (hNew m hm).2, answered_snoc, hAnswered,
      List.append_nil, List.append_nil, h.responses]
  carries := by
    rw [answered_snoc, hAnswered, List.append_nil]
    exact h.carries
  talk := by
    have hNone : new.filter isOfDefaultLane = [] := by simpa using fun m hm => (hNew m hm).1
    rw [hOutbox, List.filter_append, hNone, List.append_nil, onDefault_snoc, hAnswered, List.filter_nil, List.append_nil,
      h.talk]
  ready := by
    rw [onDefault_snoc, hAnswered, List.filter_nil, List.append_nil, hSame, h.ready]
  mark := hSame ▸ h.mark
  message := h.message
  last := by
    have hNone : new.filter isOfDefaultLane = [] := by simpa using fun m hm => (hNew m hm).1
    rw [hOutbox, List.filter_append, hNone, List.append_nil, onDefault_snoc, hAnswered, List.filter_nil, List.append_nil]
    exact h.last

theorem Follows.silent (h : Follows o past s) (hOutbox : s'.outbox = s.outbox) (hSame : s'.initialized = s.initialized)
    (hAnswered : answeredAt e = []) : Follows o (past ++ [e]) s' :=
  h.sends (hOutbox.trans (List.append_nil _).symm) (by simp) hSame hAnswered

/-- What was owed is told. -/
theorem Follows.tells {m : Dap.Outgoing} (h : Follows (.message m) past s) (hAnswered : answeredAt e = []) :
    Follows .nothing (past ++ [e]) (post m s) where
  responses := by
    have hNone : Dap.responses [m] = [] := Dap.responses_eq_nil (by simp [(h.message m rfl).2])
    rw [post, Dap.responses_append, hNone, answered_snoc, hAnswered, List.append_nil, List.append_nil, h.responses]
  carries := by
    rw [answered_snoc, hAnswered, List.append_nil]
    exact h.carries
  talk := by
    rw [post, List.filter_append, onDefault_snoc, hAnswered, List.filter_nil, List.append_nil, ← h.talk]
    simp [(h.message m rfl).1, Owed.messages]
  ready := by
    rw [onDefault_snoc, hAnswered, List.filter_nil, List.append_nil]
    exact h.ready
  mark := nofun
  message := nofun
  last h := absurd rfl h

/-- The session is marked as ready; the client is to be told unless it has been before. -/
theorem Follows.marks {wasTold : Bool} (h : Follows (.mark wasTold) past s) (hAnswered : answeredAt e = []) :
    Follows (if wasTold then .nothing else .message .initialized) (past ++ [e]) { s with initialized := true } where
  responses := by
    rw [answered_snoc, hAnswered, List.append_nil]
    exact h.responses
  carries := by
    rw [answered_snoc, hAnswered, List.append_nil]
    exact h.carries
  talk := by
    rw [onDefault_snoc, hAnswered, List.filter_nil, List.append_nil, ← h.talk]
    cases wasTold <;> rfl
  ready := by
    rw [onDefault_snoc, hAnswered, List.filter_nil, List.append_nil, h.ready]
    simp [Owed.isMark]
  mark _ hMark := by cases wasTold <;> cases hMark
  message m hm := by
    cases wasTold with
    | true => cases hm
    | false =>
      cases hm
      exact ⟨by rw [isOfDefaultLane_of_event rfl]; rfl, rfl⟩
  last _ := by
    rw [onDefault_snoc, hAnswered, List.filter_nil, List.append_nil]
    exact h.last (by simp)

/-- A request of the default lane is answered. -/
theorem Follows.responds (h : Follows .nothing past s) (hRoute : route q.command = .default)
    (result : Except Error (Option Json)) (hAnswered : answeredAt e = [(q, .of q result)]) :
    Follows (owed q s.initialized (.of q result)) (past ++ [e]) (post (.response (.of q result)) s) where
  responses := by
    rw [post, Dap.responses_append, answered_snoc, hAnswered, List.map_append, h.responses]
    rfl
  carries x hx := by
    rw [answered_snoc, hAnswered] at hx
    rcases List.mem_append.mp hx with hx | hx
    · exact h.carries x hx
    · exact ⟨result, by rw [List.mem_singleton.mp hx]⟩
  talk := by
    have hHere : isOfDefaultLane (.response (.of q result)) = true :=
      (isOfDefaultLane_of q result).trans (decide_eq_true hRoute)
    have hReady : (onDefault past).any initializes = s.initialized := by simpa [Owed.isMark] using h.ready
    have hTalk : s.outbox.filter isOfDefaultLane = transcript false (onDefault past) := by
      simpa [Owed.messages] using h.talk
    rw [onDefault_snoc, hAnswered, List.filter_cons_of_pos (by simpa [goesTo] using hRoute), List.filter_nil, transcript_snoc,
      hReady, Bool.false_or, post, List.filter_append, hTalk, List.filter_cons_of_pos hHere, List.filter_nil]
    simp
  ready := by
    have hReady : (onDefault past).any initializes = s.initialized := by simpa [Owed.isMark] using h.ready
    rw [onDefault_snoc, hAnswered, List.filter_cons_of_pos (by simpa [goesTo] using hRoute), List.any_append, hReady, isMark_owed]
    simp [post]
  mark wasTold hMark := told_of_owed_mark hMark
  message m hm := isOfDefaultLane_of_owed hm
  last _ := by
    have hHere : isOfDefaultLane (.response (.of q result)) = true :=
      (isOfDefaultLane_of q result).trans (decide_eq_true hRoute)
    refine ⟨onDefault past, (q, .of q result), ?_, ?_⟩
    · rw [onDefault_snoc, hAnswered, List.filter_cons_of_pos (by simpa [goesTo] using hRoute), List.filter_nil]
    · rw [post, List.filter_append, List.filter_cons_of_pos hHere, List.filter_nil, ← h.talk, Owed.messages, List.append_nil]

/-- A request beside the default lane is answered. -/
theorem Follows.responds_beside (h : Follows o past s) (hRoute : route q.command ≠ .default)
    (result : Except Error (Option Json)) (hAnswered : answeredAt e = [(q, .of q result)]) :
    Follows o (past ++ [e]) (post (.response (.of q result)) s) where
  responses := by
    rw [post, Dap.responses_append, answered_snoc, hAnswered, List.map_append, h.responses]
    rfl
  carries x hx := by
    rw [answered_snoc, hAnswered] at hx
    rcases List.mem_append.mp hx with hx | hx
    · exact h.carries x hx
    · exact ⟨result, by rw [List.mem_singleton.mp hx]⟩
  talk := by
    have hNot : isOfDefaultLane (.response (.of q result)) = false :=
      (isOfDefaultLane_of q result).trans (decide_eq_false hRoute)
    rw [onDefault_snoc, hAnswered, List.filter_cons_of_neg (by simpa [goesTo] using hRoute), List.filter_nil, List.append_nil,
      post, List.filter_append, List.filter_cons_of_neg (by simp [hNot]), List.filter_nil, List.append_nil, h.talk]
  ready := by
    rw [onDefault_snoc, hAnswered, List.filter_cons_of_neg (by simpa [goesTo] using hRoute), List.filter_nil, List.append_nil]
    exact h.ready
  mark := h.mark
  message := h.message
  last := by
    have hNot : isOfDefaultLane (.response (.of q result)) = false :=
      (isOfDefaultLane_of q result).trans (decide_eq_false hRoute)
    rw [onDefault_snoc, hAnswered, List.filter_cons_of_neg (by simpa [goesTo] using hRoute), List.filter_nil, List.append_nil,
      post, List.filter_append, List.filter_cons_of_neg (by simp [hNot]), List.filter_nil, List.append_nil]
    exact h.last

/-! ## All workers -/

/-- The request of a worker that it has not answered yet. -/
def unanswered (φ : Casting Hand Job Reply) (k : Hand) : Option Dap.Request :=
  match φ k with
  | some (.request q, .due) => some q
  | _ => none

/-- What is still owed to the client after the last response of the default lane. -/
def owing (φ : Casting Hand Job Reply) : Owed :=
  match φ (.worker .defaultLane) with
  | some (_, .sent _ o) => o
  | _ => .nothing

/-- What is true of the phases of the workers, the past, and the state. -/
structure Tally (φ : Casting Hand Job Reply) (past : List Happening) (s : Session) : Prop where
  counted : Counted (unanswered φ) past s
  follows : Follows (owing φ) past s
  own : ∀ k q g, φ k = some (.request q, g) → responsesBy k past = g.responses ∧ ∀ r ∈ g.responses, (q, r) ∈ answered past
  beside : ∀ k job r o, φ k = some (job, .sent r o) → k = .worker .defaultLane ∨ o = .nothing
  request : ∀ k job r o, φ k = some (job, .sent r o) → ∃ q, job = .request q

theorem unanswered_update (φ : Casting Hand Job Reply) (k : Hand) (x : Option (Job × Reply)) :
    unanswered (Function.update φ k x) =
      Function.update (unanswered φ) k (match x with | some (.request q, .due) => some q | _ => none) := by
  funext j
  by_cases hj : j = k
  · subst hj
    simp [unanswered]
  · simp [unanswered, hj]

theorem owing_update_of_other {φ : Casting Hand Job Reply} {k : Hand} (h : k ≠ .worker .defaultLane)
    (x : Option (Job × Reply)) : owing (Function.update φ k x) = owing φ := by
  rw [owing, Function.update_of_ne (Ne.symm h), owing]

/-- A worker whose phase says nothing that matters for the others. -/
theorem unanswered_update_same {x : Option (Job × Reply)}
    (h : unanswered φ k = (match x with | some (.request q, .due) => some q | _ => none)) :
    unanswered (Function.update φ k x) = unanswered φ := by
  rw [unanswered_update, ← h, Function.update_eq_self]

theorem owing_update_same {x : Option (Job × Reply)}
    (h : k = .worker .defaultLane → owing φ = (match x with | some (_, .sent _ o) => o | _ => .nothing)) :
    owing (Function.update φ k x) = owing φ := by
  by_cases hk : k = .worker .defaultLane
  · rw [h hk, owing, hk, Function.update_self]
  · exact owing_update_of_other hk x

/-! ### What each moment does -/

theorem answeredAt_of_none {asked : Option (Asked World)} (h : Dap.responses (added s.outbox s'.outbox) = []) :
    answeredAt ⟨.goesOn k job asked, s, s'⟩ = [] := by
  cases job <;> simp [answeredAt, h]

/-- What others have answered stays as it is. -/
theorem Tally.own_of_other (h : Tally φ past s) {j : Hand} {g : Reply} (hPhase : φ j = some (.request q, g))
    (hOther : e.turn.worker? ≠ some j) :
    responsesBy j (past ++ [e]) = g.responses ∧ ∀ r ∈ g.responses, (q, r) ∈ answered (past ++ [e]) := by
  obtain ⟨hSaid, hThere⟩ := h.own j q g hPhase
  refine ⟨(responsesBy_other past hOther).trans hSaid, fun r hr => ?_⟩
  rw [answered_snoc]
  exact List.mem_append_left _ (hThere r hr)

/-- At a moment of one worker, only what it is in itself has to be looked at. -/
theorem Tally.update {x : Option (Job × Reply)} (h : Tally φ past s) (hTurn : e.turn.worker? = some k)
    (hCounted : Counted (unanswered (Function.update φ k x)) (past ++ [e]) s')
    (hFollows : Follows (owing (Function.update φ k x)) (past ++ [e]) s')
    (hOwn : ∀ q g, x = some (.request q, g) →
      responsesBy k (past ++ [e]) = g.responses ∧ ∀ r ∈ g.responses, (q, r) ∈ answered (past ++ [e]))
    (hSent : ∀ job r o, x = some (job, .sent r o) → (k = .worker .defaultLane ∨ o = .nothing) ∧ ∃ q, job = .request q) :
    Tally (Function.update φ k x) (past ++ [e]) s' where
  counted := hCounted
  follows := hFollows
  own j q g hPhase := by
    by_cases hj : j = k
    · subst hj
      rw [Function.update_self] at hPhase
      exact hOwn q g hPhase
    · rw [Function.update_of_ne hj] at hPhase
      refine h.own_of_other hPhase fun hHere => hj ?_
      exact Option.some.inj (hHere.symm.trans hTurn)
  beside j job r o hPhase := by
    by_cases hj : j = k
    · subst hj
      rw [Function.update_self] at hPhase
      exact (hSent job r o hPhase).1
    · rw [Function.update_of_ne hj] at hPhase
      exact h.beside j job r o hPhase
  request j job r o hPhase := by
    by_cases hj : j = k
    · subst hj
      rw [Function.update_self] at hPhase
      exact (hSent job r o hPhase).2
    · rw [Function.update_of_ne hj] at hPhase
      exact h.request j job r o hPhase

theorem Tally.takes {r : Activity Unit} (h : Tally φ past s) (hFree : φ k = none) (hTakes : Takes k job s r s') :
    r.Passes ((answering told).phases k job) ((answering told).post k job) .due ∧
      Tally (Function.update φ k (some (job, .due))) (past ++ [⟨.takesUp k job, s, s'⟩]) s' := by
  have hNone : unanswered φ k = none := by rw [unanswered, hFree]
  -- What is taken up tells the client nothing yet.
  have hRest : (s'.outbox = s.outbox ∧ s'.initialized = s.initialized) →
      Counted (unanswered (Function.update φ k (some (job, .due)))) (past ++ [⟨.takesUp k job, s, s'⟩]) s' →
      Tally (Function.update φ k (some (job, .due))) (past ++ [⟨.takesUp k job, s, s'⟩]) s' := by
    rintro ⟨hOutbox, hSame⟩ hCounted
    refine h.update rfl hCounted ?_ ?_ (by simp)
    · rw [owing_update_same fun hk => by rw [owing, ← hk, hFree]]
      exact h.follows.silent hOutbox hSame rfl
    · rintro q g ⟨⟩
      exact ⟨responsesBy_takesUp .., by simp [Reply.responses]⟩
  have hRequest : ∀ q, job = .request q → unanswered (Function.update φ k (some (job, .due))) =
      Function.update (unanswered φ) k (some q) := by
    rintro q rfl
    rw [unanswered_update]
  have hOther : (∀ q, job ≠ .request q) → SameLanes s s' →
      Counted (unanswered (Function.update φ k (some (job, .due)))) (past ++ [⟨.takesUp k job, s, s'⟩]) s' := by
    intro hNot hLanes
    rw [unanswered_update_same (by rw [hNone]; cases job <;> first | rfl | exact absurd rfl (hNot _))]
    exact h.counted.silent hLanes rfl rfl
  have hOnLane : ∀ {name} {job : Activity Unit} {j : Job} {post : Unit → Reply → Prop}, job.Passes ((answering told).phases k j) post .due →
      (Worker.onLane name job).Passes ((answering told).phases k j) post .due :=
    fun hJob s _ => ⟨_, .aside (aside_keep _ _ s), hJob⟩
  cases hTakes with
  | event =>
    refine ⟨passes_beside (allows_beside _).onEvent .due, hRest ⟨rfl, rfl⟩ (hOther (by simp) ⟨fun _ => rfl, rfl, rfl⟩)⟩
  | job hJob hTake =>
    cases taken_of_take hJob hTake with
    | @default q rest hLane =>
      refine ⟨hOnLane (serve_answers q), hRest ⟨rfl, rfl⟩ ?_⟩
      rw [hRequest q rfl]
      refine h.counted.takes_first hNone rfl (by decide) hLane (fun y hy => ?_) ⟨rfl, rfl⟩ rfl rfl
      cases y <;> first | rfl | exact absurd rfl hy
    | @launcher j rest hLane =>
      cases j with
      | request q =>
        refine ⟨hOnLane (serve_answers q), hRest ⟨rfl, rfl⟩ ?_⟩
        rw [hRequest q rfl]
        refine h.counted.takes_first hNone rfl (by decide) (by simp [onRoute, hLane, LauncherJob.request?]) (fun y hy => ?_)
          ⟨rfl, rfl⟩ rfl rfl
        cases y <;> first | rfl | exact absurd rfl hy
      | run d announceThreads =>
        refine ⟨hOnLane (passes_beside (allows_beside _).runDebuggee .due), hRest ⟨rfl, rfl⟩ (hOther (by simp [LauncherJob.job]) ?_)⟩
        exact same_lanes_of_eq rfl (by rw [hLane]; exact (List.filterMap_cons_none rfl).symm) rfl rfl
    | @arrival n q hHere =>
      refine ⟨serve_answers q, hRest ⟨rfl, rfl⟩ ?_⟩
      rw [hRequest q rfl]
      exact h.counted.takes_arrival hNone hHere rfl rfl
    | @forwarder n r s' hOutput =>
      refine ⟨passes_beside ((allows_beside _).takeOutput hOutput) .due, hRest ?_ (hOther (by simp) (same_lanes_of_takeOutput hOutput))⟩
      unfold takeOutput at hOutput
      repeat' split at hOutput
      all_goals cases hOutput
      all_goals exact ⟨rfl, rfl⟩

/-- A step at which nothing is answered. -/
theorem Tally.goes_silent {asked : Option (Asked World)} (h : Tally φ past s) (hPhase : φ k = some (job, g))
    (hSaid : g'.responses = g.responses) (hLanes : SameLanes s s') (hNone : Dap.responses (added s.outbox s'.outbox) = [])
    (hFollows : Follows (owing (Function.update φ k (some (job, g')))) (past ++ [⟨.goesOn k job asked, s, s'⟩]) s')
    (hBeside : ∀ r o, g' = .sent r o → k = .worker .defaultLane ∨ o = .nothing) :
    Tally (Function.update φ k (some (job, g'))) (past ++ [⟨.goesOn k job asked, s, s'⟩]) s' := by
  have hAnswered : answeredAt ⟨.goesOn k job asked, s, s'⟩ = [] := answeredAt_of_none hNone
  refine h.update rfl ?_ hFollows ?_ ?_
  · rw [unanswered_update_same ?_]
    · exact h.counted.silent hLanes rfl hAnswered
    · rw [unanswered, hPhase]
      cases g <;> cases g' <;> first | rfl | (cases job <;> rfl) | cases hSaid
  · rintro q _ ⟨⟩
    rw [responsesBy_goesOn, hNone, List.append_nil, answered_snoc, hAnswered, List.append_nil, hSaid]
    exact h.own k q g hPhase
  · rintro _ r o ⟨⟩
    refine ⟨hBeside r o rfl, ?_⟩
    cases g with
    | due => cases hSaid
    | sent r' o' => exact h.request k job r' o' hPhase

theorem added_post (m : Dap.Outgoing) (s : Session) : added s.outbox (post m s).outbox = [m] := added_append ..

theorem Tally.responds {asked : Option (Asked World)} (h : Tally φ past s) (hPhase : φ k = some (.request q, .due))
    (result : Except Error (Option Json)) :
    Tally (Function.update φ k (some (.request q, .sent (.of q result) (owed q s.initialized (.of q result)))))
      (past ++ [⟨.goesOn k (.request q) asked, s, post (.response (.of q result)) s⟩])
      (post (.response (.of q result)) s) := by
  have hNew : Dap.responses (added s.outbox (post (.response (.of q result)) s).outbox) = [.of q result] := by
    rw [added_post]
    rfl
  have hAnswered : answeredAt ⟨.goesOn k (.request q) asked, s, post (.response (.of q result)) s⟩ = [(q, .of q result)] := by
    simp [answeredAt, hNew]
  have hDue : unanswered φ k = some q := by rw [unanswered, hPhase]
  have hRoute := h.counted.serves k q hDue
  have hBeside : k ≠ .worker .defaultLane → route q.command ≠ .default := fun hk hDefault =>
    hk (eq_of_route (k := .worker .defaultLane) rfl (hDefault ▸ hRoute) (by decide))
  refine h.update rfl ?_ ?_ ?_ ?_
  · rw [unanswered_update]
    exact h.counted.responds hDue ⟨fun x => by cases x <;> rfl, rfl, rfl⟩ rfl (by rw [hAnswered]; rfl)
  · by_cases hk : k = .worker .defaultLane
    · subst hk
      have hFollows := h.follows
      rw [owing, hPhase] at hFollows
      rw [owing, Function.update_self]
      exact hFollows.responds (Option.some.inj hRoute).symm result hAnswered
    · rw [owing_update_of_other hk]
      exact h.follows.responds_beside (hBeside hk) result hAnswered
  · rintro _ _ ⟨⟩
    rw [responsesBy_goesOn, (h.own k q .due hPhase).1, hNew, answered_snoc, hAnswered]
    exact ⟨rfl, fun r hr => by simp [List.mem_singleton.mp hr]⟩
  · rintro _ _ _ ⟨⟩
    refine ⟨?_, q, rfl⟩
    by_cases hk : k = .worker .defaultLane
    · exact .inl hk
    · exact .inr (owed_of_route (hBeside hk) ..)

theorem Tally.goes {asked : Option (Asked World)} (h : Tally φ past s) (hPhase : φ k = some (job, g))
    (hMoves : Answers job g s s' g') :
    Tally (Function.update φ k (some (job, g'))) (past ++ [⟨.goesOn k job asked, s, s'⟩]) s' := by
  cases hMoves with
  | aside hAside =>
    obtain ⟨new, hNew, hTold⟩ := hAside.sends
    have hOutside : ∀ m ∈ new, isOfDefaultLane m = false ∧ m.response? = none := fun m hm =>
      not_ofDefaultLane_of_leave (hTold m hm)
    have hNone : Dap.responses (added s.outbox s'.outbox) = [] := by
      rw [hNew, added_append]
      exact Dap.responses_eq_nil fun m hm => (hOutside m hm).2
    have hSame : Function.update φ k (some (job, g)) = φ := by rw [← hPhase, Function.update_eq_self]
    refine h.goes_silent hPhase rfl hAside.same_lanes hNone ?_ fun r o hg => h.beside k job r o (hg ▸ hPhase)
    rw [hSame]
    exact h.follows.sends hNew hOutside hAside.initialized (answeredAt_of_none hNone)
  | @responds q result _ hJob =>
    subst hJob
    exact h.responds hPhase result
  | @marks r wasTold =>
    obtain rfl : k = .worker .defaultLane := (h.beside k job r _ hPhase).resolve_right nofun
    have hNone : Dap.responses (added s.outbox s.outbox) = [] := by rw [added_self]; rfl
    have hFollows := h.follows
    rw [owing, hPhase] at hFollows
    refine h.goes_silent hPhase rfl (same_lanes_of_eq rfl rfl rfl rfl) hNone ?_ fun _ _ _ => .inl rfl
    rw [owing, Function.update_self]
    exact hFollows.marks (answeredAt_of_none hNone)
  | @tells r m =>
    obtain rfl : k = .worker .defaultLane := (h.beside k job r _ hPhase).resolve_right nofun
    have hFollows := h.follows
    rw [owing, hPhase] at hFollows
    have hNone : Dap.responses (added s.outbox (post m s).outbox) = [] := by
      rw [added_post]
      exact Dap.responses_eq_nil (by simp [(hFollows.message m rfl).2])
    refine h.goes_silent hPhase rfl (same_lanes_of_eq rfl rfl rfl rfl) hNone ?_ fun _ _ _ => .inl rfl
    rw [owing, Function.update_self]
    exact hFollows.tells (answeredAt_of_none hNone)

theorem Tally.done (h : Tally φ past s) (hPhase : φ k = some (job, g)) (hPost : (answering told).post k job () g) :
    Tally (Function.update φ k none) (past ++ [⟨.isDone k job, s, s⟩]) s := by
  refine h.update rfl ?_ ?_ (by simp) (by simp)
  · rw [unanswered_update_same ?_]
    · exact h.counted.silent ⟨fun _ => rfl, rfl, rfl⟩ rfl rfl
    · rw [unanswered, hPhase]
      cases job with
      | request q =>
        obtain ⟨r, rfl⟩ := hPost
        rfl
      | _ => rfl
  · rw [owing_update_same fun hk => ?_]
    · exact h.follows.silent rfl rfl rfl
    · rw [owing, ← hk, hPhase]
      cases job with
      | request q =>
        obtain ⟨r, rfl⟩ := hPost
        rfl
      | _ =>
        obtain rfl : g = .due := hPost
        rfl

theorem Tally.outside (h : Tally φ past s) (hOutside : Outside s s') : Tally φ (past ++ [⟨.outside, s, s'⟩]) s' := by
  have hOwn : ∀ k q g, φ k = some (.request q, g) → responsesBy k (past ++ [⟨.outside, s, s'⟩]) = g.responses ∧
      ∀ r ∈ g.responses, (q, r) ∈ answered (past ++ [⟨.outside, s, s'⟩]) := fun k q g hPhase =>
    h.own_of_other hPhase nofun
  have hSilent : ∀ {book : BreakpointBook} {streams : List (Nat × OutputStream)} {nextStream : Nat},
      queued s { s with book, streams, nextStream } = [] := queued_of_same rfl rfl rfl
  cases hOutside with
  | dispatch q =>
    refine ⟨h.counted.comes q, h.follows.silent ?_ ?_ rfl, hOwn, h.beside, h.request⟩
    · rw [dispatch_eq]
      cases route q.command <;> rfl
    · rw [dispatch_eq]
      cases route q.command <;> rfl
  | book book =>
    exact ⟨h.counted.silent (same_lanes_of_eq rfl rfl rfl rfl) hSilent rfl, h.follows.silent rfl rfl rfl, hOwn, h.beside,
      h.request⟩
  | streams streams nextStream =>
    exact ⟨h.counted.silent (same_lanes_of_eq rfl rfl rfl rfl) hSilent rfl, h.follows.silent rfl rfl rfl, hOwn, h.beside,
      h.request⟩

theorem answering_keeps (told : (c : Call) → Answer c → Prop) : (answering told).Keeps (fun _ _ => True) Tally where
  keep _ _ := rfl
  answered _ _ _ _ _ _ _ := trivial
  fits {φ past s k job g} h hPhase := by
    rintro r wasTold rfl
    obtain rfl : k = .worker .defaultLane := (h.beside k job r _ hPhase).resolve_right nofun
    refine h.follows.mark wasTold ?_
    rw [owing, hPhase]
  takes h hFree hTakes _ := ⟨.due, h.takes hFree hTakes⟩
  goes h hPhase hMoves _ := h.goes hPhase hMoves
  done h hPhase hPost := h.done hPhase hPost
  outside h hOutside _ := h.outside hOutside

theorem tally_fresh (journal : Option Log.Journal) : Tally (fun _ => none) [] { journal } where
  counted :=
    { once := by simp
      numbers := by simp
      routed := by rintro (_ | _ | _) q hq <;> simp [onRoute] at hq
      serves := by simp [unanswered]
      account := ⟨[], by simp, by simp [unanswered], by simp [dispatched, served, answered, waiting, onRoute]⟩
      default := rfl
      launcher := rfl }
  follows := ⟨rfl, by simp [answered], rfl, rfl, nofun, nofun, fun h => absurd rfl h⟩
  own := by simp
  beside := by simp
  request := by simp

/-! ## Runs -/

section Runs

variable {s : Scene Hand Job Session World Unit fun _ => Unit}

theorem Comes.tally (h : Comes told journal past s) :
    ∃ φ, (∀ k, (answering told).Plays φ s k) ∧ Tally φ past s.state :=
  h.by_rule.plays_roles (answering_keeps told) (fun _ => id) (fun _ => rfl) (tally_fresh journal)

/-- Something is owed only by a worker that is still at what it has answered. -/
theorem isFollowing_of_owing {φ : Casting Hand Job Reply} (hPlays : ∀ k, (answering told).Plays φ s k)
    (hTally : Tally φ past s.state) (hOwing : owing φ ≠ .nothing) : IsFollowing past s := by
  rw [owing] at hOwing
  split at hOwing
  · next job r o hPhase =>
    obtain ⟨q, rfl⟩ := hTally.request _ job r o hPhase
    obtain ⟨routine, hBusy, hPasses⟩ := (hPlays (.worker .defaultLane)).at_job hPhase
    refine ⟨q, routine, hBusy, ?_, by simp [(hTally.own _ q _ hPhase).1, Reply.responses]⟩
    rintro x rfl
    obtain ⟨r', hEnd⟩ : ∃ r', Reply.sent r o = .sent r' .nothing := hPasses
    cases hEnd
    exact hOwing rfl
  · exact absurd rfl hOwing

theorem InLine.prefix {x : Route} {k : Hand} {u : Hand → Option Dap.Request} {s : Session} (h : InLine x k u past s) :
    (served past).filter (goesTo x) <+: (dispatched past).filter (goesTo x) := by
  rw [h, List.append_assoc]
  exact List.prefix_append ..

/-- Who is at a request that it has not answered. -/
theorem unanswered_iff {φ : Casting Hand Job Reply} (hPlays : ∀ k, (answering told).Plays φ s k) (hTally : Tally φ past s.state)
    {k : Hand} {q : Dap.Request} :
    unanswered φ k = some q ↔ (∃ r, s.busy k = some (.request q, r)) ∧ responsesBy k past = [] := by
  constructor
  · intro hDue
    have hPhase : φ k = some (.request q, .due) := by
      rw [unanswered] at hDue
      split at hDue
      · next hPhase => rw [hPhase, Option.some.inj hDue]
      · cases hDue
    obtain ⟨r, hBusy, -⟩ := (hPlays k).at_job hPhase
    exact ⟨⟨r, hBusy⟩, (hTally.own k q _ hPhase).1⟩
  · rintro ⟨⟨r, hBusy⟩, hNone⟩
    obtain ⟨g, hPhase, -⟩ := (hPlays k).busy hBusy
    have hSaid := (hTally.own k q g hPhase).1
    cases g with
    | due => rw [unanswered, hPhase]
    | sent r o => simp [hNone, Reply.responses] at hSaid

/-- Whatever requests come, and however the workers come in between each other, requests and responses match. -/
theorem matched (h : Comes told journal past s) : Matched past s := by
  obtain ⟨φ, hPlays, hTally⟩ := h.tally
  have hFollows := hTally.follows
  have hTalk : s.state.outbox.filter isOfDefaultLane = transcript false (onDefault past) ∨
      IsFollowing past s ∧ ∃ xs x, onDefault past = xs ++ [x] ∧
        s.state.outbox.filter isOfDefaultLane = transcript false xs ++ [.response x.2] := by
    by_cases hOwing : owing φ = .nothing
    · have hAll := hFollows.talk
      rw [hOwing, Owed.messages, List.append_nil] at hAll
      exact .inl hAll
    · exact .inr ⟨isFollowing_of_owing hPlays hTally hOwing, hFollows.last hOwing⟩
  refine ⟨hFollows.responses, hFollows.carries, ?_, ?_, ?_, hTalk, ?_, ?_⟩
  · obtain ⟨atWork, hOnce, hMem, hPerm⟩ := hTally.counted.account
    exact ⟨atWork, hOnce, fun k q => (hMem k q).trans (unanswered_iff hPlays hTally), hPerm⟩
  · rintro before ⟨turn, b, a⟩ after k q rfl rfl
    obtain ⟨m, m', hBefore, hMoment, -⟩ := Setting.Leads.around h
    obtain ⟨φ', hPlays', hTally'⟩ := Comes.tally hBefore
    cases hMoment with
    | isDone hBusy =>
      obtain ⟨g, hPhase, r, rfl⟩ := (hPlays' k).busy hBusy
      obtain ⟨hSaid, hThere⟩ := hTally'.own k q _ hPhase
      obtain ⟨result, hResult⟩ := hTally'.follows.carries (q, r) (hThere r (by simp [Reply.responses]))
      obtain rfl : r = .of q result := hResult
      refine ⟨result, hSaid, ?_⟩
      rw [answered, List.flatMap_append]
      exact List.mem_append_left _ (hThere _ (by simp [Reply.responses]))
  · intro x hLane
    cases x with
    | default => exact hTally.counted.default.prefix
    | launcher => exact hTally.counted.launcher.prefix
    | arrival => exact absurd rfl hLane
  · have hCount := count_initialized_transcript false (onDefault past)
    rw [← hFollows.talk, List.filter_append, List.length_append, List.filter_filter] at hCount
    have hSame : s.state.outbox.filter (fun m => m.isInitialized && isOfDefaultLane m) =
        s.state.outbox.filter (·.isInitialized) := by
      refine List.filter_congr fun m _ => ?_
      cases m with
      | response r => rfl
      | event e => simp +contextual [isOfDefaultLane_of_event (m := .event e) rfl]
    rw [hSame] at hCount
    simp at hCount
    omega
  · intro x hx hReady
    rcases hTalk with hAll | ⟨hFollowing, xs, y, hLast, hBut⟩
    · left
      have hThere := initialized_mem_transcript (List.any_eq_true.mpr ⟨x, hx, hReady⟩)
      exact List.mem_of_mem_filter (hAll ▸ hThere)
    · rw [hLast] at hx ⊢
      rcases List.mem_append.mp hx with hx | hx
      · left
        have hThere := initialized_mem_transcript (List.any_eq_true.mpr ⟨x, hx, hReady⟩)
        exact List.mem_of_mem_filter (hBut ▸ List.mem_append_left _ hThere)
      · exact .inr ⟨hFollowing, by rw [List.getLast?_concat, List.mem_singleton.mp hx]⟩

/-! All three routes at once: while a debuggee is attached to, the client initializes the session twice and waits for the
end of the configuration, and then it pauses a thread. -/

def willing : (c : Call) → Option (Answer c)
  | .files => some (.folder [])
  | .attach .. => some (.ok 7)
  | .drive _ .threads => some (.ok [])
  | .drive _ (.pause _) => some (.ok ())
  | .drive _ .resumeAll => some (.ok ())
  | _ => none

def initializeRequest (seq : Int) : Dap.Request := ⟨seq, "initialize", none⟩
def pauseRequest : Dap.Request := ⟨5, "pause", some (.obj [("threadId", .int 1)])⟩

def threeRoutes : List (Cue Hand (Option DebugEvent) Dap.Request) :=
  [.outside attachRequest, .outside (initializeRequest 2), .outside configurationDoneRequest, .outside (initializeRequest 4)] ++
    works .launcherLane 5 ++ works .defaultLane 5 ++ works (.arrival 0) 2 ++
    List.replicate 6 (.goesOn (.worker .launcherLane)) ++ [.isDone (.worker .launcherLane)] ++
    List.replicate 2 (.goesOn (.worker .defaultLane)) ++ [.isDone (.worker .defaultLane), .outside pauseRequest] ++
    works .defaultLane 6 ++ [.isDone (.worker .defaultLane)] ++ works .launcherLane 7 ++ works .defaultLane 6 ++
    [.isDone (.worker .defaultLane)] ++ List.replicate 2 (.goesOn (.worker (.arrival 0))) ++ [.isDone (.worker (.arrival 0))]

/-- What a message is about, and the request that it answers. -/
def gist : Dap.Outgoing → String × Option Int
  | .response r => (r.command, some r.requestSeq)
  | .event e => (e.event, none)

theorem matched_of_threeRoutes : ∃ past s, Comes (fun c a => willing c = some a) none past s ∧ Matched past s ∧
    (dispatched past).map (·.seq) = [1, 2, 3, 4, 5] ∧
    s.state.outbox.map gist = [("initialize", some 2), ("attach", some 1), ("initialized", none), ("initialize", some 4),
      ("pause", some 5), ("stopped", none), ("configurationDone", some 3)] := by
  obtain ⟨past, s, hComes, hCheck⟩ := (script willing fun _ _ => id).leads_of_check threeRoutes (fresh none)
    (fun past s => decide ((dispatched past).map (·.seq) = [1, 2, 3, 4, 5] ∧
      s.state.outbox.map gist = [("initialize", some 2), ("attach", some 1), ("initialized", none), ("initialize", some 4),
        ("pause", some 5), ("stopped", none), ("configurationDone", some 3)])) (by decide +kernel)
  obtain ⟨hDispatched, hTold⟩ := of_decide_eq_true hCheck
  exact ⟨past, s, hComes, matched hComes, hDispatched, hTold⟩

end Runs

end JvmDebug.Session
