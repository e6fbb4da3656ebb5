import JvmDebug.Proofs.Routine.Roles
import JvmDebug.Proofs.Session.Leave
import JvmDebug.Proofs.Session.Scene

/-!
# How a request is answered

A request is answered once, and what the client is told after a success follows its response. Here is which messages
belong to the requests of the default lane, in which order they are to come, and that each request that is served passes
through the phases that lead to them.
-/

namespace JvmDebug
set_option autoImplicit false

/-! ## Messages -/

namespace Dap.Outgoing

def response? : Outgoing → Option Response
  | response r => some r
  | event _ => none

/-- Whether the client is told that the session is ready. -/
def isInitialized : Outgoing → Bool
  | response _ => false
  | event e => e.event == "initialized"

/-- Whether the client is told that a thread has been paused. -/
def isPause : Outgoing → Bool
  | response _ => false
  | event e => e.event == "stopped" && (e.body.bind (Json.textAt? "reason")) == some "pause"

theorem isInitialized_of (name : String) (body : Json) : isInitialized (.event (.of name body)) = (name == "initialized") := by
  cases body <;> rfl

theorem isInitialized_stopped (reason : String) (thread : Int) : (stopped reason thread).isInitialized = false :=
  isInitialized_of ..

theorem isPause_of_other {name : String} (h : name ≠ "stopped") (body : Json) : isPause (.event (.of name body)) = false := by
  cases body <;> simp [isPause, Event.of, h]

theorem isPause_stopped (reason : String) (thread : Int) : (stopped reason thread).isPause = (reason == "pause") := by
  have hEvent : ∀ fields, Event.of "stopped" (Json.object fields) = ⟨"stopped", some (Json.object fields)⟩ := fun _ => rfl
  have hReason : (Json.object [("reason", .str reason), ("threadId", .int thread), ("allThreadsStopped", .bool false)]).textAt?
      "reason" = some reason := by
    simp [Json.textAt?, Json.get?_object]
  simp only [stopped, isPause, hEvent, Option.bind_some, hReason]
  simp

end Dap.Outgoing

namespace Session

/-- The messages that belong to the requests of the default lane: their responses, and what follows them. -/
def isOfDefaultLane : Dap.Outgoing → Bool
  | .response r => route r.command = .default
  | m => m.isInitialized || m.isPause

theorem isOfDefaultLane_of_event {m : Dap.Outgoing} (h : m.response? = none) :
    isOfDefaultLane m = (m.isInitialized || m.isPause) := by
  cases m with
  | response r => cases h
  | event e => rfl

/-- What a job tells the client beside answering belongs to no request. -/
theorem not_ofDefaultLane_of_leave {job : Job} {m : Dap.Outgoing} (h : isConsole m ∨ job.leave.tells m) :
    isOfDefaultLane m = false ∧ m.response? = none := by
  have hEvent : ∀ {name body}, name ≠ "initialized" → name ≠ "stopped" →
      isOfDefaultLane (.event (.of name body)) = false ∧ (Dap.Outgoing.event (.of name body)).response? = none := by
    intro name body hInitialized hStopped
    refine ⟨?_, rfl⟩
    rw [isOfDefaultLane_of_event rfl, Dap.Outgoing.isInitialized_of, Dap.Outgoing.isPause_of_other hStopped]
    simpa using hInitialized
  have hStopped : ∀ {reason t}, reason ≠ "pause" →
      isOfDefaultLane (.stopped reason t) = false ∧ (Dap.Outgoing.stopped reason t).response? = none := by
    intro reason t hReason
    refine ⟨?_, rfl⟩
    rw [isOfDefaultLane_of_event rfl, Dap.Outgoing.isInitialized_stopped, Dap.Outgoing.isPause_stopped]
    simpa using hReason
  rcases h with ⟨text, rfl⟩ | h
  · exact hEvent (by decide) (by decide)
  · cases job with
    | request q => exact h.elim
    | run d announceThreads =>
      obtain ⟨t, rfl⟩ := h
      exact hEvent (by decide) (by decide)
    | forward n =>
      obtain ⟨category, line, rfl⟩ := h
      exact hEvent (by decide) (by decide)
    | event e =>
      cases e with
      | breakpointHit t =>
        obtain rfl : m = _ := h
        exact hStopped (by decide)
      | step t =>
        obtain rfl : m = _ := h
        exact hStopped (by decide)
      | exceptionThrown t x =>
        obtain rfl : m = _ := h
        exact hStopped (by decide)
      | threadChanged t c =>
        cases c <;> obtain rfl : m = _ := h <;> exact hEvent (by decide) (by decide)
      | breakpointResolved id line =>
        obtain ⟨n, b, -, rfl⟩ := h
        exact hEvent (by decide) (by decide)
      | exited code => rcases h with rfl | rfl <;> exact hEvent (by decide) (by decide)

/-! ## What follows a response -/

/-- What the client is still to be told after a response. Whether it is told that the session is ready depends on
whether it has been `told` before. -/
inductive Owed where
  | nothing
  | mark (told : Bool)
  | message (m : Dap.Outgoing)

def Owed.messages : Owed → List Dap.Outgoing
  | nothing => []
  | mark told => if told then [] else [.initialized]
  | message m => [m]

def Owed.isMark : Owed → Bool
  | mark _ => true
  | _ => false

def owed (q : Dap.Request) (told : Bool) (r : Dap.Response) : Owed :=
  if r.success then
    match q.command with
    | "initialize" => .mark told
    | "pause" =>
      match q.argumentsAs Dap.threadArgument with
      | .ok thread => .message (.stopped "pause" (threadToClient (threadFromClient thread)))
      | .error _ => .nothing
    | _ => .nothing
  else .nothing

/-- Whether a request has been answered in a way that makes the session ready. -/
def initializes (x : Dap.Request × Dap.Response) : Bool := x.2.success && x.1.command == "initialize"

/-- What the client is told of requests that are answered one after the other. -/
def transcript : Bool → List (Dap.Request × Dap.Response) → List Dap.Outgoing
  | _, [] => []
  | told, x :: rest => .response x.2 :: ((owed x.1 told x.2).messages ++ transcript (told || initializes x) rest)

theorem transcript_snoc (told : Bool) (xs : List (Dap.Request × Dap.Response)) (x : Dap.Request × Dap.Response) :
    transcript told (xs ++ [x]) =
      transcript told xs ++ .response x.2 :: (owed x.1 (told || xs.any initializes) x.2).messages := by
  induction xs generalizing told with
  | nil => simp [transcript]
  | cons y rest ih => simp [transcript, ih, Bool.or_assoc]

theorem owed_eq_mark {q : Dap.Request} {r : Dap.Response} (h : q.command = "initialize") (hOk : r.success = true)
    (told : Bool) : owed q told r = .mark told := by
  rw [owed, if_pos hOk, h]
  rfl

theorem owed_of_other {q : Dap.Request} (hInitialize : q.command ≠ "initialize") (hPause : q.command ≠ "pause") (told : Bool)
    (r : Dap.Response) : owed q told r = .nothing := by
  unfold owed
  split
  · split
    · next h => exact absurd h hInitialize
    · next h => exact absurd h hPause
    · rfl
  · rfl

theorem owed_pause {q : Dap.Request} {r : Dap.Response} (h : q.command = "pause") (hOk : r.success = true) (told : Bool) :
    owed q told r =
      match q.argumentsAs Dap.threadArgument with
      | .ok thread => .message (.stopped "pause" (threadToClient (threadFromClient thread)))
      | .error _ => .nothing := by
  rw [owed, if_pos hOk, h]
  rfl

theorem isMark_owed (q : Dap.Request) (told : Bool) (r : Dap.Response) : (owed q told r).isMark = initializes (q, r) := by
  by_cases hOk : r.success = true
  · by_cases hInitialize : q.command = "initialize"
    · simp [owed_eq_mark hInitialize hOk, initializes, hOk, hInitialize, Owed.isMark]
    · have hNot : (owed q told r).isMark = false := by
        by_cases hPause : q.command = "pause"
        · rw [owed_pause hPause hOk]
          split <;> rfl
        · rw [owed_of_other hInitialize hPause]
          rfl
      simp [hNot, initializes, hInitialize]
  · rw [owed, if_neg hOk]
    simp [initializes, hOk, Owed.isMark]

theorem told_of_owed_mark {q : Dap.Request} {told told' : Bool} {r : Dap.Response} (h : owed q told r = .mark told') :
    told = told' := by
  unfold owed at h
  repeat' split at h
  all_goals cases h
  rfl

theorem isOfDefaultLane_of_owed {q : Dap.Request} {told : Bool} {r : Dap.Response} {m : Dap.Outgoing}
    (h : owed q told r = .message m) : isOfDefaultLane m = true ∧ m.response? = none := by
  unfold owed at h
  repeat' split at h
  all_goals cases h
  refine ⟨?_, rfl⟩
  rw [isOfDefaultLane_of_event rfl, Dap.Outgoing.isPause_stopped]
  simp

/-- Nothing follows the responses of requests beside the default lane. -/
theorem owed_of_route {q : Dap.Request} (h : route q.command ≠ .default) (told : Bool) (r : Dap.Response) :
    owed q told r = .nothing := by
  apply owed_of_other
  · intro hCommand
    exact h (by rw [hCommand]; decide)
  · intro hCommand
    exact h (by rw [hCommand]; decide)

/-- The client is told that the session is ready if some request has made it so. -/
theorem initialized_mem_transcript {xs : List (Dap.Request × Dap.Response)} (h : xs.any initializes = true) :
    Dap.Outgoing.initialized ∈ transcript false xs := by
  induction xs with
  | nil => cases h
  | cons x rest ih =>
    rw [transcript]
    cases hFirst : initializes x with
    | true =>
      have hMark : (owed x.1 false x.2).isMark = true := (isMark_owed ..).trans hFirst
      have hOwed : Dap.Outgoing.initialized ∈ (owed x.1 false x.2).messages := by
        generalize hx : owed x.1 false x.2 = o at hMark
        cases o with
        | mark told =>
          obtain rfl := told_of_owed_mark hx
          simp [Owed.messages]
        | _ => cases hMark
      simp [hOwed]
    | false =>
      have hRest := ih (by simpa [hFirst] using h)
      simp [hRest]

/-- The client is told once, and not again if it has been told before. -/
theorem count_initialized_transcript (told : Bool) (xs : List (Dap.Request × Dap.Response)) :
    ((transcript told xs).filter (·.isInitialized)).length ≤ if told then 0 else 1 := by
  induction xs generalizing told with
  | nil => simp [transcript]
  | cons x rest ih =>
    have hRest := ih (told || initializes x)
    have hOwed : ((owed x.1 told x.2).messages.filter (·.isInitialized)).length ≤
        if told then 0 else if initializes x then 1 else 0 := by
      have hMark := isMark_owed x.1 told x.2
      generalize hx : owed x.1 told x.2 = o at hMark
      cases o with
      | nothing => simp [Owed.messages]
      | mark told' =>
        obtain rfl := told_of_owed_mark hx
        cases told <;> simp [Owed.messages, ← hMark, Owed.isMark]
        exact List.length_filter_le ..
      | message m =>
        have hStopped : ∃ t, m = .stopped "pause" t := by
          unfold owed at hx
          repeat' split at hx
          all_goals cases hx
          exact ⟨_, rfl⟩
        obtain ⟨t, rfl⟩ := hStopped
        simp [Owed.messages, Dap.Outgoing.isInitialized_stopped]
    rw [transcript, List.filter_cons_of_neg (by simp [Dap.Outgoing.isInitialized]), List.filter_append, List.length_append]
    refine Nat.le_trans (Nat.add_le_add hOwed hRest) ?_
    cases told <;> cases initializes x <;> simp

/-! ## Phases -/

/-- The response to a request is due, or it has been sent, and something may be owed still. -/
inductive Reply where
  | due
  | sent (r : Dap.Response) (o : Owed)

def Reply.responses : Reply → List Dap.Response
  | due => []
  | sent r _ => [r]

inductive Answers (job : Job) : Reply → Session → Session → Reply → Prop where
  | aside {g : Reply} {s s' : Session} : Aside job.leave s s' → Answers job g s s' g
  | responds {q : Dap.Request} (result : Except Error (Option Json)) (s : Session) : job = .request q →
      Answers job .due s (post (.response (.of q result)) s)
        (.sent (.of q result) (owed q s.initialized (.of q result)))
  | marks {r : Dap.Response} {told : Bool} (s : Session) : Answers job (.sent r (.mark told)) s { s with initialized := true }
      (.sent r (if told then .nothing else .message .initialized))
  | tells {r : Dap.Response} (m : Dap.Outgoing) (s : Session) : Answers job (.sent r (.message m)) s (post m s) (.sent r .nothing)

def answering (told : (c : Call) → Answer c → Prop) : Roles (setting told) Reply where
  phases _ job :=
    { fits := fun g s => ∀ r told, g = .sent r (.mark told) → s.initialized = told
      moves := fun g _ s s' g' => Answers job g s s' g'
      answered := fun _ _ => True
      keep := keep }
  post _ job _ g :=
    match job with
    | .request _ => ∃ r, g = .sent r .nothing
    | _ => g = .due

variable {told : (c : Call) → Answer c → Prop} {k : Hand} {job : Job} {α : Type}

theorem passes_beside {r : Activity α} (h : r.Within (beside job) fun _ => True) (g : Reply) :
    r.Passes ((answering told).phases k job) (fun _ g' => g' = g) g := by
  refine h.passes_in rfl (fun _ _ => trivial) ?_ ?_ rfl
  · rintro _ s s' rfl - hAside
    exact ⟨_, .aside hAside, rfl⟩
  · rintro _ s c a rfl - - -
    exact ⟨_, .aside (aside_refl _ s), rfl⟩

theorem follow_passes (q : Dap.Request) (wasTold : Bool) (body : Option Json) :
    (follow q).Passes ((answering told).phases k (.request q)) (fun _ g => ∃ r, g = .sent r .nothing)
      (.sent (.of q (.ok body)) (owed q wasTold (.of q (.ok body)))) := by
  have hOk : (Dap.Response.of q (.ok body)).success = true := rfl
  unfold follow
  split
  · next hCommand =>
    rw [owed_eq_mark hCommand hOk]
    intro s hFits
    obtain rfl := hFits _ _ rfl
    refine ⟨_, .marks s, ?_⟩
    change Routine.Passes _ _ (if s.initialized then pure () else send .initialized) _
    cases s.initialized with
    | true => exact ⟨_, rfl⟩
    | false => exact fun s _ => ⟨_, .tells .initialized s, _, rfl⟩
  · next hCommand =>
    rw [owed_pause hCommand hOk]
    cases q.argumentsAs Dap.threadArgument with
    | ok thread => exact fun s _ => ⟨_, .tells _ s, _, rfl⟩
    | error e => exact ⟨_, rfl⟩
  · next hInitialize hPause =>
    rw [owed_of_other hInitialize hPause]
    exact ⟨_, rfl⟩

/-- A request that is served is answered, and what follows the response is told, before the worker is done with it. -/
theorem serve_answers (q : Dap.Request) :
    (serve q).Passes ((answering told).phases k (.request q)) (fun _ g => ∃ r, g = .sent r .nothing) .due := by
  have hSend : ∀ result, ∀ next : Activity Unit,
      (∀ wasTold, next.Passes ((answering told).phases k (.request q)) (fun _ g => ∃ r, g = .sent r .nothing)
        (.sent (.of q result) (owed q wasTold (.of q result)))) →
      (send (.response (.of q result)) >>= fun _ => next).Passes ((answering told).phases k (.request q))
        (fun _ g => ∃ r, g = .sent r .nothing) .due := by
    intro result next hNext s _
    exact ⟨_, .responds result s rfl, hNext s.initialized⟩
  refine Routine.Passes.bind ((passes_beside (allows_beside _).answer .due).mono ?_)
  rintro result _ rfl
  cases result with
  | ok body => exact hSend (.ok body) (follow q) fun wasTold => follow_passes q wasTold body
  | error e =>
    refine fun s _ => ⟨_, .aside (aside_keep _ _ s), hSend (.error e) (pure ()) fun wasTold => ?_⟩
    exact ⟨_, by rw [owed, if_neg (by simp [Dap.Response.of])]⟩

end Session
end JvmDebug
