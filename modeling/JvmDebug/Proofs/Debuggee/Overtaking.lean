import JvmDebug.Proofs.Debuggee.Outstanding
import JvmDebug.Proofs.Debuggee.Withdrawing

/-!
# Steps that are overtaken

The pump withdraws whatever step is remembered for the thread whose step has ended; it does not look at the request that
the event belongs to. That is the same request, unless a later step of the thread has withdrawn it in the meantime.
-/

namespace JvmDebug.Debuggee
set_option autoImplicit false

open Jdwp (ThreadId RequestId EventSet)

variable {past : List (Moment Actor Task Debuggee World)} {d : Debuggee} {e : Moment Actor Task Debuggee World}
  {now next : Scene Actor Task Debuggee World (List StepRequest) Outcome} {x y : StepRequest} {k : Actor} {task : Task}

/-! ## What a run tells of a request -/

/-- The machine has given a number to a step request of a thread. -/
def Given (x : StepRequest) (past : List (Moment Actor Task Debuggee World)) : Prop :=
  ∃ e ∈ past, ∃ k task kind id,
    e.turn = .goesOn k task (some ⟨.command (setStep x.1 kind), .ok ⟨id, 0, Jdwp.Layout.i32 x.2⟩⟩)

/-- The machine was asked to withdraw the step request with a number. -/
def Withdrawn (request : RequestId) (past : List (Moment Actor Task Debuggee World)) : Prop :=
  ∃ e ∈ past, ∃ k task a, e.turn = .goesOn k task (some ⟨.command (dropStep request), a⟩)

/-- The machine tells the ends of steps only for requests that it was given before. -/
def Honest (past : List (Moment Actor Task Debuggee World)) : Prop :=
  ∀ before e since s, past = before ++ e :: since → e.turn = .takesUp .pump (.handles s) →
    ∀ x ∈ s.events, ∀ thread l, x.happening = .step thread l → Given (thread, x.request) before

theorem Given.later (h : Given x past) (since : List (Moment Actor Task Debuggee World)) : Given x (past ++ since) := by
  obtain ⟨e, he, hRest⟩ := h
  exact ⟨e, List.mem_append_left _ he, hRest⟩

theorem Withdrawn.later {request : RequestId} (h : Withdrawn request past)
    (since : List (Moment Actor Task Debuggee World)) : Withdrawn request (past ++ since) := by
  obtain ⟨e, he, hRest⟩ := h
  exact ⟨e, List.mem_append_left _ he, hRest⟩

/-- The machine loses a request only by a command to clear it. -/
theorem Obeys.dropped {held held' : List StepRequest} {c : Call} {a : Answer c} (h : Obeys held c a held') (hx : x ∈ held)
    (hGone : x ∉ held') : c = .command (dropStep x.2) := by
  have hCleared : ∀ request, x ∉ held.filter (·.2 ≠ request) → request = x.2 := by
    intro request hNot
    by_contra hNe
    exact hNot (List.mem_filter.mpr ⟨hx, by simpa using Ne.symm hNe⟩)
  cases h with
  | accepts hAccepts =>
    cases hAccepts with
    | sets => exact (hGone (List.mem_cons_of_mem _ hx)).elim
    | drops => rw [hCleared _ hGone]
    | _ => exact (hGone hx).elim
  | refuses => exact (hGone hx).elim
  | isGone => rw [hCleared _ hGone]

theorem happens_dropped (h : contending.Happens now e next) (hx : x ∈ now.world) (hGone : x ∉ next.world) :
    ∃ k task a rest, e.turn = .goesOn k task (some ⟨.command (dropStep x.2), a⟩) ∧
      now.busy k = some (task, .call (.command (dropStep x.2)) rest) := by
  cases h with
  | takesUp | isDone => exact (hGone hx).elim
  | outside hOutside =>
    obtain ⟨-, rfl⟩ := hOutside
    exact (hGone hx).elim
  | @goesOn k task r _ _ _ _ hBusy hStep =>
    cases hStep with
    | call rest _ hObeys =>
      obtain rfl := Obeys.dropped hObeys hx hGone
      exact ⟨k, task, _, rest, rfl, hBusy⟩
    | _ => exact (hGone hx).elim

/-- What the machine has given a number to, it holds until it is withdrawn. -/
theorem held_or_withdrawn {start : Scene Actor Task Debuggee World (List StepRequest) Outcome}
    (hLeads : contending.Leads start past now) (hGiven : Given x past) : x ∈ now.world ∨ Withdrawn x.2 past := by
  induction hLeads with
  | nil =>
    obtain ⟨_, he, -⟩ := hGiven
    cases he
  | @snoc past e s s' _ hHappens ih =>
    obtain ⟨e', he', k, task, kind, id, hTurn⟩ := hGiven
    by_cases hHeld : x ∈ s'.world
    · exact .inl hHeld
    right
    rcases List.mem_append.mp he' with hOld | hNew
    · rcases ih ⟨e', hOld, k, task, kind, id, hTurn⟩ with hBefore | hWithdrawn
      · obtain ⟨k, task, a, _, hDrop, -⟩ := happens_dropped hHappens hBefore hHeld
        exact ⟨e, by simp, k, task, a, hDrop⟩
      · exact hWithdrawn.later _
    · obtain rfl := List.mem_singleton.mp hNew
      -- The request that was just made is held.
      cases hHappens with
      | goesOn _ hStep =>
        cases hTurn
        cases hStep with
        | call _ _ hObeys =>
          obtain ⟨rfl, -⟩ := Obeys.numbered hObeys
          exact (hHeld List.mem_cons_self).elim
      | _ => cases hTurn

/-- Only a command changes what the machine holds. -/
theorem world_of_silent (h : contending.Happens now e next) (hTurn : e.turn = .goesOn k task none) :
    next.world = now.world := by
  cases h with
  | goesOn _ hStep =>
    cases hTurn
    exact Setting.replied_of_step hStep
  | _ => cases hTurn

/-- Two requests of a thread that has not died are held only while the pump withdraws one of them. -/
theorem withdraws_of_two (hLeads : contending.Leads (.idle d []) past now) (hNone : d.pendingSteps = [])
    (hx : x ∈ now.world) (hy : y ∈ now.world) (hThread : y.1 = x.1) (hNe : x ≠ y) (hAlive : ¬Died x.1 past) :
    Withdraws x now ∨ Withdraws y now := by
  obtain ⟨φ, hPlays, hAccount⟩ := Stepping.accounted hLeads hNone
  rcases hAccount.dropped_of_two hAlive hx hy hThread hNe with hHand | hHand
  · exact .inl (withdraws_of_plays (hPlays .pump) hHand hx)
  · exact .inr (withdraws_of_plays (hPlays .pump) hHand hy)

/-- A pump that does not ask for anything does not withdraw anything. -/
theorem not_withdraws_of_silent (h : contending.Happens now e next) (hTurn : e.turn = .goesOn .pump task none) :
    ¬Withdraws x now := by
  rintro ⟨-, task', rest, hBusy⟩
  obtain ⟨asked, r, state, world, hStep, rfl, -⟩ := h.step (k := .pump) (by rw [hTurn]; rfl) hBusy nofun
  cases hTurn
  cases hStep

/-! ## Whoever withdraws a request -/

namespace Stepping

variable {φ : Actor → StepPhase} {request : RequestId} {rest : Answer (.command (dropStep request)) → Activity (Outcome k)}

theorem drops_of_moves {g g' : StepPhase} {d d' : Debuggee} {asked : Option (Asked World)}
    {a : Answer (.command (dropStep request))}
    (hMoves : StepPhase.Moves k g asked d d' g') (hAsked : asked = some ⟨.command (dropStep request), a⟩)
    (hNot : ¬Spares (.command (dropStep request)) a) : ∃ x, g.hand = .drops x ∧ x.2 = request := by
  cases hMoves with
  | asks _ hSpares =>
    cases hAsked
    exact (hNot hSpares).elim
  | @withdraws _ _ _ x _ hHand =>
    have hCommand := congrArg Sigma.fst (Option.some.inj hAsked)
    exact ⟨x, hHand, dropStep_inj (Call.command.inj hCommand)⟩
  | @sets _ _ thread kind =>
    have hCommand := congrArg Sigma.fst (Option.some.inj hAsked)
    exact (setStep_ne_dropStep thread kind request (Call.command.inj hCommand)).elim
  | _ => cases hAsked

/-- Who is about to withdraw a request has it in its hands. -/
theorem drops_of_plays (hPlays : concert.Plays φ now k)
    (hBusy : now.busy k = some (task, .call (.command (dropStep request)) rest)) :
    ∃ x, (φ k).hand = .drops x ∧ x.2 = request := by
  rw [Concert.Plays, hBusy] at hPlays
  have hDrops : ∀ held, Obeys held (.command (dropStep request)) (.ok ⟨0, 0, []⟩) (held.filter (·.2 ≠ request)) :=
    fun held => .accepts .drops
  obtain ⟨g', hMoves, -⟩ := hPlays now.state trivial (.ok ⟨0, 0, []⟩) ⟨[], [], hDrops []⟩
  refine drops_of_moves hMoves rfl fun hSpares => ?_
  have hSame := hSpares _ _ (hDrops [(0, request)])
  simp at hSame

end Stepping

/-- The request that a worker is about to withdraw is the one that it has looked up, and of that thread. -/
theorem looked_up (hLeads : contending.Leads (.idle d []) past now) (hNone : d.pendingSteps = []) (hHeld : x ∈ now.world)
    {rest : Answer (.command (dropStep x.2)) → Activity (Outcome k)}
    (hBusy : now.busy k = some (task, .call (.command (dropStep x.2)) rest)) {thread : ThreadId} {d₀ : Debuggee}
    {did : List (Doing Debuggee World)} (hDid : deeds k past = did ++ [looked thread d₀])
    (hFound : lookup thread d₀.pendingSteps = some x.2) :
    thread = x.1 ∧ ∃ before e since m m', past = before ++ e :: since ∧ contending.Leads (.idle d []) before m ∧
      contending.Happens m e m' ∧ e.turn = .goesOn k task none ∧ x ∈ m.world := by
  obtain ⟨before, e, since, rfl, hTurn, hBefore, -, hSince⟩ := hLeads.last_deed rfl hBusy hDid
  obtain ⟨m, m', hFirst, hMoment, hRest⟩ := hLeads.around
  have hTurn : e.turn = .goesOn k task none := hTurn
  have hState : m.state = d₀ := hMoment.before.symm.trans hBefore
  obtain ⟨φ, hPlays, hAccount⟩ := Stepping.accounted hFirst hNone
  have hThere : (thread, x.2) ∈ m.world :=
    (hAccount.owned k).mem_iff.mpr (List.mem_append_left _ (hState ▸ mem_of_lookup hFound))
  have hSame := world_of_silent hMoment hTurn
  -- What the worker has in its hands then stays there until it is withdrawn.
  obtain ⟨φ₁, hPlays₁, hAccount₁, -⟩ := Stepping.keeps.step hPlays hAccount hMoment trivial
  obtain ⟨φ₂, hPlays₂, hAccount₂, hStays⟩ := hRest.plays_from Stepping.keeps hPlays₁ hAccount₁
  obtain ⟨y, hHand, hNumber⟩ := Stepping.drops_of_plays (hPlays₂ k) hBusy
  have hNow : y ∈ now.world := hAccount₂.held_of_drops hHand
  have hThen : y ∈ m'.world := hAccount₁.held_of_drops (hStays k hSince ▸ hHand)
  -- Numbers are given once, so it is all the same request.
  have hx : y = x := List.inj_on_of_nodup_map hAccount₂.numbers hNow hHeld hNumber
  have hLooked : y = (thread, x.2) := List.inj_on_of_nodup_map hAccount₁.numbers hThen (hSame ▸ hThere) hNumber
  have hThread : thread = x.1 := by rw [← hx, hLooked]
  exact ⟨hThread, before, e, since, m, m', rfl, hFirst, hMoment, hTurn, by rwa [hThread] at hThere⟩

/-- The pump is in the middle of handling an event, and has handled those before it in the set. -/
def IsHandling (x : Jdwp.Event) (past : List (Moment Actor Task Debuggee World))
    (now : Scene Actor Task Debuggee World (List StepRequest) Outcome) : Prop :=
  ∃ s r handled rest first since left, now.busy .pump = some (.handles s, r) ∧ s.events = handled ++ x :: rest ∧
    deeds .pump past = first ++ since ∧ (handleAll handled).Performs contending.answers contending.keep first false ∧
    (handle x).run.Advances contending.answers contending.keep since left ∧ ∀ outcome, left ≠ .done outcome

/-- Who withdraws a step request, and why. -/
inductive Withdrawal (past : List (Moment Actor Task Debuggee World))
    (now : Scene Actor Task Debuggee World (List StepRequest) Outcome) (x : StepRequest) : Actor → Task → Prop where
  /-- The next step of the thread, before it makes a request of its own. -/
  | next (kind : StepKind) : (∀ did ∈ deeds .client past, did.asked = none) →
      Withdrawal past now x .client (.serves (.step x.1 kind))
  /-- The end of a step of the thread: of the one with this request, or of one whose request is withdrawn already. -/
  | ended {s : EventSet} {e : Jdwp.Event} {l : Jdwp.Location} : IsHandling e past now → e.happening = .step x.1 l →
      (¬Died x.1 past → e.request = x.2 ∨ Withdrawn e.request past) → Withdrawal past now x .pump (.handles s)

theorem Withdrawal.of_busy (hLeads : contending.Leads (.idle d []) past now) (hNone : d.pendingSteps = [])
    (hHonest : Honest past) (hHeld : x ∈ now.world) {rest : Answer (.command (dropStep x.2)) → Activity (Outcome k)}
    (hBusy : now.busy k = some (task, .call (.command (dropStep x.2)) rest)) : Withdrawal past now x k task := by
  obtain ⟨_, r₀, _, ⟨hUndertaken, -⟩, hWay⟩ := hLeads.advances rfl hBusy
  have hComes : ComesToDrop r₀ (deeds k past) x.2 := ⟨rest, hWay⟩
  cases hUndertaken with
  | serves c =>
    obtain ⟨thread, kind, d₀, rfl, hDid, hFound⟩ := of_serve hComes
    obtain ⟨rfl, -⟩ := looked_up hLeads hNone hHeld hBusy (hDid.trans (List.nil_append _).symm) hFound
    refine .next kind fun did hMem => ?_
    rw [hDid] at hMem
    rw [List.mem_singleton.mp hMem, looked]
  | handles s =>
    obtain ⟨handled, e, others, first, since, hEvents, hDid, hHandled, hHandling⟩ := of_handleAll (of_pump hComes)
    obtain ⟨thread, l, before, d₀, hStep, rfl, hFound⟩ := of_handle hHandling
    have hSet : e ∈ s.events := hEvents ▸ List.mem_append_right _ List.mem_cons_self
    obtain ⟨rfl, earlier, e₀, later, m, m', rfl, hFirst, hMoment, hTurn, hThere⟩ := looked_up hLeads hNone hHeld hBusy
      (by rw [hDid, List.append_assoc]) hFound
    refine .ended ⟨s, _, handled, others, first, _, _, hBusy, hEvents, hDid, hHandled, hHandling.choose_spec, nofun⟩ hStep
      fun hAlive => ?_
    have hRunning : ∃ r, m.busy .pump = some (.handles s, r) := by
      cases hMoment with
      | goesOn hPump _ =>
        cases hTurn
        exact ⟨_, hPump⟩
      | _ => cases hTurn
    obtain ⟨r, hPump⟩ := hRunning
    obtain ⟨told, e₁, until', rfl, hTaken⟩ := hFirst.taken rfl hPump
    have hGiven := (hHonest told e₁ (until' ++ e₀ :: later) s (by simp) hTaken e hSet x.1 l hStep).later (e₁ :: until')
    -- Where the event's own request is held still, it is the one that is looked up.
    rcases held_or_withdrawn hFirst hGiven with hHolds | hWithdrawn
    · left
      by_contra hNe
      have hAliveThen : ¬Died x.1 (told ++ e₁ :: until') := fun hDied => hAlive (hDied.later _)
      have hNot := fun z => not_withdraws_of_silent (x := z) hMoment hTurn
      rcases withdraws_of_two hFirst hNone hThere hHolds rfl (fun hEq => hNe (by rw [hEq])) hAliveThen with h | h
      · exact hNot _ h
      · exact hNot _ h
    · exact .inr (hWithdrawn.later _)

/-- A step request goes out of the machine only when it is withdrawn: by the next step of its thread, or when the pump
handles the end of the step, or of one that was overtaken. Two requests of a thread are held at once only while the pump
is withdrawing one of them. -/
theorem withdrawn_unless_overtaken (hLeads : contending.Leads (.idle d []) past now) (hNone : d.pendingSteps = [])
    (hHonest : Honest past) :
    (∀ {x e next}, contending.Happens now e next → x ∈ now.world → x ∉ next.world → ∃ k task a,
      e.turn = .goesOn k task (some ⟨.command (dropStep x.2), a⟩) ∧ Withdrawal past now x k task) ∧
    ∀ {x y}, x ∈ now.world → y ∈ now.world → y.1 = x.1 → x ≠ y → ¬Died x.1 past → Withdraws x now ∨ Withdraws y now := by
  refine ⟨fun hHappens hHeld hGone => ?_, fun hx hy hThread hNe hAlive => ?_⟩
  · obtain ⟨k, task, a, rest, hTurn, hBusy⟩ := happens_dropped hHappens hHeld hGone
    exact ⟨k, task, a, hTurn, .of_busy hLeads hNone hHonest hHeld hBusy⟩
  · exact withdraws_of_two hLeads hNone hx hy hThread hNe hAlive

/-! ## Two steps of one thread -/

def numberOf : StepKind → RequestId
  | .next => 1
  | .into => 2
  | .out => 3

/-- The machine gives each kind of step of thread 7 a number of its own. -/
def numbering (held : List StepRequest) : (c : Call) → Option (Answer c × List StepRequest)
  | .command c =>
    match [StepKind.next, .into, .out].find? fun kind => c = setStep 7 kind ∧ numberOf kind ∉ held.map Prod.snd with
    | some kind => some (.ok ⟨0, 0, Jdwp.Layout.i32 (numberOf kind)⟩, (7, numberOf kind) :: held)
    | none =>
      match [1, 2, 3].find? fun request => c = dropStep request with
      | some request => some (.ok ⟨0, 0, []⟩, held.filter (·.2 ≠ request))
      | none => willing held (.command c)
  | .publish e => willing held (.publish e)
  | .exitCode => willing held .exitCode
  | .kill => willing held .kill

theorem accepts_numbering {held held' : List StepRequest} {c : Call} {a : Answer c}
    (h : numbering held c = some (a, held')) : Accepts held c a held' := by
  cases c with
  | publish | exitCode | kill => exact accepts_willing h
  | command c =>
    dsimp only [numbering] at h
    split at h
    · next kind hKind =>
      obtain ⟨rfl, hFresh⟩ : c = setStep 7 kind ∧ numberOf kind ∉ held.map Prod.snd := by simpa using List.find?_some hKind
      cases h
      exact .sets hFresh
    split at h
    · next request hRequest =>
      obtain rfl : c = dropStep request := by simpa using List.find?_some hRequest
      cases h
      exact .drops
    · exact accepts_willing h

def numberingSteps : Script stepping Task Empty := { obeying with answer? := numbering, answers := accepts_numbering }

/-- Thread 7 makes a step to the next line, then the pump is told of some events. -/
def steppedAndTold (s : EventSet) : List (Cue Actor Task Empty) :=
  [.takesUp .client (.serves (.step 7 .next))] ++ List.replicate 5 (.goesOn .client) ++ [.isDone .client,
    .takesUp .pump (.handles s)]

/-- The step has come to its end at a place with a breakpoint. -/
def stepEndsAtBreakpoint : EventSet := ⟨1, [⟨9, .breakpoint 7 ⟨1, 4, 5, 6⟩⟩, ⟨1, .step 7 ⟨1, 4, 5, 6⟩⟩]⟩

/-- The client sees the breakpoint, and lets the thread make a step into what it calls before the pump goes on. -/
def overtaken : List (Cue Actor Task Empty) :=
  steppedAndTold stepEndsAtBreakpoint ++ List.replicate 2 (.goesOn .pump) ++ [.takesUp .client (.serves (.step 7 .into))] ++
    List.replicate 6 (.goesOn .client) ++ [.isDone .client] ++ List.replicate 2 (.goesOn .pump)

/-- Whether the pump is about to withdraw a request, with these requests held. -/
def isAboutToDrop (request : RequestId) (held : List StepRequest)
    (s : Scene Actor Task Debuggee World (List StepRequest) Outcome) : Bool :=
  s.world = held && match s.busy .pump with
    | some (_, .call (.command c) _) => c = dropStep request
    | _ => false

theorem eq_of_isAboutToDrop {request : RequestId} {held : List StepRequest} (h : isAboutToDrop request held now = true) :
    now.world = held ∧ ∃ task rest, now.busy .pump = some (task, .call (.command (dropStep request)) rest) := by
  obtain ⟨hWorld, hPump⟩ := Bool.and_eq_true_iff.mp h
  refine ⟨of_decide_eq_true hWorld, ?_⟩
  split at hPump
  · next task c rest hBusy =>
    obtain rfl : c = dropStep request := of_decide_eq_true hPump
    exact ⟨task, rest, hBusy⟩
  · cases hPump

/-- What the pump is told of when it takes up a set. -/
def eventsOf (e : Moment Actor Task Debuggee World) : List Jdwp.Event :=
  match e.turn with
  | .takesUp .pump (.handles s) => s.events
  | _ => []

/-- The pump was told that the step with this request has ended. -/
def Ended (x : StepRequest) (past : List (Moment Actor Task Debuggee World)) : Prop :=
  ∃ e ∈ past, ∃ y ∈ eventsOf e, y.request = x.2 ∧ ∃ l, y.happening = .step x.1 l

def isEnded (x : StepRequest) (past : List (Moment Actor Task Debuggee World)) : Bool :=
  past.any fun e => (eventsOf e).any fun y => y.request = x.2 && match y.happening with
    | .step thread _ => thread = x.1
    | _ => false

theorem isEnded_of_ended (h : Ended x past) : isEnded x past = true := by
  obtain ⟨e, he, y, hy, hRequest, l, hStep⟩ := h
  exact List.any_eq_true.mpr ⟨e, he, List.any_eq_true.mpr ⟨y, hy, by simp [hRequest, hStep]⟩⟩

def isGiven (x : StepRequest) (past : List (Moment Actor Task Debuggee World)) : Bool :=
  past.any fun e => match e.turn with
    | .goesOn _ _ (some ⟨.command c, .ok r⟩) =>
      r = ⟨r.id, 0, Jdwp.Layout.i32 x.2⟩ && [StepKind.next, .into, .out].any fun kind => c = setStep x.1 kind
    | _ => false

theorem given_of_isGiven (h : isGiven x past = true) : Given x past := by
  obtain ⟨e, he, hAsked⟩ := List.any_eq_true.mp h
  split at hAsked
  · next k task c r hTurn =>
    obtain ⟨hReply, hKind⟩ := Bool.and_eq_true_iff.mp hAsked
    obtain ⟨kind, -, hCommand⟩ := List.any_eq_true.mp hKind
    obtain rfl : c = setStep x.1 kind := of_decide_eq_true hCommand
    exact ⟨e, he, k, task, kind, r.id, by rw [hTurn, ← of_decide_eq_true hReply]⟩
  · cases hAsked

def isHonest : (before past : List (Moment Actor Task Debuggee World)) → Bool
  | _, [] => true
  | before, e :: rest => ((eventsOf e).all fun y => match y.happening with
      | .step thread _ => isGiven (thread, y.request) before
      | _ => true) && isHonest (before ++ [e]) rest

theorem honest_of_isHonest {before : List (Moment Actor Task Debuggee World)} (h : isHonest before past = true) :
    ∀ earlier e since s, past = earlier ++ e :: since → e.turn = .takesUp .pump (.handles s) →
      ∀ x ∈ s.events, ∀ thread l, x.happening = .step thread l → Given (thread, x.request) (before ++ earlier) := by
  induction past generalizing before with
  | nil => simp
  | cons e rest ih =>
    obtain ⟨hHere, hRest⟩ := Bool.and_eq_true_iff.mp h
    rintro (_ | ⟨e', earlier⟩) e₁ since s hPast hTurn y hy thread l hStep
    · obtain ⟨rfl, rfl⟩ := List.cons.inj hPast
      have hChecked := List.all_eq_true.mp hHere y (by simpa [eventsOf, hTurn] using hy)
      rw [hStep] at hChecked
      rw [List.append_nil]
      exact given_of_isGiven hChecked
    · obtain ⟨rfl, rfl⟩ := List.cons.inj hPast
      simpa using ih hRest earlier e₁ since s rfl hTurn y hy thread l hStep

/-- What comes of some cues that lead to where the pump is about to withdraw a request. -/
theorem leads_to_drop (cues : List (Cue Actor Task Empty)) (request : RequestId) (held : List StepRequest)
    (check : List (Moment Actor Task Debuggee World) → Bool)
    (h : (numberingSteps.replay? cues (.idle attachedMachine [])).any
      (fun z => isHonest [] z.1 && check z.1 && isAboutToDrop request held z.2) = true) :
    ∃ past now, contending.Leads (.idle attachedMachine []) past now ∧ Honest past ∧ check past = true ∧ now.world = held ∧
      ∃ task rest, now.busy .pump = some (task, .call (.command (dropStep request)) rest) := by
  obtain ⟨past, now, hLeads, hBoth⟩ := numberingSteps.leads_of_check cues _
    (fun past now => isHonest [] past && check past && isAboutToDrop request held now) h
  obtain ⟨hRight, hAbout⟩ := Bool.and_eq_true_iff.mp hBoth
  obtain ⟨hHonest, hCheck⟩ := Bool.and_eq_true_iff.mp hRight
  exact ⟨past, now, contends hLeads, honest_of_isHonest hHonest, hCheck, eq_of_isAboutToDrop hAbout⟩

/-- From there it goes on to withdraw it. -/
theorem happens_drop {request : RequestId} {rest : Answer (.command (dropStep request)) → Activity Bool}
    (hBusy : now.busy .pump = some (task, .call (.command (dropStep request)) rest)) :
    ∃ e next, contending.Happens now e next ∧ e.turn.worker? = some .pump ∧
      next.world = now.world.filter (·.2 ≠ request) := by
  have hStep : Routine.Step contending.answers contending.keep (.call (.command (dropStep request)) rest : Activity Bool)
      now.state now.world _ _ now.state (now.world.filter (·.2 ≠ request)) :=
    .call (I := World) (c := Call.command (dropStep request)) (a := .ok ⟨0, 0, []⟩) rest now.state (Obeys.accepts .drops)
  exact ⟨_, _, .goesOn hBusy hStep, rfl, rfl⟩

/-- A step whose end is told of is withdrawn then. -/
theorem withdrawn_unless_overtaken_ended : ∃ past now e next, contending.Leads (.idle attachedMachine []) past now ∧
    attachedMachine.pendingSteps = [] ∧ Honest past ∧ contending.Happens now e next ∧ (7, 1) ∈ now.world ∧
    (7, 1) ∉ next.world ∧ ∃ k task, Withdrawal past now (7, 1) k task := by
  obtain ⟨past, now, hLeads, hHonest, -, hWorld, task, rest, hBusy⟩ := leads_to_drop
    (steppedAndTold stepEnds ++ List.replicate 2 (.goesOn .pump)) 1 [(7, 1)] (fun _ => true) (by decide +kernel)
  obtain ⟨e, next, hHappens, -, hNext⟩ := happens_drop hBusy
  have hHeld : (7, 1) ∈ now.world := by simp [hWorld]
  have hGone : (7, 1) ∉ next.world := by simp [hNext, hWorld]
  obtain ⟨k, task, _, -, hWithdrawal⟩ := (withdrawn_unless_overtaken hLeads rfl hHonest).1 hHappens hHeld hGone
  exact ⟨past, now, e, next, hLeads, rfl, hHonest, hHappens, hHeld, hGone, k, task, hWithdrawal⟩

/-- The client makes another step while the pump is about to withdraw the one that has ended. -/
def besideEnded : List (Cue Actor Task Empty) :=
  steppedAndTold stepEnds ++ List.replicate 2 (.goesOn .pump) ++ [.takesUp .client (.serves (.step 7 .into))] ++
    List.replicate 2 (.goesOn .client)

/-- The end of a step that was overtaken makes the pump withdraw the step that has overtaken it, whose own end nobody has
told of; and two steps of a thread are held at once. -/
theorem withdrawn_by_overtaken :
    (∃ past now e next, contending.Leads (.idle attachedMachine []) past now ∧ Honest past ∧
      contending.Happens now e next ∧ e.turn.worker? = some .pump ∧ (7, 2) ∈ now.world ∧ (7, 2) ∉ next.world ∧
      ¬Ended (7, 2) past) ∧
    ∃ past now, contending.Leads (.idle attachedMachine []) past now ∧ Honest past ∧ (7, 1) ∈ now.world ∧
      (7, 2) ∈ now.world := by
  constructor
  · obtain ⟨past, now, hLeads, hHonest, hCheck, hWorld, task, rest, hBusy⟩ := leads_to_drop overtaken 2 [(7, 2)]
      (fun past => !isEnded (7, 2) past) (by decide +kernel)
    obtain ⟨e, next, hHappens, hTurn, hNext⟩ := happens_drop hBusy
    refine ⟨past, now, e, next, hLeads, hHonest, hHappens, hTurn, by simp [hWorld], by simp [hNext, hWorld],
      fun hEnded => ?_⟩
    simp [isEnded_of_ended hEnded] at hCheck
  · obtain ⟨past, now, hLeads, hHonest, -, hWorld, -⟩ := leads_to_drop besideEnded 1 [(7, 2), (7, 1)] (fun _ => true)
      (by decide +kernel)
    exact ⟨past, now, hLeads, hHonest, by simp [hWorld], by simp [hWorld]⟩

end JvmDebug.Debuggee
