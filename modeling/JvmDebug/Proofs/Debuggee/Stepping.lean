import JvmDebug.Proofs.Debuggee.Handling
import JvmDebug.Proofs.Debuggee.Inspecting
import JvmDebug.Proofs.Jdwp.Reading
import JvmDebug.Proofs.Routine.Replay

/-!
# Step requests that are out

A debuggee remembers the step request of each thread, and withdraws it before the next step and when the step ends.
What the machine holds is what is remembered, what a worker has in its hands, and what was forgotten with a dead thread.
A thread that is resumed while its step is still out keeps the request.
-/

namespace JvmDebug.Debuggee
set_option autoImplicit false

open Jdwp (ThreadId RequestId EventSet Query Reader)

/-- A step request: its thread, and its number. -/
abbrev StepRequest := ThreadId × RequestId

def setStep (thread : ThreadId) (kind : StepKind) : Jdwp.Command :=
  (Query.setRequest (.step thread kind.depth.toInt32 .eventThread)).command

def dropStep (request : RequestId) : Jdwp.Command :=
  (Query.clearRequest Jdwp.EventKind.singleStep.toByte request).command

/-- A machine that accepts every command and keeps its step requests, which are `held`, until they are cleared. -/
inductive Accepts : List StepRequest → (c : Call) → Answer c → List StepRequest → Prop where
  | sets {held : List StepRequest} {thread : ThreadId} {kind : StepKind} {request : RequestId} {id : UInt32} :
      request ∉ held.map Prod.snd →
      Accepts held (.command (setStep thread kind)) (.ok ⟨id, 0, Jdwp.Layout.i32 request⟩) ((thread, request) :: held)
  | drops {held : List StepRequest} {request : RequestId} {id : UInt32} {data : Bytes} :
      Accepts held (.command (dropStep request)) (.ok ⟨id, 0, data⟩) (held.filter (·.2 ≠ request))
  | obeys {held : List StepRequest} {c : Jdwp.Command} {id : UInt32} {data : Bytes} :
      (∀ thread kind, c ≠ setStep thread kind) → (∀ request, c ≠ dropStep request) →
      Accepts held (.command c) (.ok ⟨id, 0, data⟩) held
  | publish {held : List StepRequest} {e : DebugEvent} : Accepts held (.publish e) () held
  | exitCode {held : List StepRequest} {code : Option Int32} : Accepts held .exitCode code held
  | kill {held : List StepRequest} {outcome : Except OsError Unit} : Accepts held .kill outcome held

def IsRefused (a : Except Jdwp.Error Jdwp.Reply) : Prop := ∀ id data, a ≠ .ok ⟨id, 0, data⟩

/-- A machine that may also refuse commands. What it refuses to clear it does not hold any more. -/
inductive Obeys : List StepRequest → (c : Call) → Answer c → List StepRequest → Prop where
  | accepts {held held' : List StepRequest} {c : Call} {a : Answer c} : Accepts held c a held' → Obeys held c a held'
  | refuses {held : List StepRequest} {c : Jdwp.Command} {a : Answer (.command c)} : IsRefused a →
      (∀ request, c ≠ dropStep request) → Obeys held (.command c) a held
  | isGone {held : List StepRequest} {request : RequestId} {a : Answer (.command (dropStep request))} : IsRefused a →
      Obeys held (.command (dropStep request)) a (held.filter (·.2 ≠ request))

inductive Control where
  | step (thread : ThreadId) (kind : StepKind)
  | resume (thread : ThreadId)
  | pause (thread : ThreadId)

namespace Control

def request : Control → DebuggeeRequest
  | step thread kind => .step thread kind
  | resume thread => .resume thread
  | pause thread => .pause thread

/-- What a control returns that has succeeded. -/
def succeeded : (c : Control) → c.request.Answer
  | step .. | pause _ => .ok ()
  | resume _ => .ok .resumed

end Control

inductive Actor where
  | client
  | pump
  deriving DecidableEq

inductive Task where
  | serves (c : Control)
  | handles (s : EventSet)

abbrev Outcome : Actor → Type
  | .client => (c : Control) × c.request.Answer
  | .pump => Bool

/-- Events of threads that stop, start or die. -/
def isOfThreads (e : Jdwp.Event) : Bool :=
  e.kind ∈ [Jdwp.EventKind.breakpoint, .singleStep, .exception, .threadStart, .threadDeath]

inductive Taken : (k : Actor) → Task → Activity (Outcome k) → Prop where
  | serves (c : Control) : Taken .client (.serves c) (Sigma.mk c <$> serve c.request)
  | handles {s : EventSet} : (∀ e ∈ s.events, isOfThreads e = true) → Taken .pump (.handles s) (pump s)

/-- One client that controls threads, and the pump; whatever others do leaves the steps to them. -/
def stepping : Setting Actor Task Debuggee World (List StepRequest) Outcome where
  takes k task d r d' := Taken k task r ∧ d' = d
  answers := Accepts
  keep _ d := d
  outside d held d' held' := d'.pendingSteps = d.pendingSteps ∧ held' = held

inductive Undertaken : (k : Actor) → Task → Activity (Outcome k) → Prop where
  | serves (c : Control) : Undertaken .client (.serves c) (Sigma.mk c <$> serve c.request)
  | handles (s : EventSet) : Undertaken .pump (.handles s) (pump s)

/-- The same on a machine that may refuse commands, and whatever the events are. -/
def contending : Setting Actor Task Debuggee World (List StepRequest) Outcome where
  takes k task d r d' := Undertaken k task r ∧ d' = d
  answers := Obeys
  keep _ d := d
  outside d held d' held' := d'.pendingSteps = d.pendingSteps ∧ held' = held

theorem Taken.undertaken {k : Actor} {task : Task} {r : Activity (Outcome k)} (h : Taken k task r) :
    Undertaken k task r := by
  cases h with
  | serves c => exact .serves c
  | handles => exact .handles _

theorem contends {past : List (Moment Actor Task Debuggee World)}
    {start now : Scene Actor Task Debuggee World (List StepRequest) Outcome} (h : stepping.Leads start past now) :
    contending.Leads start past now := by
  refine Setting.Leads.weaken (t := stepping) ?_ ?_ rfl id h
  · rintro k task d r d' ⟨hTaken, hSame⟩
    exact ⟨hTaken.undertaken, hSame⟩
  · exact fun hAccepts => .accepts hAccepts

/-- It was told that a thread has died. -/
def Died (thread : ThreadId) (past : List (Moment Actor Task Debuggee World)) : Prop :=
  ∃ e ∈ past, ∃ s, e.turn = .takesUp .pump (.handles s) ∧ ∃ x ∈ s.events, x.happening = .threadDeath thread

theorem Died.later {thread : ThreadId} {past : List (Moment Actor Task Debuggee World)} (h : Died thread past)
    (since : List (Moment Actor Task Debuggee World)) : Died thread (past ++ since) := by
  obtain ⟨x, hx, hRest⟩ := h
  exact ⟨x, List.mem_append_left _ hx, hRest⟩

/-! ## Commands -/

theorem setStep_inj {thread thread' : ThreadId} {kind kind' : StepKind} (h : setStep thread kind = setStep thread' kind') :
    thread = thread' := by
  have hBody := congrArg Jdwp.Command.body h
  simp only [setStep, Query.setRequest, Query.of, Jdwp.EventRequest.layout, Jdwp.EventRequest.step, Jdwp.Layout.list,
    List.flatMap_cons, Jdwp.Modifier.layout, List.cons_append, List.append_assoc, List.cons.injEq, true_and,
    List.length_cons, List.append_cancel_left_eq] at hBody
  exact (Reader.append_inj_of_run Reader.run_u64_ok hBody).1

theorem dropStep_inj {request request' : RequestId} (h : dropStep request = dropStep request') : request = request' := by
  have hBody := congrArg (· ++ []) (List.cons.inj (congrArg Jdwp.Command.body h)).2
  exact (Reader.append_inj_of_run Reader.run_i32_ok hBody).1

theorem setStep_ne_dropStep (thread : ThreadId) (kind : StepKind) (request : RequestId) :
    setStep thread kind ≠ dropStep request := by
  intro h
  have hNumber := congrArg Jdwp.Command.number h
  cases hNumber

theorem not_of_steps {c : Jdwp.Command} (h : isOfSteps c = false) :
    (∀ thread kind, c ≠ setStep thread kind) ∧ ∀ request, c ≠ dropStep request := by
  constructor
  · rintro thread kind rfl
    cases h
  · rintro request rfl
    cases h

theorem not_isOfSteps {c : Jdwp.Command} (h : c.set ≠ 15) : isOfSteps c = false := by
  simp [isOfSteps, h]

/-- Calls that are not about step requests. -/
def Unrelated (c : Call) : Prop :=
  ∀ x, c = .command x → (∀ thread kind, x ≠ setStep thread kind) ∧ ∀ request, x ≠ dropStep request

/-- An answer with which the machine holds what it held before. -/
def Spares (c : Call) (a : Answer c) : Prop := ∀ held held', Obeys held c a held' → held' = held

section Answers

variable {held held' : List StepRequest} {c : Call} {a : Answer c} {request : RequestId}

theorem Unrelated.spares (h : Unrelated c) : Spares c a := by
  intro held held' hObeys
  cases hObeys with
  | accepts hAccepts =>
    cases hAccepts with
    | sets => exact ((h _ rfl).1 _ _ rfl).elim
    | drops => exact ((h _ rfl).2 _ rfl).elim
    | _ => rfl
  | refuses => rfl
  | isGone => exact ((h _ rfl).2 _ rfl).elim

theorem IsRefused.spares {thread : ThreadId} {kind : StepKind} {a : Answer (.command (setStep thread kind))}
    (h : IsRefused a) : Spares (.command (setStep thread kind)) a := by
  intro held held' hObeys
  generalize hCommand : setStep thread kind = c at a hObeys
  cases hObeys with
  | accepts hAccepts =>
    cases hAccepts with
    | sets => exact (h _ _ rfl).elim
    | drops => exact (setStep_ne_dropStep _ _ _ hCommand).elim
    | obeys => rfl
  | refuses => rfl
  | isGone => exact (setStep_ne_dropStep _ _ _ hCommand).elim

theorem answer_numbered (r : Jdwp.EventRequest) (id : UInt32) (request : RequestId) :
    (Query.setRequest r).answer ⟨id, 0, Jdwp.Layout.i32 request⟩ = .ok request :=
  congrArg Prod.fst (Reader.run_i32_ok.mpr (List.append_nil _).symm)

theorem IsRefused.fails {β : Type} {a : Except Jdwp.Error Jdwp.Reply} (h : IsRefused a) (q : Query β) :
    ∃ e, a >>= q.answer = .error e := by
  rcases a with e | ⟨id, code, data⟩
  · exact ⟨e, rfl⟩
  · have hCode : code ≠ 0 := fun hEq => h id data (by rw [hEq])
    refine ⟨.rejected code, ?_⟩
    simp [Query.answer, Jdwp.Reply.check, Jdwp.Reply.isError, hCode, bind, Except.bind]

/-- What is cleared is not held any more, and nothing else changes. -/
theorem Obeys.withdrawn {a : Answer (.command (dropStep request))} (h : Obeys held (.command (dropStep request)) a held') :
    held' = held.filter (·.2 ≠ request) := by
  generalize hCommand : dropStep request = c at a h
  cases h with
  | accepts hAccepts =>
    cases hAccepts with
    | sets => exact (setStep_ne_dropStep _ _ _ hCommand.symm).elim
    | drops => rw [dropStep_inj hCommand]
    | obeys _ hDrops => exact (hDrops _ hCommand.symm).elim
  | refuses _ hDrops => exact (hDrops _ hCommand.symm).elim
  | isGone => rw [dropStep_inj hCommand]

theorem Obeys.numbered {thread : ThreadId} {kind : StepKind} {id : UInt32}
    (h : Obeys held (.command (setStep thread kind)) (.ok ⟨id, 0, Jdwp.Layout.i32 request⟩) held') :
    held' = (thread, request) :: held ∧ request ∉ held.map Prod.snd := by
  generalize hCommand : setStep thread kind = c at h
  generalize hReply : (Except.ok ⟨id, 0, Jdwp.Layout.i32 request⟩ : Except Jdwp.Error Jdwp.Reply) = a at h
  cases h with
  | refuses hRefused => exact (hRefused _ _ hReply.symm).elim
  | isGone => exact (setStep_ne_dropStep _ _ _ hCommand).elim
  | accepts hAccepts =>
    cases hAccepts with
    | drops => exact (setStep_ne_dropStep _ _ _ hCommand).elim
    | obeys hSets => exact (hSets _ _ hCommand.symm).elim
    | @sets thread' kind' request' id' hFresh =>
      have hData := congrArg (· ++ []) (Jdwp.Reply.mk.inj (Except.ok.inj hReply)).2.2
      obtain rfl := (Reader.append_inj_of_run Reader.run_i32_ok hData).1
      obtain rfl := setStep_inj hCommand
      exact ⟨rfl, hFresh⟩

/-- How calls may be answered, whatever the machine holds. -/
def Obeyed (c : Call) (a : Answer c) : Prop := ∃ held held', Obeys held c a held'

/-- How they may be answered if no command is refused. -/
def Accepted (c : Call) (a : Answer c) : Prop := ∃ held held', Accepts held c a held'

theorem exists_obeyed (c : Call) : ∃ a, Obeyed c a := by
  cases c with
  | publish => exact ⟨(), [], [], .accepts .publish⟩
  | exitCode => exact ⟨none, [], [], .accepts .exitCode⟩
  | kill => exact ⟨.ok (), [], [], .accepts .kill⟩
  | command c =>
    have hRefused : IsRefused (.ok ⟨0, 1, []⟩) := nofun
    by_cases hDrops : ∃ request, c = dropStep request
    · obtain ⟨request, rfl⟩ := hDrops
      exact ⟨_, [], _, .isGone hRefused⟩
    · exact ⟨_, [], [], .refuses hRefused fun request hEq => hDrops ⟨request, hEq⟩⟩

/-- A step request gets a number, or is refused. -/
theorem Obeyed.number {thread : ThreadId} {kind : StepKind} {a : Answer (.command (setStep thread kind))}
    (h : Obeyed (.command (setStep thread kind)) a) :
    (∃ id request, a = .ok ⟨id, 0, Jdwp.Layout.i32 request⟩) ∨ IsRefused a := by
  obtain ⟨held, held', hObeys⟩ := h
  generalize hCommand : setStep thread kind = c at a hObeys
  cases hObeys with
  | accepts hAccepts =>
    cases hAccepts with
    | sets => exact .inl ⟨_, _, rfl⟩
    | drops => exact (setStep_ne_dropStep _ _ _ hCommand).elim
    | obeys hSets => exact (hSets _ _ hCommand.symm).elim
  | refuses hRefused => exact .inr hRefused
  | isGone => exact (setStep_ne_dropStep _ _ _ hCommand).elim

/-- No command is refused. -/
theorem Accepted.ok {c : Jdwp.Command} {a : Answer (.command c)} (h : Accepted (.command c) a) :
    ∃ id data, a = .ok ⟨id, 0, data⟩ := by
  obtain ⟨held, held', hAccepts⟩ := h
  cases hAccepts with
  | sets | drops | obeys => exact ⟨_, _, rfl⟩

theorem Accepted.number {thread : ThreadId} {kind : StepKind} {a : Answer (.command (setStep thread kind))}
    (h : Accepted (.command (setStep thread kind)) a) : ∃ id request, a = .ok ⟨id, 0, Jdwp.Layout.i32 request⟩ := by
  obtain ⟨held, held', hAccepts⟩ := h
  rcases Obeyed.number ⟨held, held', .accepts hAccepts⟩ with hNumber | hRefused
  · exact hNumber
  · obtain ⟨id, data, hOk⟩ := Accepted.ok ⟨held, held', hAccepts⟩
    exact (hRefused id data hOk).elim

end Answers

/-! ## Phases -/

/-- What a worker has in its hands. -/
inductive Hand where
  | free
  /-- A request that is no longer remembered, and is to be withdrawn next. -/
  | drops (x : StepRequest)
  /-- No request of this thread is remembered. -/
  | ready (thread : ThreadId)
  /-- A request that is held, and is still to be remembered. -/
  | puts (x : StepRequest)

namespace Hand

def isIdle : Hand → Bool
  | free | ready _ => true
  | drops _ | puts _ => false

def holds : Hand → List StepRequest
  | free | ready _ => []
  | drops x | puts x => [x]

/-- The thread of whose requests none is remembered. -/
def thread? : Hand → Option ThreadId
  | free => none
  | ready thread => some thread
  | drops x | puts x => some x.1

/-- Whether the next that is done is to withdraw a request. -/
def isDropping : Hand → Bool
  | drops _ => true
  | free | ready _ | puts _ => false

theorem not_dropping_of_idle {h : Hand} (hIdle : h.isIdle = true) : h.isDropping = false := by
  cases h with
  | free | ready => rfl
  | drops | puts => cases hIdle

theorem holds_of_idle {h : Hand} (hIdle : h.isIdle = true) : h.holds = [] := by
  cases h with
  | free | ready => rfl
  | drops | puts => cases hIdle

theorem thread_of_holds {h : Hand} {x : StepRequest} (hx : x ∈ h.holds) : h.thread? = some x.1 := by
  cases h with
  | free | ready => cases hx
  | drops | puts => rw [List.mem_singleton.mp hx, thread?]

theorem eq_of_holds {h : Hand} {x y : StepRequest} (hx : x ∈ h.holds) (hy : y ∈ h.holds) : x = y := by
  cases h with
  | free | ready => cases hx
  | drops | puts => exact (List.mem_singleton.mp hx).trans (List.mem_singleton.mp hy).symm

end Hand

structure StepPhase where
  hand : Hand
  /-- The requests that were forgotten without being withdrawn, and the threads of which this may be. -/
  lost : List StepRequest
  dead : List ThreadId

namespace StepPhase

def atRest : StepPhase := ⟨.free, [], []⟩

/-- What is held by the machine for this worker. -/
def holds (g : StepPhase) : List StepRequest := g.hand.holds ++ g.lost

theorem holds_of_drops {g : StepPhase} {x : StepRequest} (h : g.hand = .drops x) : g.holds = x :: g.lost := by
  rw [holds, h]
  rfl

theorem holds_of_puts {g : StepPhase} {x : StepRequest} (h : g.hand = .puts x) : g.holds = x :: g.lost := by
  rw [holds, h]
  rfl

inductive Moves : Actor → StepPhase → Option (Asked World) → Debuggee → Debuggee → StepPhase → Prop where
  | aside {k : Actor} {g : StepPhase} {d d' : Debuggee} : g.hand.isDropping = false →
      d'.pendingSteps = d.pendingSteps → Moves k g none d d' g
  | asks {k : Actor} {g : StepPhase} {d : Debuggee} {c : Call} {a : Answer c} : g.hand.isDropping = false →
      Spares c a → Moves k g (some ⟨c, a⟩) d d g
  | finds {k : Actor} {g : StepPhase} {d : Debuggee} {thread : ThreadId} {request : RequestId} : g.hand.isIdle = true →
      lookup thread d.pendingSteps = some request →
      Moves k g none d (takeStep thread d).2 { g with hand := .drops (thread, request) }
  | misses {k : Actor} {g : StepPhase} {d : Debuggee} {thread : ThreadId} : g.hand.isIdle = true →
      lookup thread d.pendingSteps = none → Moves k g none d (takeStep thread d).2 { g with hand := .ready thread }
  | withdraws {k : Actor} {g : StepPhase} {d : Debuggee} {x : StepRequest} {a : Answer (.command (dropStep x.2))} :
      g.hand = .drops x → Moves k g (some ⟨.command (dropStep x.2), a⟩) d d { g with hand := .ready x.1 }
  | sets {g : StepPhase} {d : Debuggee} {thread : ThreadId} {kind : StepKind} {request : RequestId} {id : UInt32} :
      g.hand = .ready thread →
      Moves .client g (some ⟨.command (setStep thread kind), .ok ⟨id, 0, Jdwp.Layout.i32 request⟩⟩) d d
        { g with hand := .puts (thread, request) }
  | puts {g : StepPhase} {d : Debuggee} {x : StepRequest} : g.hand = .puts x →
      Moves .client g none d (putStep x.1 x.2 d) { g with hand := .free }
  | forgets {k : Actor} {g : StepPhase} {d : Debuggee} {thread : ThreadId} : g.hand.isIdle = true → thread ∈ g.dead →
      Moves k g none d (takeStep thread d).2
        { g with hand := .free, lost := g.lost ++ d.pendingSteps.filter (·.1 = thread) }

end StepPhase

namespace Stepping

variable {α : Type} {k : Actor} {g : StepPhase}

/-! ## What leaves the steps alone -/

/-- No change of the steps that are remembered, and no calls about them. -/
def unrelated : Bounds Debuggee World := ⟨fun d d' => d'.pendingSteps = d.pendingSteps, Unrelated, fun _ d => d⟩

theorem unrelated_of {c : Jdwp.Command} (h : isOfSteps c = false) : unrelated.calls (.command c) := by
  rintro _ ⟨⟩
  exact not_of_steps h

theorem looking_unrelated : Looking unrelated where
  learns _ _ _ := rfl
  asks c hLooks := unrelated_of (not_isOfSteps (by simpa using (Bool.and_eq_true_iff.mp hLooks).2))
  keep := rfl

theorem unrelated_query {q : Query α} (h : isOfSteps q.command = false) : (query q).run.Within unrelated fun _ => True :=
  ⟨unrelated_of h, fun _ => rfl, fun _ => trivial⟩

theorem unrelated_publish (e : DebugEvent) : (publish e).Within unrelated fun _ => True :=
  ⟨nofun, fun _ => rfl, fun _ => trivial⟩

theorem unrelated_onPlacer (w : Placer.Work α) : (onPlacer w).Within unrelated fun _ => True := by
  have hZoomed : (w.run.zoom Debuggee.placer fun p d => { d with placer := p }).Within
      (⟨fun d d' => d'.pendingSteps = d.pendingSteps, fun _ => True, fun _ d => d⟩ : Bounds Debuggee Backend) fun _ => True :=
    (Routine.within_anything fun _ p => p).zoom (fun _ _ _ => rfl) (fun _ => id) (fun _ => rfl) fun _ _ => rfl
  refine hZoomed.interpret (fun _ _ => id) rfl fun c _ => (placing_serve c).interpret ?_ rfl fun x hx => ?_
  · rintro d _ rfl
    rfl
  · exact ⟨unrelated_of hx, fun _ => rfl, fun _ => trivial⟩

theorem unrelated_publishResolved (found : List (Int × UInt32)) :
    (publishResolved found).Within unrelated fun _ => True := by
  induction found with
  | nil => trivial
  | cons x rest ih =>
    refine Routine.within_then (fun _ => ⟨rfl, trivial⟩) fun _ => ?_
    exact Routine.within_then (unrelated_publish _) fun _ => ih

theorem unrelated_classPrepared (r : RequestId) (c : Jdwp.LoadedClass) :
    (classPrepared r c).run.Within unrelated fun _ => True := by
  have hTake : (takePlacer .pump).Within unrelated fun _ => True :=
    ⟨fun _ => ⟨fun _ => rfl, fun _ => rfl⟩, fun _ => trivial⟩
  refine Attempt.within_seq (Attempt.within_lift.mpr hTake) fun _ => ?_
  refine Attempt.within_seq (Attempt.within_lift.mpr (unrelated_onPlacer _)) fun placed => ?_
  refine Attempt.within_seq (Attempt.within_lift.mpr fun _ => ⟨rfl, trivial⟩) fun _ => ?_
  refine Attempt.within_seq (w := ExceptT.mk (pure placed)) trivial fun found => ?_
  exact Attempt.within_lift.mpr (unrelated_publishResolved found)

/-- Whether handling an event concerns the steps of a thread. -/
def concernsSteps (e : Jdwp.Event) : Bool :=
  match e.happening with
  | .step .. | .threadDeath _ => true
  | _ => false

theorem unrelated_handle {e : Jdwp.Event} (h : concernsSteps e = false) : (handle e).run.Within unrelated fun _ => True := by
  obtain ⟨r, happening⟩ := e
  refine Attempt.within_seq looking_unrelated.notes fun _ => ?_
  have hPublish : ∀ x,
      (ExceptT.run (do ExceptT.lift (publish x); return false : Work Bool)).Within unrelated fun _ => True := fun x =>
    Attempt.within_seq (Attempt.within_lift.mpr (unrelated_publish x)) fun _ => trivial
  cases happening with
  | breakpoint | threadStart => exact hPublish _
  | exception thread l thrown caughtAt =>
    have hDescribe := (inspects_describeException thrown.id caughtAt.isSome).within looking_unrelated
    exact Attempt.within_seq hDescribe fun _ => hPublish _
  | classPrepare thread tag c signature status =>
    refine Attempt.within_seq looking_unrelated.notes fun _ => ?_
    exact Attempt.within_seq (unrelated_classPrepared r ⟨tag, c⟩) fun _ => trivial
  | vmDeath => exact Attempt.within_seq looking_unrelated.notes fun _ => trivial
  | vmStart | methodEntry | methodExit => trivial
  | step | threadDeath => cases h

theorem unrelated_resumeAfterPrepare (s : EventSet) : (resumeAfterPrepare s).Within unrelated fun _ => True := by
  have hSet : ∀ q, resumeQuery? s = some q → isOfSteps q.command = false := by
    intro q hQuery
    unfold resumeQuery? at hQuery
    split at hQuery
    · cases hQuery
      rfl
    split at hQuery
    · obtain ⟨thread, -, rfl⟩ := Option.map_eq_some_iff.mp hQuery
      rfl
    · cases hQuery
  unfold resumeAfterPrepare
  split
  · trivial
  · next q hQuery =>
    refine Routine.within_then (unrelated_query (hSet q hQuery)) fun answer => ?_
    split
    · trivial
    · exact looking_unrelated.note

/-! ## What the workers pass through -/

def phases (k : Actor) : Phases StepPhase Debuggee World where
  fits _ _ := True
  moves := StepPhase.Moves k
  waits g := g.hand.isDropping = false
  answered := Obeyed
  keep _ d := d

/-- The worker has nothing in its hands, and knows of the same dead threads. -/
def Rests (g g' : StepPhase) : Prop := g'.hand.isIdle = true ∧ g'.dead = g.dead

theorem Rests.trans {g₁ g₂ g₃ : StepPhase} (h : Rests g₁ g₂) (h' : Rests g₂ g₃) : Rests g₁ g₃ :=
  ⟨h'.1, h'.2.trans h.2⟩

theorem passes_unrelated {r : Activity α} (h : r.Within unrelated fun _ => True) (hHand : g.hand.isDropping = false) :
    r.Passes (phases k) (fun _ g' => g' = g) g := by
  refine h.passes_in rfl ?_ ?_ ?_ rfl
  · rintro _ rfl
    exact hHand
  · rintro _ d d' rfl - hSame
    exact ⟨_, .aside hHand hSame, rfl⟩
  · rintro _ d c a rfl - hUnrelated -
    exact ⟨_, .asks hHand hUnrelated.spares, rfl⟩

theorem passes_quiet {r : Activity α} (h : r.Within unrelated fun _ => True) (hIdle : g.hand.isIdle = true) :
    r.Passes (phases k) (fun _ => Rests g) g := by
  refine (passes_unrelated h (Hand.not_dropping_of_idle hIdle)).mono ?_
  rintro _ _ rfl
  exact ⟨hIdle, rfl⟩

theorem unrelated_ask {q : Query Unit} (h : isOfSteps q.command = false) : (ask q).run.Within unrelated fun _ => True :=
  within_exchange (unrelated_query h)

/-- How it goes on when the machine was asked to clear a request. -/
theorem unrelated_cleared (request : RequestId) (outcome : Except Jdwp.Error Unit) : (ExceptT.run (do
    match outcome with
    | .ok _ => return ()
    | .error e => do
      if e.isDisconnect then throw (Error.ofJdwp e)
      ExceptT.lift (Routine.debug .debuggee s!"Step request {request} already gone: {e.message}")
      : Work Unit)).Within unrelated fun _ => True := by
  cases outcome with
  | ok => trivial
  | error e =>
    dsimp only
    split
    · exact Attempt.within_seq (w := throw _) trivial fun _ => looking_unrelated.notes
    · exact looking_unrelated.notes

/-- A step that is remembered is withdrawn, and none is remembered then. -/
theorem passes_clearStep (thread : ThreadId) (hIdle : g.hand.isIdle = true) :
    (clearStep thread).run.Passes (phases k) (fun _ g' => g' = { g with hand := .ready thread }) g := by
  refine Attempt.passes_bind (Attempt.passes_lift fun d _ => ?_)
  cases hFound : lookup thread d.pendingSteps with
  | none =>
    refine ⟨_, .misses hIdle hFound, ?_⟩
    simp only [takeStep, hFound]
    rfl
  | some request =>
    refine ⟨_, .finds hIdle hFound, ?_⟩
    simp only [takeStep, hFound]
    -- Whatever the machine answers, it does not hold the request any more.
    have hWithdraw : (withdrawRequest .singleStep request).run.Passes (phases k)
        (fun _ g' => g' = { g with hand := .ready thread }) { g with hand := .drops (thread, request) } :=
      fun d _ a _ => ⟨_, .withdraws (x := (thread, request)) rfl, rfl⟩
    refine Attempt.passes_bind (Attempt.passes_lift (hWithdraw.mono ?_))
    rintro outcome _ rfl
    exact passes_unrelated (unrelated_cleared request outcome) rfl

theorem passes_step (thread : ThreadId) (kind : StepKind) (hIdle : g.hand.isIdle = true) :
    (step thread kind).run.Passes (phases .client) (fun _ => Rests g) g := by
  refine Attempt.passes_bind ((passes_clearStep thread hIdle).mono ?_)
  rintro cleared _ rfl
  cases cleared with
  | error => exact ⟨rfl, rfl⟩
  | ok =>
    -- The number that the machine gives to the request is read back from its reply.
    have hPlace : (exchange (placeRequest (.step thread kind.depth.toInt32 .eventThread))).run.Passes (phases .client)
        (fun a g' => match a with
          | .ok request => g' = { g with hand := .puts (thread, request) }
          | .error _ => g' = { g with hand := .ready thread }) { g with hand := .ready thread } := by
      refine Routine.Passes.map fun d _ a hObeyed => ?_
      rcases hObeyed.number with ⟨id, request, rfl⟩ | hRefused
      · refine ⟨_, .sets rfl, ?_⟩
        dsimp only [Routine.bind, bind, pure, Except.bind]
        rw [answer_numbered]
        exact fun d _ => ⟨_, .aside rfl rfl, rfl⟩
      · obtain ⟨e, hFails⟩ := hRefused.fails (Query.setRequest (.step thread kind.depth.toInt32 .eventThread))
        refine ⟨_, .asks rfl hRefused.spares, ?_⟩
        dsimp only [Routine.bind, bind, pure, Except.bind] at hFails ⊢
        rw [hFails]
        rfl
    refine Attempt.passes_bind (hPlace.mono ?_)
    rintro (why | request) _ rfl
    · exact ⟨rfl, rfl⟩
    refine Attempt.passes_bind (Attempt.passes_lift fun d _ => ⟨_, .puts (x := (thread, request)) rfl, ?_⟩)
    exact passes_quiet (unrelated_ask rfl) rfl

theorem unrelated_resume (thread : ThreadId) : (resume thread).run.Within unrelated fun _ => True := by
  refine Attempt.within_seq (Attempt.within_lift.mpr ((unrelated_query rfl).mono fun _ _ => trivial)) fun answer => ?_
  cases answer with
  | ok => trivial
  | error e =>
    have hUnavailable : (ExceptT.run (do
        ExceptT.lift (Routine.debug .debuggee s!"Thread {thread} cannot be resumed on its own: {e.message}")
        return .threadUnavailable : Work ResumeOutcome)).Within unrelated fun _ => True :=
      Attempt.within_seq looking_unrelated.notes fun _ => trivial
    dsimp only
    split
    · exact Attempt.within_seq (w := throw _) trivial fun _ => hUnavailable
    · exact hUnavailable

theorem passes_serve (c : Control) (hIdle : g.hand.isIdle = true) :
    (serve c.request).Passes (phases .client) (fun _ => Rests g) g := by
  cases c with
  | step thread kind => exact passes_step thread kind hIdle
  | pause thread => exact passes_quiet (unrelated_ask rfl) hIdle
  | resume thread => exact passes_quiet (unrelated_resume thread) hIdle

/-! ## The pump -/

theorem passes_handle (e : Jdwp.Event) (hDead : ∀ thread, e.happening = .threadDeath thread → thread ∈ g.dead)
    (hIdle : g.hand.isIdle = true) : (handle e).run.Passes (phases k) (fun _ => Rests g) g := by
  cases hConcerns : concernsSteps e with
  | false => exact passes_quiet (unrelated_handle hConcerns) hIdle
  | true =>
    obtain ⟨r, happening⟩ := e
    refine Attempt.passes_bind ((passes_quiet looking_unrelated.notes hIdle).mono ?_)
    rintro noted g₁ hFirst
    cases noted with
    | error => exact hFirst
    | ok =>
      have hPublish : ∀ (x : DebugEvent) {g₂ : StepPhase}, Rests g g₂ →
          (ExceptT.run (do ExceptT.lift (publish x); return false : Work Bool)).Passes (phases k) (fun _ => Rests g) g₂ := by
        intro x g₂ hRests
        refine (passes_quiet ?_ hRests.1).mono fun _ g₃ hNext => hRests.trans hNext
        exact Attempt.within_seq (Attempt.within_lift.mpr (unrelated_publish x)) fun _ => trivial
      cases happening with
      | step thread l =>
        refine Attempt.passes_bind ((passes_clearStep thread hFirst.1).mono ?_)
        rintro (why | cleared) _ rfl
        · exact ⟨rfl, hFirst.2⟩
        · exact hPublish (.step thread) ⟨rfl, hFirst.2⟩
      | threadDeath thread =>
        have hKnown : thread ∈ g₁.dead := hFirst.2 ▸ hDead thread rfl
        refine Attempt.passes_bind (Attempt.passes_lift fun d _ => ⟨_, .forgets hFirst.1 hKnown, ?_⟩)
        exact hPublish (.threadChanged thread .exited) ⟨rfl, hFirst.2⟩
      | _ => cases hConcerns

theorem passes_handleAll (events : List Jdwp.Event)
    (hDead : ∀ e ∈ events, ∀ thread, e.happening = .threadDeath thread → thread ∈ g.dead) (hIdle : g.hand.isIdle = true) :
    (handleAll events).Passes (phases k) (fun _ => Rests g) g := by
  induction events generalizing g with
  | nil => exact ⟨hIdle, rfl⟩
  | cons e rest ih =>
    obtain ⟨hHere, hDead⟩ := List.forall_mem_cons.mp hDead
    have hRest : ∀ {g₁ : StepPhase}, Rests g g₁ → (handleAll rest).Passes (phases k) (fun _ => Rests g) g₁ := by
      intro g₁ hRests
      refine (ih (fun x hx thread hEq => hRests.2 ▸ hDead x hx thread hEq) hRests.1).mono ?_
      exact fun _ g₂ hNext => hRests.trans hNext
    refine Routine.Passes.bind ((passes_handle e hHere hIdle).mono ?_)
    rintro (why | gone) g₁ hRests
    · change Routine.Passes _ _ (if why.isDisconnect = true then return true else _) _
      split
      · exact hRests
      · refine Routine.Passes.bind ((passes_quiet looking_unrelated.note hRests.1).mono ?_)
        exact fun _ g₂ hNext => hRest (hRests.trans hNext)
    · cases gone with
      | true => exact hRests
      | false => exact hRest hRests

theorem passes_pump {s : EventSet}
    (hDead : ∀ e ∈ s.events, ∀ thread, e.happening = .threadDeath thread → thread ∈ g.dead) (hIdle : g.hand.isIdle = true) :
    (pump s).Passes (phases k) (fun _ => Rests g) g := by
  refine Routine.Passes.bind ((passes_handleAll s.events hDead hIdle).mono ?_)
  rintro gone g₁ hRests
  cases gone with
  | true => exact hRests
  | false =>
    change Routine.Passes _ _ (if isPrepareSet s = true then resumeAfterPrepare s >>= _ else _) _
    split
    · refine Routine.Passes.bind ((passes_quiet (unrelated_resumeAfterPrepare s) hRests.1).mono ?_)
      exact fun _ g₂ hNext => hRests.trans hNext
    · exact hRests

/-! ## Where no command is refused -/

theorem gives_order {q : Query Unit} (hReader : q.reader = pure ()) : (query q).run.Gives Accepted (· = .ok ()) := by
  intro a hAccepted
  obtain ⟨id, data, rfl⟩ := Accepted.ok (c := q.command) hAccepted
  change q.reader.value data = .ok ()
  rw [hReader]
  rfl

theorem gives_ask {q : Query Unit} (hReader : q.reader = pure ()) : (ask q).run.Gives Accepted (· = .ok ()) := by
  refine Routine.gives_bind.mpr ((gives_order hReader).mono ?_)
  rintro _ rfl
  rfl

theorem gives_clearStep (thread : ThreadId) : (clearStep thread).run.Gives Accepted (· = .ok ()) := by
  intro d
  cases hFound : lookup thread d.pendingSteps with
  | none =>
    simp only [takeStep, hFound]
    rfl
  | some request =>
    simp only [takeStep, hFound]
    intro a hAccepted
    obtain ⟨id, data, rfl⟩ := Accepted.ok hAccepted
    rfl

theorem gives_step (thread : ThreadId) (kind : StepKind) : (step thread kind).run.Gives Accepted (· = .ok ()) := by
  refine Routine.gives_bind.mpr ((gives_clearStep thread).mono ?_)
  rintro _ rfl a hAccepted
  obtain ⟨id, request, rfl⟩ := Accepted.number hAccepted
  dsimp only [Routine.bind, bind, pure, Except.bind]
  rw [answer_numbered]
  exact fun d => gives_ask rfl

theorem gives_serve (c : Control) : (serve c.request).Gives Accepted (· = c.succeeded) := by
  cases c with
  | step thread kind => exact gives_step thread kind
  | pause thread => exact gives_ask rfl
  | resume thread =>
    refine Routine.gives_bind.mpr (Routine.gives_bind.mpr ((gives_order rfl).mono ?_))
    rintro _ rfl
    rfl

end Stepping

/-- What a control returns on a machine that refuses nothing. -/
theorem succeeds {past : List (Moment Actor Task Debuggee World)}
    {start now : Scene Actor Task Debuggee World (List StepRequest) Outcome} (hLeads : stepping.Leads start past now)
    (hIdle : start.busy .client = none) {task : Task} {x : (c : Control) × c.request.Answer}
    (hDone : now.busy .client = some (task, .done x)) : x.2 = x.1.succeeded := by
  refine hLeads.left (p := fun r => r.Gives Accepted fun x => x.2 = x.1.succeeded) hIdle ?_ ?_ hDone
  · rintro _ _ _ _ ⟨hTaken, -⟩
    cases hTaken with
    | serves c =>
      rw [map_eq_pure_bind]
      refine Routine.gives_bind.mpr ((Stepping.gives_serve c).mono ?_)
      rintro _ rfl
      rfl
  · exact fun r s m asked r' s' m' hStep hGives => hGives.step hStep fun hAccepts => ⟨_, _, hAccepts⟩

end JvmDebug.Debuggee
