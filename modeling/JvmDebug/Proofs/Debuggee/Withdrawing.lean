import JvmDebug.Proofs.Debuggee.Stepping
import JvmDebug.Proofs.Routine.Advancing

/-!
# On the way to withdraw a step request

A worker withdraws a step request right after it has looked one up for a thread: when it begins a step of the thread,
and when it handles the end of one. What it does otherwise leaves step requests in the machine.
-/

namespace JvmDebug.Debuggee
set_option autoImplicit false

open Jdwp (ThreadId RequestId EventSet Query)

variable {α β : Type} {did : List (Doing Debuggee World)} {thread : ThreadId} {request : RequestId}

/-- Whatever withdraws no step request. -/
def lasting : Bounds Debuggee World :=
  ⟨fun _ _ => True, fun c => ∀ request, c ≠ .command (dropStep request), fun _ d => d⟩

theorem lasting_of_unrelated {r : Activity α} (h : r.Within Stepping.unrelated fun _ => True) :
    r.Within lasting fun _ => True := by
  have hKeep : Stepping.unrelated.keep = lasting.keep := rfl
  refine Routine.Within.weaken (fun _ _ _ => trivial) (fun c hUnrelated request hCall => ?_) hKeep h
  exact (hUnrelated _ hCall).2 request rfl

theorem lasting_modify (change : Debuggee → Debuggee) :
    (ExceptT.lift (Routine.modify change) : Work Unit).run.Within lasting fun _ => True :=
  Attempt.within_lift.mpr fun _ => ⟨trivial, trivial⟩

theorem lasting_publish (e : DebugEvent) :
    (ExceptT.run (do ExceptT.lift (publish e); return false : Work Bool)).Within lasting fun _ => True :=
  lasting_of_unrelated (Attempt.within_seq (Attempt.within_lift.mpr (Stepping.unrelated_publish e)) fun _ => trivial)

/-- The same on the wire. -/
def lastingThere : Bounds Debuggee Jdwp.Wire :=
  ⟨fun _ _ => True, fun c => ∀ request, c ≠ dropStep request, fun _ d => d⟩

theorem lasting_place (kind : StepKind) :
    (exchange (placeRequest (.step thread kind.depth.toInt32 .eventThread))).run.Within lasting fun _ => True := by
  have hThere : (Jdwp.place (.step thread kind.depth.toInt32 .eventThread)).Within lastingThere fun _ => True :=
    within_placing (fun _ => trivial) rfl (setStep_ne_dropStep thread kind)
  refine within_exchange (hThere.interpret (fun _ _ => id) rfl fun c hc => ?_)
  exact ⟨fun request hCall => hc request (Call.command.inj hCall), fun _ => trivial, fun _ => trivial⟩

/-- The routine comes to where it is about to withdraw a request. -/
def ComesToDrop (r : Activity α) (did : List (Doing Debuggee World)) (request : RequestId) : Prop :=
  ∃ next, r.Advances contending.answers contending.keep did (.call (.command (dropStep request)) next)

theorem not_comesToDrop {r : Activity α} (h : r.Within lasting fun _ => True) : ¬ComesToDrop r did request := by
  rintro ⟨next, hWay⟩
  have hThere : Routine.Within lasting (fun _ => True) (.call (.command (dropStep request)) next) := hWay.within h
  exact hThere.1 request rfl

/-- Of two routines, one after the other, either the first comes to withdraw a request, or the second one does after the
first has come to its end. -/
theorem ComesToDrop.of_bind {r : Activity α} {k : α → Activity β} (h : ComesToDrop (r >>= k) did request) :
    ComesToDrop r did request ∨ ∃ a first rest, did = first ++ rest ∧
      r.Performs contending.answers contending.keep first a ∧ ComesToDrop (k a) rest request := by
  obtain ⟨next, hWay⟩ := h
  rcases hWay.of_bind with ⟨r', hFirst, hEq⟩ | ⟨a, first, rest, rfl, hFirst, hRest⟩
  · cases r' with
    | done a => exact .inr ⟨a, did, [], (List.append_nil did).symm, hFirst, next, hEq ▸ .nil⟩
    | call c others =>
      cases hEq
      exact .inl ⟨others, hFirst⟩
    | _ => cases hEq
  · exact .inr ⟨a, first, rest, rfl, hFirst, next, hRest⟩

theorem ComesToDrop.of_last {r : Activity α} {k : α → Activity β} (h : ComesToDrop (r >>= k) did request)
    (hRest : ∀ a, (k a).Within lasting fun _ => True) : ComesToDrop r did request := by
  rcases h.of_bind with hFirst | ⟨a, _, _, -, -, hSecond⟩
  · exact hFirst
  · exact (not_comesToDrop (hRest a) hSecond).elim

theorem ComesToDrop.of_first {w : Work α} {k : α → Work β} (h : ComesToDrop (w >>= k).run did request)
    (hFirst : w.run.Within lasting fun _ => True) :
    ∃ a first rest, did = first ++ rest ∧ ComesToDrop (k a).run rest request := by
  rcases ComesToDrop.of_bind (r := w.run) (k := ExceptT.bindCont k) h with hHere | ⟨why | a, first, rest, hDid, -, hSecond⟩
  · exact (not_comesToDrop hFirst hHere).elim
  · exact (not_comesToDrop (r := pure (Except.error why)) trivial hSecond).elim
  · exact ⟨a, first, rest, hDid, hSecond⟩

/-- Work after which nothing is withdrawn. -/
theorem ComesToDrop.of_work {w : Work α} {k : α → Work β} (h : ComesToDrop (w >>= k).run did request)
    (hRest : ∀ a, (k a).run.Within lasting fun _ => True) : ComesToDrop w.run did request := by
  refine ComesToDrop.of_last (r := w.run) (k := ExceptT.bindCont k) h ?_
  rintro (why | a)
  · trivial
  · exact hRest a

/-- A step of a thread that is looked up. -/
def looked (thread : ThreadId) (d : Debuggee) : Doing Debuggee World := ⟨none, d, (takeStep thread d).2⟩

theorem of_clearStep (h : ComesToDrop (clearStep thread).run did request) :
    ∃ d, did = [looked thread d] ∧ lookup thread d.pendingSteps = some request := by
  obtain ⟨next, hWay⟩ := h
  rcases Routine.Advances.of_atomic hWay with ⟨-, hEq⟩ | ⟨d, rest, rfl, hRest⟩
  · cases hEq
  refine ⟨d, ?_⟩
  cases hFound : lookup thread d.pendingSteps with
  | none =>
    simp only [takeStep, hFound] at hRest
    exact (not_comesToDrop (r := pure (.ok ())) trivial ⟨next, hRest⟩).elim
  | some found =>
    simp only [takeStep, hFound] at hRest
    have hThere : ComesToDrop (withdrawRequest .singleStep found).run rest request := by
      have hLifted := ComesToDrop.of_work ⟨next, hRest⟩ fun a => lasting_of_unrelated (Stepping.unrelated_cleared found a)
      exact ComesToDrop.of_last hLifted fun _ => trivial
    obtain ⟨_, hWay⟩ := hThere
    rcases Routine.Advances.of_call hWay with ⟨rfl, hEq⟩ | ⟨a, d', rest, rfl, hAfter⟩
    · have hCommand : dropStep request = dropStep found := Call.command.inj (Routine.call.inj hEq).1
      exact ⟨rfl, by rw [dropStep_inj hCommand]⟩
    · refine (not_comesToDrop ?_ ⟨_, hAfter⟩).elim
      trivial

/-- A control withdraws a request only as the first thing that a step does. -/
theorem of_serve {c : Control} (h : ComesToDrop (Sigma.mk c <$> serve c.request : Activity (Outcome .client)) did request) :
    ∃ thread kind d, c = .step thread kind ∧ did = [looked thread d] ∧ lookup thread d.pendingSteps = some request := by
  rw [map_eq_pure_bind] at h
  have hServe := h.of_last fun _ => trivial
  cases c with
  | pause thread => exact (not_comesToDrop (lasting_of_unrelated (Stepping.unrelated_ask rfl)) hServe).elim
  | resume thread => exact (not_comesToDrop (lasting_of_unrelated (Stepping.unrelated_resume thread)) hServe).elim
  | step thread kind =>
    have hClear : ComesToDrop (clearStep thread).run did request := by
      refine ComesToDrop.of_work hServe fun _ => Attempt.within_seq (lasting_place kind) fun number => ?_
      refine Attempt.within_seq (lasting_modify _) fun _ => ?_
      exact lasting_of_unrelated (Stepping.unrelated_ask rfl)
    obtain ⟨d, hDid, hFound⟩ := of_clearStep hClear
    exact ⟨thread, kind, d, rfl, hDid, hFound⟩

/-- Of all events, only the end of a step makes the pump withdraw a request. -/
theorem of_handle {e : Jdwp.Event} (h : ComesToDrop (handle e).run did request) :
    ∃ thread l before d, e.happening = .step thread l ∧ did = before ++ [looked thread d] ∧
      lookup thread d.pendingSteps = some request := by
  cases hConcerns : Stepping.concernsSteps e with
  | false => exact (not_comesToDrop (lasting_of_unrelated (Stepping.unrelated_handle hConcerns)) h).elim
  | true =>
    obtain ⟨r, happening⟩ := e
    obtain ⟨_, before, rest, rfl, hRest⟩ := h.of_first (lasting_of_unrelated Stepping.looking_unrelated.notes)
    cases happening with
    | step thread l =>
      obtain ⟨d, rfl, hFound⟩ := of_clearStep (hRest.of_work fun _ => lasting_publish _)
      exact ⟨thread, l, before, d, rfl, rfl, hFound⟩
    | threadDeath thread =>
      exact (not_comesToDrop (Attempt.within_seq (lasting_modify _) fun _ => lasting_publish _) hRest).elim
    | _ => cases hConcerns

/-- How the pump goes on with the events behind one, when it has handled that one. -/
def handleRest (e : Jdwp.Event) (rest : List Jdwp.Event) : Except Error Bool → Activity Bool
  | .ok gone => if gone then return true else handleAll rest
  | .error why => do
    if why.isDisconnect then return true
    Routine.warn .debuggee s!"Failed to handle {e.happening.text}: {why.message}"
    handleAll rest

theorem handleAll_cons (e : Jdwp.Event) (rest : List Jdwp.Event) :
    handleAll (e :: rest) = (handle e).run >>= handleRest e rest := by
  refine congrArg _ (funext fun outcome => ?_)
  cases outcome <;> rfl

/-- Where the pump comes to withdraw a request after an event, it goes on with the other events, whatever they are. -/
theorem of_handleRest {e : Jdwp.Event} {rest : List Jdwp.Event} {outcome : Except Error Bool}
    (h : ComesToDrop (handleRest e rest outcome) did request) :
    ∃ noted since, did = noted ++ since ∧ ComesToDrop (handleAll rest) since request ∧
      ∀ {others first}, (handleAll others).Performs contending.answers contending.keep first false →
        (handleRest e others outcome).Performs contending.answers contending.keep (noted ++ first) false := by
  have hDone : ∀ {did}, ¬ComesToDrop (pure true : Activity Bool) did request := not_comesToDrop trivial
  cases outcome with
  | ok gone =>
    cases gone with
    | true => exact (hDone h).elim
    | false => exact ⟨[], did, rfl, h, fun hOthers => hOthers⟩
  | error why =>
    cases hGone : why.isDisconnect with
    | true =>
      simp only [handleRest, hGone] at h
      exact (hDone h).elim
    | false =>
      simp only [handleRest, hGone] at h ⊢
      rcases h.of_bind with hNoting | ⟨_, noted, since, rfl, hNoted, hRest⟩
      · exact (not_comesToDrop (lasting_of_unrelated Stepping.looking_unrelated.note) hNoting).elim
      · exact ⟨noted, since, rfl, hRest, fun hOthers => hNoted.bind hOthers⟩

/-- The pump comes to withdraw a request in the middle of handling an event, when it has handled those before it. -/
theorem of_handleAll {events : List Jdwp.Event} (h : ComesToDrop (handleAll events) did request) :
    ∃ handled e rest first since, events = handled ++ e :: rest ∧ did = first ++ since ∧
      (handleAll handled).Performs contending.answers contending.keep first false ∧
      ComesToDrop (handle e).run since request := by
  induction events generalizing did with
  | nil => exact (not_comesToDrop (r := handleAll []) trivial h).elim
  | cons e rest ih =>
    rw [handleAll_cons] at h
    rcases h.of_bind with hHere | ⟨outcome, first, after, rfl, hFirst, hRest⟩
    · exact ⟨[], e, rest, [], did, rfl, rfl, .nil, hHere⟩
    obtain ⟨noted, after, rfl, hThere, hAgain⟩ := of_handleRest hRest
    obtain ⟨handled, x, others, done, since, rfl, rfl, hDone, hLast⟩ := ih hThere
    refine ⟨e :: handled, x, others, first ++ (noted ++ done), since, rfl, by simp, ?_, hLast⟩
    rw [handleAll_cons]
    exact hFirst.bind (hAgain hDone)

theorem of_pump {s : EventSet} (h : ComesToDrop (pump s) did request) : ComesToDrop (handleAll s.events) did request := by
  refine h.of_last fun gone => ?_
  cases gone with
  | true => trivial
  | false =>
    change Routine.Within _ _ (if isPrepareSet s = true then resumeAfterPrepare s >>= _ else _)
    split
    · exact Routine.within_then (lasting_of_unrelated (Stepping.unrelated_resumeAfterPrepare s)) fun _ => trivial
    · trivial

end JvmDebug.Debuggee
