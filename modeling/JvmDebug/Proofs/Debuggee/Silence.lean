import JvmDebug.Proofs.Debuggee.Handling
import JvmDebug.Proofs.Routine.Replay

/-!
# Threads that stand still

A machine stops a thread with the events of a set. The pump then lets the thread go on, if the set only reports classes,
or tells that it has stopped. An exception is told of only if the machine tells its class; otherwise nobody hears of the
thread.
-/

namespace JvmDebug.Debuggee
set_option autoImplicit false

open Jdwp (ThreadId RequestId EventSet Query)
open PumpPhase (free)

/-- What others do leaves the placer to the pump while it is there. -/
def Respects (d d' : Debuggee) : Prop :=
  d.placerUser = some .pump → d'.placerUser = some .pump ∧ d'.placer = d.placer

/-- The pump among others, on a machine that is not gone. -/
def attending : Setting Unit EventSet Debuggee World Unit fun _ => Bool where
  takes _ s d r d' := r = pump s ∧ d' = d
  answers _ c a _ := Replies StillThere c a
  keep _ d := d
  outside d _ d' _ := Respects d d'

/-- The calls of the set that the pump took up last. -/
def calls (past : List (Moment Unit EventSet Debuggee World)) : List (Asked World) :=
  (deeds () past).filterMap (·.asked)

namespace Attending

def concert : Concert attending fun _ => PumpPhase where
  phases _ := pumping StillThere
  home _ g := ∃ log, g = free log
  post _ s gone g := ∃ did tail, g = free (did ++ tail) ∧ HandledAll StillThere s.events gone did ∧ Resumed s gone tail

structure Holds (φ : Unit → PumpPhase) (past : List (Moment Unit EventSet Debuggee World)) (d : Debuggee) : Prop where
  hand : (φ ()).Holds d
  log : (φ ()).log.filterMap Note.asked? = calls past

theorem keeps : concert.Keeps (fun _ _ => True) Holds where
  keep _ := rfl
  answered _ _ _ _ _ h := h
  fits _ h := h.hand.fits
  takes := by
    rintro φ past d ⟨⟩ s r _ - - ⟨rfl, rfl⟩ -
    refine ⟨free [], (passes_pump s).mono ?_, ?_⟩
    · rintro gone _ ⟨did, tail, rfl, hHandled, hResumed⟩
      exact ⟨did, tail, rfl, hHandled, hResumed⟩
    · refine ⟨trivial, ?_⟩
      rw [calls, deeds_snoc]
      simp [Moment.addTo, free]
  goes := by
    rintro φ past d ⟨⟩ s asked d' g hHolds hMoves -
    refine ⟨?_, ?_⟩
    · rw [Function.update_self]
      exact PumpPhase.Moves.holds hMoves hHolds.hand
    · rw [Function.update_self, PumpPhase.Moves.log hMoves, hHolds.log, calls, calls, deeds_snoc]
      cases asked <;> simp [Moment.addTo, List.filterMap_append]
  done := by
    rintro φ past d ⟨⟩ s gone hHolds ⟨did, tail, hFree, -, -⟩
    refine ⟨⟨_, hFree⟩, hHolds.hand, ?_⟩
    rw [hHolds.log, calls, calls, deeds_snoc]
    rfl
  outside := by
    rintro φ past d ⟨⟩ d' ⟨⟩ hHolds hRespects
    refine ⟨?_, ?_⟩
    · have hHand := hHolds.hand
      rw [PumpPhase.Holds] at hHand ⊢
      split at hHand
      · obtain ⟨hUser, hPlacer⟩ := hRespects hHand.1
        exact ⟨hUser, hPlacer.trans hHand.2⟩
      · trivial
      · trivial
    · rw [hHolds.log, calls, calls, deeds_snoc]
      rfl

end Attending

/-! ## What is heard -/

variable {thread : ThreadId} {s : EventSet} {e : Jdwp.Event} {o : Except Error Bool} {part did : List Note}
  {gone : Bool} {events : List Jdwp.Event}

/-- The events by which it is told that a thread has stopped. -/
def IsStop (thread : ThreadId) : DebugEvent → Prop
  | .breakpointHit t | .step t | .exceptionThrown t _ => t = thread
  | .threadChanged .. | .breakpointResolved .. | .exited _ => False

/-- Whether it is told that the thread of an event has stopped: of an exception only if it was described. -/
def Told (e : Jdwp.Event) (part : List Note) : Prop :=
  match e.happening with
  | .breakpoint .. | .step .. => True
  | .exception _ _ thrown _ => ∀ why, ¬Undescribed StillThere thrown.id why part
  | _ => False

/-- A set of events that stopped one thread: a breakpoint, a step, an exception, or a class that is prepared. -/
structure Suspends (s : EventSet) (thread : ThreadId) : Prop where
  some : s.events ≠ []
  policy : s.policy = Jdwp.SuspendPolicy.eventThread.toByte ∨ s.policy = Jdwp.SuspendPolicy.all.toByte
  thread : ∀ e ∈ s.events, e.happening.thread? = .some thread
  kinds : ∀ e ∈ s.events, e.kind ∈ [Jdwp.EventKind.breakpoint, .singleStep, .exception, .classPrepare]

theorem Undescribed.tolerated {object : Jdwp.ObjectId} {why : Error} (h : Undescribed StillThere object why part) :
    why.isDisconnect = false := by
  cases h with
  | noClass hTells hError => exact (Error.isDisconnect_ofJdwp _).trans (hTells.still_there hError)
  | noSignature _ hTells hError => exact (Error.isDisconnect_ofJdwp _).trans (hTells.still_there hError)
  | gone _ hBlames _ => exact hBlames.still_there

/-- Only its end ends a machine that is there. -/
theorem Handled.not_ends (h : Handled StillThere e o part) (hAlive : e.happening ≠ .vmDeath) : ¬Ends o := by
  cases h with
  | stepFails _ hDies => exact hDies.not_still_there.elim
  | exceptionFails hUndescribed => simp [Ends, hUndescribed.tolerated]
  | classPrepareFails _ hPrepares =>
    obtain ⟨_, hOk, -⟩ := hPrepares.finds
    cases hOk
  | vmDeath => exact (hAlive rfl).elim
  | _ => exact Bool.false_ne_true

theorem HandledAll.parts (h : HandledAll StillThere events gone did) (hAlive : ∀ e ∈ events, e.happening ≠ .vmDeath) :
    gone = false ∧ ∃ parts : List (List Note), did = parts.flatten ∧
      List.Forall₂ (fun e part => ∃ o, Handled StillThere e o part) events parts := by
  induction h with
  | nil => exact ⟨rfl, [], rfl, .nil⟩
  | goesOn hHandled _ _ ih =>
    obtain ⟨hGone, parts, rfl, hParts⟩ := ih fun e he => hAlive e (List.mem_cons_of_mem _ he)
    exact ⟨hGone, _ :: parts, rfl, .cons ⟨_, hHandled⟩ hParts⟩
  | ends hHandled hEnds => exact (hHandled.not_ends (hAlive _ List.mem_cons_self) hEnds).elim

/-- It is told once that the thread of an event has stopped, or not at all. -/
theorem Handled.told_iff (h : Handled StillThere e o part) (hThread : e.happening.thread? = some thread) :
    Told e part ↔ ∃ x, IsStop thread x ∧ Note.published x ∈ part := by
  have hSilent : ∀ {did : List Note}, Commands did → ∀ x, Note.published x ∉ did := by
    intro did hCommands x hx
    obtain ⟨c, reply, hEq⟩ := hCommands _ hx
    cases hEq
  cases h with
  | breakpoint =>
    cases hThread
    exact iff_of_true trivial ⟨.breakpointHit thread, rfl, List.mem_singleton_self _⟩
  | step _ =>
    cases hThread
    exact iff_of_true trivial ⟨.step thread, rfl, List.mem_append_right _ (List.mem_singleton_self _)⟩
  | stepFails _ hDies => exact hDies.not_still_there.elim
  | @exception _ _ _ _ _ x _ _ =>
    cases hThread
    refine iff_of_true (fun why hUndescribed => ?_)
      ⟨.exceptionThrown thread x, rfl, List.mem_append_right _ (List.mem_singleton_self _)⟩
    exact hSilent hUndescribed.commands _ (List.mem_append_right _ (List.mem_singleton_self _))
  | exceptionFails hUndescribed =>
    refine iff_of_false (fun hTold => hTold _ hUndescribed) ?_
    rintro ⟨x, -, hx⟩
    exact hSilent hUndescribed.commands x hx
  | classPrepare hCommands _ =>
    refine iff_of_false id ?_
    rintro ⟨x, hStop, hx⟩
    rcases List.mem_append.mp hx with hx | hx
    · exact hSilent hCommands x hx
    · rcases List.mem_cons.mp hx with hx | hx
      · cases hx
      · obtain ⟨y, -, hEq⟩ := List.mem_map.mp hx
        cases hEq
        exact hStop
  | classPrepareFails _ hPrepares =>
    obtain ⟨_, hOk, -⟩ := hPrepares.finds
    cases hOk
  | threadStart | threadDeath =>
    refine iff_of_false id ?_
    rintro ⟨x, hStop, hx⟩
    cases List.mem_singleton.mp hx
    exact hStop
  | vmDeath | vmStart | methodEntry | methodExit => exact iff_of_false id (by simp)

theorem Suspends.resumeQuery? (h : Suspends s thread) : (Debuggee.resumeQuery? s).isSome := by
  unfold Debuggee.resumeQuery?
  split
  · rfl
  · next hOther =>
    rw [if_pos (h.policy.resolve_right hOther)]
    obtain ⟨e, rest, hEvents⟩ := List.exists_cons_of_ne_nil h.some
    rw [hEvents, List.head?_cons, Option.bind_some, h.thread e (by rw [hEvents]; exact List.mem_cons_self)]
    rfl

theorem mem_asked {notes : List Note} {x : Asked World} : x ∈ notes.filterMap Note.asked? ↔ Note.asked x ∈ notes := by
  rw [List.mem_filterMap]
  constructor
  · rintro ⟨note, hNote, hAsked⟩
    cases note with
    | asked y =>
      cases hAsked
      exact hNote
    | prepared => cases hAsked
  · exact fun h => ⟨_, h, rfl⟩

theorem told_iff_of_parts {parts : List (List Note)}
    (hParts : List.Forall₂ (fun e part => ∃ o, Handled StillThere e o part) events parts)
    (hThread : ∀ e ∈ events, e.happening.thread? = some thread) :
    (∃ x ∈ events.zip parts, Told x.1 x.2) ↔ ∃ x, IsStop thread x ∧ Note.published x ∈ parts.flatten := by
  induction hParts with
  | nil => simp
  | cons hHandled _ ih =>
    obtain ⟨o, hHandled⟩ := hHandled
    rw [List.zip_cons_cons, List.exists_mem_cons_iff, hHandled.told_iff (hThread _ List.mem_cons_self),
      ih fun e he => hThread e (List.mem_cons_of_mem _ he), ← exists_or]
    refine exists_congr fun x => ?_
    rw [List.flatten_cons, List.mem_append, and_or_left]

/-- What is heard of a thread that was stopped: the set that stopped it is handled to its end, and it is told that the
thread has stopped if one of the events is a breakpoint, a step, or an exception that the machine described. The thread
is let go on if the set only reports classes. -/
structure Heard (s : EventSet) (thread : ThreadId) (did : List (Asked World)) (parts : List (List Note))
    (tail : List Note) : Prop where
  calls : did = (parts.flatten ++ tail).filterMap Note.asked?
  handled : List.Forall₂ (fun e part => ∃ o, Handled StillThere e o part) s.events parts
  told : (∃ x, IsStop thread x ∧ (⟨.publish x, ()⟩ : Asked World) ∈ did) ↔ ∃ x ∈ s.events.zip parts, Told x.1 x.2
  resumed : if isPrepareSet s then ∃ q reply, resumeQuery? s = some q ∧ tail = [.command q.command reply] else tail = []

theorem heard {d : Debuggee} {past : List (Moment Unit EventSet Debuggee World)}
    {now : Scene Unit EventSet Debuggee World Unit fun _ => Bool} (hLeads : attending.Leads (.idle d ()) past now)
    (hDone : now.busy () = some (s, .done gone)) (hSuspends : Suspends s thread) :
    gone = false ∧ ∃ parts tail, Heard s thread (calls past) parts tail := by
  obtain ⟨φ, hPlays, hHolds⟩ := hLeads.plays (φ := fun _ => free []) Attending.keeps (fun _ => rfl) (fun _ => ⟨[], rfl⟩)
    ⟨trivial, rfl⟩
  have hHere := hPlays ()
  rw [Concert.Plays, hDone] at hHere
  obtain ⟨did, tail, hFree, hHandled, hResumed⟩ := hHere
  have hLog : calls past = (did ++ tail).filterMap Note.asked? := by
    rw [← hHolds.log, hFree]
    rfl
  have hAlive : ∀ e ∈ s.events, e.happening ≠ .vmDeath := by
    intro e he hDeath
    have hThread := hSuspends.thread e he
    rw [hDeath] at hThread
    cases hThread
  obtain ⟨rfl, parts, rfl, hParts⟩ := hHandled.parts hAlive
  have hTail : ∀ x, Note.published x ∉ tail := by
    intro x hx
    cases hResumed with
    | resumes => cases List.mem_singleton.mp hx
    | _ => cases hx
  refine ⟨rfl, parts, tail, hLog, hParts, ?_, ?_⟩
  · rw [told_iff_of_parts hParts hSuspends.thread]
    refine exists_congr fun x => and_congr_right fun _ => ?_
    rw [hLog, mem_asked, List.mem_append]
    exact or_iff_left (hTail x)
  · cases hResumed with
    | stands hOthers =>
      rw [hOthers]
      rfl
    | never _ hNever =>
      have hSome := hSuspends.resumeQuery?
      rw [hNever] at hSome
      cases hSome
    | resumes hPrepares hQuery =>
      rw [if_pos hPrepares]
      exact ⟨_, _, hQuery, rfl⟩

/-! ## A thread that nobody hears of -/

/-- Replies to commands, as far as they matter. -/
def replying (reply : Jdwp.Command → Except Jdwp.Error Jdwp.Reply)
    (h : ∀ c, Replies StillThere (.command c) (reply c)) : Script attending EventSet Empty where
  take? _ s d := some (s, pump s, d)
  answer?
    | (), .command c => some (reply c, ())
    | (), .publish _ => some ((), ())
    | (), .exitCode => some (none, ())
    | (), .kill => some (.ok (), ())
  come? := nofun
  takes h := by
    cases h
    exact ⟨rfl, rfl⟩
  answers {_ c _ _} hAnswer := by
    cases c with
    | command c =>
      cases hAnswer
      exact h c
    | _ => trivial
  outside {x} := nomatch x

/-- The machine says of every command that it is about an object that is gone. -/
def refusal (_ : Jdwp.Command) : Except Jdwp.Error Jdwp.Reply := .ok ⟨0, Jdwp.ErrorCode.invalidObject, []⟩

theorem refusal_stillThere (c : Jdwp.Command) : Replies StillThere (.command c) (refusal c) := by
  intro e h
  cases h
  decide

def attached : Debuggee := { origin := .attached, book := {}, placer := { index := {}, root := ⟨"/w"⟩ } }

def thrownAlone : EventSet := ⟨1, [⟨3, .exception 7 ⟨1, 4, 5, 6⟩ ⟨76, 9⟩ none⟩]⟩

def hit : EventSet := ⟨1, [⟨2, .breakpoint 7 ⟨1, 4, 5, 6⟩⟩]⟩

def handling (s : EventSet) (steps : Nat) : List (Cue Unit EventSet Empty) :=
  .takesUp () s :: List.replicate steps (.goesOn ())

def isDoneWith (s : EventSet) : Option (EventSet × Routine Debuggee World Bool) → Bool
  | some (job, .done gone) => job = s && !gone
  | _ => false

theorem eq_of_isDoneWith {b : Option (EventSet × Routine Debuggee World Bool)} (h : isDoneWith s b = true) :
    b = some (s, .done false) := by
  unfold isDoneWith at h
  split at h
  · obtain ⟨rfl, rfl⟩ : _ = s ∧ _ = false := by simpa using h
    rfl
  · cases h

theorem heard_hit : ∃ past now, attending.Leads (.idle attached ()) past now ∧ now.busy () = some (hit, .done false) ∧
    ∃ parts tail, Heard hit 7 (calls past) parts tail := by
  obtain ⟨past, now, hLeads, hCheck⟩ := (replying refusal refusal_stillThere).leads_of_check (handling hit 2)
    (.idle attached ()) (fun _ now => isDoneWith hit (now.busy ())) (by decide +kernel)
  have hDone := eq_of_isDoneWith hCheck
  have hSuspends : Suspends hit 7 := ⟨by decide, by decide, by decide, by decide⟩
  exact ⟨past, now, hLeads, hDone, (heard hLeads hDone hSuspends).2⟩

/-- An exception whose class is refused leaves its thread standing: nothing is published and the thread is not let go
on. -/
theorem unheard_thrownAlone : ∃ past now, attending.Leads (.idle attached ()) past now ∧
    now.busy () = some (thrownAlone, .done false) ∧ Suspends thrownAlone 7 ∧
    ∀ x ∈ calls past, x.1 = .command (Query.classOf 9).command := by
  obtain ⟨past, now, hLeads, hCheck⟩ := (replying refusal refusal_stillThere).leads_of_check (handling thrownAlone 3)
    (.idle attached ()) (fun past now => isDoneWith thrownAlone (now.busy ()) && (calls past).all fun x =>
      match x.1 with
      | .command c => c = (Query.classOf 9).command
      | _ => false) (by decide +kernel)
  obtain ⟨hDone, hAll⟩ := Bool.and_eq_true_iff.mp hCheck
  refine ⟨past, now, hLeads, eq_of_isDoneWith hDone, ⟨by decide, by decide, by decide, by decide⟩, fun x hx => ?_⟩
  have hOnly := List.all_eq_true.mp hAll x hx
  split at hOnly
  · next hCommand => rw [hCommand, of_decide_eq_true hOnly]
  · cases hOnly

end JvmDebug.Debuggee
