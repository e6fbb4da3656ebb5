import JvmDebug.Proofs.Debuggee.Pumping

/-!
# What the pump does with events

For each event the pump does what the event means and no more: it publishes at most one event of its own, after asking
what it has to know, or places the breakpoints of a class and publishes those that have code then. A set is handled in
its order, up to the event with which the machine is gone.
-/

namespace JvmDebug.Debuggee
set_option autoImplicit false

open Jdwp (ClassId ObjectId ThreadId RequestId LoadedClass Query Happening)
open PumpPhase (free)

variable {errors : Jdwp.Error → Prop} {log : List Note}

def resolved (found : List (Int × UInt32)) : List Note := found.map fun x => .published (.breakpointResolved x.1 x.2)

/-- What handling an event came to, and what was done for it. -/
inductive Handled (errors : Jdwp.Error → Prop) : Jdwp.Event → Except Error Bool → List Note → Prop where
  | breakpoint {r : RequestId} {thread : ThreadId} {l : Jdwp.Location} :
      Handled errors ⟨r, .breakpoint thread l⟩ (.ok false) [.published (.breakpointHit thread)]
  | step {r : RequestId} {thread : ThreadId} {l : Jdwp.Location} {did : List Note} : Commands did →
      Handled errors ⟨r, .step thread l⟩ (.ok false) (did ++ [.published (.step thread)])
  | stepFails {r : RequestId} {thread : ThreadId} {l : Jdwp.Location} {why : Error} {did : List Note} : Commands did →
      Dies errors (.error why : Except Error Unit) → Handled errors ⟨r, .step thread l⟩ (.error why) did
  | exception {r : RequestId} {thread : ThreadId} {l : Jdwp.Location} {thrown : Jdwp.TaggedObject}
      {caughtAt : Option Jdwp.Location} {x : Thrown} {did : List Note} : Described thrown.id did →
      Handled errors ⟨r, .exception thread l thrown caughtAt⟩ (.ok false)
        (did ++ [.published (.exceptionThrown thread x)])
  | exceptionFails {r : RequestId} {thread : ThreadId} {l : Jdwp.Location} {thrown : Jdwp.TaggedObject}
      {caughtAt : Option Jdwp.Location} {why : Error} {did : List Note} : Undescribed errors thrown.id why did →
      Handled errors ⟨r, .exception thread l thrown caughtAt⟩ (.error why) did
  | threadStart {r : RequestId} {thread : ThreadId} :
      Handled errors ⟨r, .threadStart thread⟩ (.ok false) [.published (.threadChanged thread .started)]
  | threadDeath {r : RequestId} {thread : ThreadId} :
      Handled errors ⟨r, .threadDeath thread⟩ (.ok false) [.published (.threadChanged thread .exited)]
  | classPrepare {r : RequestId} {thread : ThreadId} {tag : UInt8} {c : ClassId} {signature : String} {status : Int32}
      {before after : Placer} {found : List (Int × UInt32)} {did : List Note} : Commands did →
      Prepares errors r ⟨tag, c⟩ before after (.ok found) →
      Handled errors ⟨r, .classPrepare thread tag c signature status⟩ (.ok false)
        (did ++ .prepared r ⟨tag, c⟩ before after (.ok found) :: resolved found)
  | classPrepareFails {r : RequestId} {thread : ThreadId} {tag : UInt8} {c : ClassId} {signature : String}
      {status : Int32} {before after : Placer} {why : Error} {did : List Note} : Commands did →
      Prepares errors r ⟨tag, c⟩ before after (.error why) →
      Handled errors ⟨r, .classPrepare thread tag c signature status⟩ (.error why)
        (did ++ [.prepared r ⟨tag, c⟩ before after (.error why)])
  | vmDeath {r : RequestId} : Handled errors ⟨r, .vmDeath⟩ (.ok true) []
  | vmStart {r : RequestId} {thread : ThreadId} : Handled errors ⟨r, .vmStart thread⟩ (.ok false) []
  | methodEntry {r : RequestId} {thread : ThreadId} {l : Jdwp.Location} :
      Handled errors ⟨r, .methodEntry thread l⟩ (.ok false) []
  | methodExit {r : RequestId} {thread : ThreadId} {l : Jdwp.Location} :
      Handled errors ⟨r, .methodExit thread l⟩ (.ok false) []

/-! ## Classes -/

theorem passes_publishResolved (found : List (Int × UInt32)) :
    (publishResolved found).Passes (pumping errors) (fun _ g => g = free (log ++ resolved found))
      ⟨log, .owes found⟩ := by
  induction found generalizing log with
  | nil =>
    change free log = _
    rw [resolved, List.map_nil, List.append_nil]
  | cons x rest ih =>
    obtain ⟨id, line⟩ := x
    refine fun d _ => ⟨_, .marks, fun d _ _ _ => ⟨_, .resolves, ih.mono ?_⟩⟩
    rintro _ _ rfl
    simp [resolved]

/-- The phases of the pump in which it is at the placer. -/
theorem atPlacer (before : Placer) : AtPlacer (pumping errors) (fun log now => ⟨log, .holds before now⟩)
    (fun log x => log ++ [.command x.1 x.2]) where
  keep := rfl
  fits h := h
  waits := trivial
  places p h := by
    obtain rfl := h
    exact .places p
  asks _ _ := .asksThere

theorem foldl_commands (asked : List (Asked Jdwp.Wire)) (log : List Note) :
    ∃ did, Commands did ∧ asked.foldl (fun log x => log ++ [.command x.1 x.2]) log = log ++ did := by
  induction asked generalizing log with
  | nil => exact ⟨[], commands_nil, by simp⟩
  | cons x rest ih =>
    obtain ⟨did, hCommands, hEq⟩ := ih (log ++ [.command x.1 x.2])
    refine ⟨.command x.1 x.2 :: did, (commands_one x.1 x.2).append hCommands, ?_⟩
    rw [List.foldl_cons, hEq, List.append_assoc, List.singleton_append]

theorem passes_classPrepared (request : RequestId) (c : LoadedClass) :
    (classPrepared request c).run.Passes (pumping errors) (fun a g => ∃ did before after, Commands did ∧
      match a with
      | .ok _ => ∃ found, Prepares errors request c before after (.ok found) ∧
          g = free (log ++ (did ++ .prepared request c before after (.ok found) :: resolved found))
      | .error why => Prepares errors request c before after (.error why) ∧
          g = free (log ++ (did ++ [.prepared request c before after (.error why)]))) (free log) := by
  refine Attempt.passes_bind (Attempt.passes_lift ⟨waits_free, fun d _ => ⟨fun hFree => ?_, nofun⟩⟩)
  refine ⟨_, .takes (by simpa using hFree), ?_⟩
  refine Attempt.passes_bind (Attempt.passes_lift (((atPlacer d.placer).passes (fun c => gives_serve)
    (Placer.classPrepared_unwaiting request c) log d.placer).mono ?_))
  rintro outcome _ ⟨asked, now, rfl, hRun⟩
  obtain ⟨did, hCommands, hLog⟩ := foldl_commands asked log
  rw [hLog]
  refine Attempt.passes_bind (Attempt.passes_lift fun d _ => ⟨_, .leaves hRun, ?_⟩)
  cases outcome with
  | error why => exact ⟨did, _, _, hCommands, hRun, by rw [List.append_assoc]; rfl⟩
  | ok found =>
    refine Attempt.passes_bind (Attempt.passes_lift ((passes_publishResolved found).mono ?_))
    rintro _ _ rfl
    refine ⟨did, _, _, hCommands, found, hRun, ?_⟩
    simp

/-! ## One event -/

theorem passes_handle (e : Jdwp.Event) :
    (handle e).run.Passes (pumping errors) (fun o g => ∃ did, g = free (log ++ did) ∧ Handled errors e o did)
      (free log) := by
  obtain ⟨r, happening⟩ := e
  refine Attempt.passes_bind (Attempt.passes_lift (passes_note.mono ?_))
  rintro _ _ rfl
  -- What is published goes behind what was done for it.
  have hPublish : ∀ (x : DebugEvent) (did : List Note) {log' : List Note}, log' = log ++ did →
      (∀ id line, x ≠ .breakpointResolved id line) → Handled errors ⟨r, happening⟩ (.ok false) (did ++ [.published x]) →
      (ExceptT.run (do ExceptT.lift (publish x); return false : Work Bool)).Passes (pumping errors)
        (fun o g => ∃ did, g = free (log ++ did) ∧ Handled errors ⟨r, happening⟩ o did) (free log') := by
    rintro x did _ rfl hOther hHandled
    refine Attempt.passes_bind (Attempt.passes_lift ((passes_publish hOther).mono ?_))
    rintro _ _ rfl
    exact ⟨did ++ [.published x], by rw [List.append_assoc], hHandled⟩
  have hNothing : log = log ++ [] := by rw [List.append_nil]
  cases happening with
  | breakpoint thread l =>
    exact hPublish (.breakpointHit thread) [] hNothing nofun .breakpoint
  | step thread l =>
    refine Attempt.passes_bind ((passes_musing (within_clearStep thread) (dies_clearStep thread)).mono ?_)
    rintro a _ ⟨hDies, did, hCommands, rfl⟩
    cases a with
    | error why => exact ⟨did, rfl, .stepFails hCommands hDies⟩
    | ok _ => exact hPublish (.step thread) did rfl nofun (.step hCommands)
  | exception thread l thrown caughtAt =>
    refine Attempt.passes_bind ((passes_describeException thrown.id caughtAt.isSome).mono ?_)
    rintro a _ ⟨did, rfl, hDescribed⟩
    cases a with
    | error why => exact ⟨did, rfl, .exceptionFails hDescribed⟩
    | ok x => exact hPublish (.exceptionThrown thread x) did rfl nofun (.exception hDescribed)
  | threadStart thread =>
    exact hPublish (.threadChanged thread .started) [] hNothing nofun .threadStart
  | threadDeath thread =>
    refine Attempt.passes_bind (Attempt.passes_lift ((passes_aside fun d => ⟨_, _, _, rfl⟩).mono ?_))
    rintro _ _ rfl
    exact hPublish (.threadChanged thread .exited) [] hNothing nofun .threadDeath
  | classPrepare thread tag c signature status =>
    refine Attempt.passes_bind (Attempt.passes_lift (passes_note.mono ?_))
    rintro _ _ rfl
    refine Attempt.passes_bind ((passes_classPrepared r ⟨tag, c⟩).mono ?_)
    rintro a _ ⟨did, before, after, hCommands, hOutcome⟩
    cases a with
    | error why =>
      obtain ⟨hPrepares, rfl⟩ := hOutcome
      exact ⟨_, rfl, .classPrepareFails hCommands hPrepares⟩
    | ok _ =>
      obtain ⟨found, hPrepares, rfl⟩ := hOutcome
      exact ⟨_, rfl, .classPrepare hCommands hPrepares⟩
  | vmDeath =>
    refine Attempt.passes_bind (Attempt.passes_lift (passes_note.mono ?_))
    rintro _ _ rfl
    exact ⟨[], by rw [List.append_nil], .vmDeath⟩
  | vmStart thread => exact ⟨[], by rw [List.append_nil], .vmStart⟩
  | methodEntry thread l => exact ⟨[], by rw [List.append_nil], .methodEntry⟩
  | methodExit thread l => exact ⟨[], by rw [List.append_nil], .methodExit⟩

/-! ## A set of events -/

/-- The machine is gone after an event. -/
def Ends : Except Error Bool → Prop
  | .ok gone => gone = true
  | .error why => why.isDisconnect = true

/-- What handling events came to, one after the other. -/
inductive HandledAll (errors : Jdwp.Error → Prop) : List Jdwp.Event → Bool → List Note → Prop where
  | nil : HandledAll errors [] false []
  | goesOn {e : Jdwp.Event} {rest : List Jdwp.Event} {o : Except Error Bool} {gone : Bool} {did others : List Note} :
      Handled errors e o did → ¬Ends o → HandledAll errors rest gone others →
      HandledAll errors (e :: rest) gone (did ++ others)
  | ends {e : Jdwp.Event} {rest : List Jdwp.Event} {o : Except Error Bool} {did : List Note} :
      Handled errors e o did → Ends o → HandledAll errors (e :: rest) true did

theorem passes_handleAll (events : List Jdwp.Event) :
    (handleAll events).Passes (pumping errors) (fun gone g => ∃ did, g = free (log ++ did) ∧
      HandledAll errors events gone did) (free log) := by
  induction events generalizing log with
  | nil => exact ⟨[], by rw [List.append_nil], .nil⟩
  | cons e rest ih =>
    have hRest : ∀ (o : Except Error Bool) (did : List Note), Handled errors e o did → ¬Ends o →
        (handleAll rest).Passes (pumping errors) (fun gone g => ∃ did, g = free (log ++ did) ∧
          HandledAll errors (e :: rest) gone did) (free (log ++ did)) := by
      intro o did hHandled hGoesOn
      refine ih.mono ?_
      rintro gone _ ⟨others, rfl, hOthers⟩
      exact ⟨did ++ others, by rw [List.append_assoc], .goesOn hHandled hGoesOn hOthers⟩
    refine Routine.Passes.bind ((passes_handle e).mono ?_)
    rintro o _ ⟨did, rfl, hHandled⟩
    cases o with
    | ok gone =>
      cases gone with
      | true => exact ⟨did, rfl, .ends hHandled rfl⟩
      | false => exact hRest _ did hHandled nofun
    | error why =>
      change Routine.Passes _ _ (if why.isDisconnect = true then return true else _) _
      split
      · next hGone => exact ⟨did, rfl, .ends hHandled hGone⟩
      · next hStays =>
        refine Routine.Passes.bind (passes_note.mono ?_)
        rintro _ _ rfl
        exact hRest _ did hHandled hStays

/-- What was done behind a set of events: the threads that stand still for classes only are let go on. -/
inductive Resumed (s : Jdwp.EventSet) : Bool → List Note → Prop where
  | gone : Resumed s true []
  | stands : isPrepareSet s = false → Resumed s false []
  | never : isPrepareSet s = true → resumeQuery? s = none → Resumed s false []
  | resumes {q : Query Unit} {reply : Except Jdwp.Error Jdwp.Reply} : isPrepareSet s = true →
      resumeQuery? s = some q → Resumed s false [.command q.command reply]

theorem passes_pump (s : Jdwp.EventSet) :
    (pump s).Passes (pumping errors) (fun gone g => ∃ did tail, g = free (log ++ (did ++ tail)) ∧
      HandledAll errors s.events gone did ∧ Resumed s gone tail) (free log) := by
  refine Routine.Passes.bind ((passes_handleAll s.events).mono ?_)
  rintro gone _ ⟨did, rfl, hHandled⟩
  cases gone with
  | true => exact ⟨did, [], by rw [List.append_nil], hHandled, .gone⟩
  | false =>
    change Routine.Passes _ _ (if isPrepareSet s = true then resumeAfterPrepare s >>= _ else _) _
    split
    · next hPrepares =>
      refine Routine.Passes.bind ?_
      unfold resumeAfterPrepare
      split
      · next hNever => exact ⟨did, [], by rw [List.append_nil], hHandled, .never hPrepares hNever⟩
      · next q hQuery =>
        refine Routine.Passes.bind (passes_query.mono ?_)
        rintro a _ ⟨reply, -, rfl, rfl⟩
        have hDone : ∃ did' tail, free (log ++ did ++ [.command q.command reply]) = free (log ++ (did' ++ tail)) ∧
            HandledAll errors s.events false did' ∧ Resumed s false tail :=
          ⟨did, _, by rw [List.append_assoc], hHandled, .resumes hPrepares hQuery⟩
        split
        · exact hDone
        · refine passes_note.mono ?_
          rintro _ _ rfl
          exact hDone
    · next hOthers => exact ⟨did, [], by rw [List.append_nil], hHandled, .stands (by simpa using hOthers)⟩

/-! ## What is published -/

/-- The event that a call publishes. -/
def announced? : Asked World → Option DebugEvent
  | ⟨.publish e, _⟩ => some e
  | _ => none

/-- The events that were published. -/
def publications (did : List Note) : List DebugEvent := (did.filterMap Note.asked?).filterMap announced?

variable {did did' : List Note}

theorem publications_append : publications (did ++ did') = publications did ++ publications did' := by
  simp [publications]

theorem publications_flatten (parts : List (List Note)) : publications parts.flatten = parts.flatMap publications := by
  induction parts with
  | nil => rfl
  | cons part rest ih => rw [List.flatten_cons, publications_append, ih, List.flatMap_cons]

theorem publications_commands (h : Commands did) : publications did = [] := by
  refine List.filterMap_eq_nil_iff.mpr fun x hx => ?_
  obtain ⟨note, hNote, hAsked⟩ := List.mem_filterMap.mp hx
  obtain ⟨c, reply, rfl⟩ := h note hNote
  cases hAsked
  rfl

theorem publications_resolved (found : List (Int × UInt32)) :
    publications (resolved found) = found.map fun x => .breakpointResolved x.1 x.2 := by
  induction found with
  | nil => rfl
  | cons x rest ih => exact congrArg (List.cons _) ih

theorem Resumed.publications {s : Jdwp.EventSet} {gone : Bool} (h : Resumed s gone did) : publications did = [] := by
  cases h with
  | resumes => exact publications_commands (commands_one _ _)
  | _ => rfl

/-- What is published for an event: one event at most, about the same thread; for a class, the breakpoints that the
placer found there. -/
def Translates (errors : Jdwp.Error → Prop) (e : Jdwp.Event) (part : List Note) : Prop :=
  match e.happening with
  | .breakpoint thread _ => publications part = [.breakpointHit thread]
  | .step thread _ => publications part = [.step thread] ∨ publications part = []
  | .exception thread _ _ _ => (∃ x, publications part = [.exceptionThrown thread x]) ∨ publications part = []
  | .threadStart thread => publications part = [.threadChanged thread .started]
  | .threadDeath thread => publications part = [.threadChanged thread .exited]
  | .classPrepare _ tag c _ _ => ∃ before after outcome, Note.prepared e.request ⟨tag, c⟩ before after outcome ∈ part ∧
      Prepares errors e.request ⟨tag, c⟩ before after outcome ∧
      publications part = (foundIn outcome).map fun x => .breakpointResolved x.1 x.2
  | .vmDeath | .vmStart _ | .methodEntry .. | .methodExit .. => publications part = []

theorem Handled.translates {e : Jdwp.Event} {o : Except Error Bool} {part : List Note} (h : Handled errors e o part) :
    Translates errors e part := by
  cases h with
  | breakpoint | threadStart | threadDeath | vmDeath | vmStart | methodEntry | methodExit => rfl
  | step hCommands =>
    left
    rw [publications_append, publications_commands hCommands]
    rfl
  | stepFails hCommands _ => exact .inr (publications_commands hCommands)
  | @exception _ _ _ _ _ x _ hDescribed =>
    refine .inl ⟨x, ?_⟩
    rw [publications_append, publications_commands hDescribed.commands]
    rfl
  | exceptionFails hUndescribed => exact .inr (publications_commands hUndescribed.commands)
  | @classPrepare _ _ _ _ _ _ before after found did hCommands hPrepares =>
    refine ⟨before, after, .ok found, List.mem_append_right _ List.mem_cons_self, hPrepares, ?_⟩
    rw [publications_append, publications_commands hCommands]
    exact publications_resolved found
  | @classPrepareFails _ _ _ _ _ _ before after why did hCommands hPrepares =>
    refine ⟨before, after, .error why, List.mem_append_right _ List.mem_cons_self, hPrepares, ?_⟩
    rw [publications_append, publications_commands hCommands]
    rfl

/-- No event says that the machine has come to its end. -/
theorem Translates.not_exited {e : Jdwp.Event} {part : List Note} (h : Translates errors e part) (code : Option Int32) :
    DebugEvent.exited code ∉ publications part := by
  unfold Translates at h
  split at h
  case h_3 =>
    rcases h with ⟨x, h⟩ | h <;> simp [h]
  case h_6 =>
    obtain ⟨_, _, _, -, -, h⟩ := h
    simp [h]
  case h_2 =>
    rcases h with h | h <;> simp [h]
  all_goals simp [h]

/-- The events are handled up to the one with which the machine is gone, and each is told of in its turn. -/
theorem HandledAll.translates {events : List Jdwp.Event} {gone : Bool} (h : HandledAll errors events gone did) :
    ∃ handled rest parts, events = handled ++ rest ∧ did = parts.flatten ∧
      List.Forall₂ (Translates errors) handled parts ∧ (gone = false → rest = []) := by
  induction h with
  | nil => exact ⟨[], [], [], rfl, rfl, .nil, fun _ => rfl⟩
  | goesOn hHandled _ _ ih =>
    obtain ⟨handled, rest, parts, rfl, rfl, hParts, hRest⟩ := ih
    exact ⟨_ :: handled, rest, _ :: parts, rfl, rfl, .cons hHandled.translates hParts, hRest⟩
  | @ends e rest _ did hHandled _ =>
    exact ⟨[e], rest, [did], rfl, by simp, .cons hHandled.translates .nil, nofun⟩

end JvmDebug.Debuggee
