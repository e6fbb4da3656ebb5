import JvmDebug.Proofs.Placement.Chronicle

/-!
# Work on a source that the end of the machine cuts short

However a machine answers, and wherever it goes: a request that it grants while a source is placed in a class is on
record as soon as it is granted, and the source stays on record.
-/

namespace JvmDebug.Placer
set_option autoImplicit false

open Jdwp (LoadedClass Location RequestId EventKind)
open Backend (History Interleaved Rule sets clearings)

variable {α β : Type} {rule : Rule} {i i₁ i' : Installed} {p p' : Placer} {h h₁ h' : History}

/-- A request that is refused is passed over, and a machine that is gone ends the work. -/
theorem bind_trySource_ensures {answers : Answering Backend History}
    {post : Except Error β × Installed → Placer → History → Prop} {what : String}
    {r : Routine Placer Backend (Except Jdwp.Error α)} {k : Option α → SourceWork β}
    (hr : Routine.Ensures answers (fun answer p h =>
      (∀ a, answer = .ok a → Routine.Ensures answers post ((k (some a)).run.run i) p h) ∧
      ∀ e, answer = .error e → (e.isDisconnect = true → post (.error .disconnected, i) p h) ∧
        (e.isDisconnect = false → Routine.Ensures answers post ((k none).run.run i) p h)) r p h) :
    Routine.Ensures answers post ((trySource what r >>= k).run.run i) p h := by
  have hTried : Routine.Ensures answers (fun outcome p h =>
      (∀ e, outcome = .error e → post (.error e, i) p h) ∧
      ∀ a, outcome = .ok a → Routine.Ensures answers post ((k a).run.run i) p h) (try_ what r).run p h := by
    rw [try_, ExceptT.run_bind, ExceptT.run_lift, ← bind_pure_comp]
    apply Routine.Ensures.bind
    apply Routine.Ensures.bind
    apply Routine.Ensures.mono _ hr
    rintro (e | a) p h ⟨hOk, hRefused⟩
    · obtain ⟨hGone, hAlive⟩ := hRefused e rfl
      change Routine.Ensures _ _ (tolerate what (.error e)).run p h
      cases hDisconnect : e.isDisconnect with
      | true =>
        simp only [tolerate, hDisconnect, if_true]
        refine ⟨?_, by simp⟩
        rintro _ ⟨⟩
        exact hGone hDisconnect
      | false =>
        simp only [tolerate, hDisconnect, Bool.false_eq_true, if_false]
        refine ⟨by simp, ?_⟩
        rintro _ ⟨⟩
        exact hAlive hDisconnect
    · refine ⟨by simp, ?_⟩
      rintro _ ⟨⟩
      exact hOk a rfl
  rw [ExceptT.run_bind, StateT.run_bind, trySource, ExceptT.run_bind, StateT.run_bind, routine, ExceptT.run_lift,
    StateT.run_map, StateT.run_lift, map_bind]
  apply Routine.Ensures.bind
  apply Routine.Ensures.bind
  apply Routine.Ensures.bind
  apply Routine.Ensures.mono _ hTried
  rintro (e | a) p h ⟨hError, hOk⟩
  · exact hError e rfl
  · exact hOk a rfl

/-- The requests that were granted since are on record, beside those that were before. -/
structure Notes (i : Installed) (h : History) (i' : Installed) (h' : History) : Prop where
  revision : i'.revision = i.revision
  breakpoints : i'.breakpoints = i.breakpoints
  watches : i'.watches = i.watches
  placements : ∃ new, i'.placements = i.placements ++ new ∧ sets h' = sets h ++ new.map (·.held)
  clearings : clearings h' = clearings h

theorem Notes.refl : Notes i h i h := ⟨rfl, rfl, rfl, ⟨[], by simp⟩, rfl⟩

theorem Notes.trans (hFirst : Notes i h i₁ h₁) (hSecond : Notes i₁ h₁ i' h') : Notes i h i' h' where
  revision := hSecond.revision.trans hFirst.revision
  breakpoints := hSecond.breakpoints.trans hFirst.breakpoints
  watches := hSecond.watches.trans hFirst.watches
  placements := by
    obtain ⟨new, hPlacements, hSets⟩ := hFirst.placements
    obtain ⟨new', hPlacements', hSets'⟩ := hSecond.placements
    exact ⟨new ++ new', by rw [hPlacements', hPlacements, List.append_assoc],
      by rw [hSets', hSets, List.append_assoc, List.map_append]⟩
  clearings := hSecond.clearings.trans hFirst.clearings

theorem Notes.marked (hNotes : Notes i h i' h') (verified : List Int) : Notes i h { i' with verified } h' :=
  ⟨hNotes.revision, hNotes.breakpoints, hNotes.watches, hNotes.placements, hNotes.clearings⟩

/-- Work that notes each request at once, whatever comes of it. -/
def Noting (rule : Rule) (x : SourceWork α) : Prop := ∀ i p h, Routine.Ensures (Interleaved rule)
  (fun r p' h' => p' = p ∧ Notes i h r.2 h') (x.run.run i) p h

theorem Noting.after {x : SourceWork α} (hx : Noting rule x) (hNotes : Notes i h i₁ h₁) :
    Routine.Ensures (Interleaved rule) (fun r p' h' => p' = p ∧ Notes i h r.2 h') (x.run.run i₁) p h₁ :=
  Routine.Ensures.mono (fun _ _ _ hPost => ⟨hPost.1, hNotes.trans hPost.2⟩) (hx i₁ p h₁)

theorem Noting.pure (a : α) : Noting rule (Pure.pure a) := fun _ _ _ => ⟨rfl, .refl⟩

theorem Noting.bind {x : SourceWork α} {k : α → SourceWork β} (hx : Noting rule x) (hNext : ∀ a, Noting rule (k a)) :
    Noting rule (x >>= k) := by
  intro i p h
  rw [ExceptT.run_bind, StateT.run_bind]
  apply Routine.Ensures.bind
  apply Routine.Ensures.mono _ (hx i p h)
  rintro ⟨outcome, i₁⟩ p₁ h₁ ⟨rfl, hFirst⟩
  cases outcome with
  | error e => exact ⟨rfl, hFirst⟩
  | ok a => exact (hNext a).after hFirst

theorem Noting.modify {f : Installed → Installed} (hf : ∀ i h, Notes i h (f i) h) :
    Noting rule (modifyThe Installed f) := fun i _ h => ⟨rfl, hf i h⟩

theorem Noting.get : Noting rule (getThe Installed) := fun _ _ _ => ⟨rfl, .refl⟩

theorem sets_of_answer {c : Backend.Call} {a : Backend.Answer c} (hAnswer : Interleaved rule h c a h') :
    sets h' = sets h ++ sets [.answered c a] := by
  rw [← Backend.sets_calls h', hAnswer.calls, Backend.sets_append, Backend.sets_calls]

theorem clearings_of_answer {c : Backend.Call} {a : Backend.Answer c} (hAnswer : Interleaved rule h c a h') :
    clearings h' = clearings h ++ clearings [.answered c a] := by
  rw [← Backend.clearings_calls h', hAnswer.calls, Backend.clearings_append, Backend.clearings_calls]

theorem notes_of_answer {c : Backend.Call} {a : Backend.Answer c} (hAnswer : Interleaved rule h c a h')
    (hSets : sets [.answered c a] = []) (hClearings : clearings [.answered c a] = []) : Notes i h i h' := by
  refine ⟨rfl, rfl, rfl, ⟨[], by simp, ?_⟩, ?_⟩
  · rw [sets_of_answer hAnswer, hSets]
    rfl
  · rw [clearings_of_answer hAnswer, hClearings, List.append_nil]

theorem placeAt_notes (id : Int) (locations : List Location) : Noting rule (placeAt id locations) := by
  induction locations with
  | nil => exact .pure false
  | cons l rest ih =>
    intro i p h
    apply bind_trySource_ensures
    intro answer h₁ hAnswer
    constructor
    · rintro r rfl
      -- The request is on record before anything else is asked.
      have hNoted : Notes i h { i with placements := i.placements ++ [⟨r, id, l⟩] } h₁ :=
        ⟨rfl, rfl, rfl, ⟨[⟨r, id, l⟩], rfl, sets_of_answer hAnswer⟩,
          (clearings_of_answer hAnswer).trans (List.append_nil _)⟩
      have hRest : Noting rule (do let _ ← placeAt id rest; return true) := ih.bind fun _ => .pure true
      exact hRest.after hNoted
    · rintro e rfl
      have hNoted : Notes i h i h₁ := notes_of_answer hAnswer rfl rfl
      exact ⟨fun _ => ⟨rfl, hNoted⟩, fun _ => ih.after hNoted⟩

theorem markVerified_notes (id : Int) : Noting rule (markVerified id) := by
  apply Noting.bind .get
  intro i
  split
  · exact .pure false
  · exact Noting.bind (.modify fun _ _ => Notes.refl.marked _) fun _ => .pure true

theorem placeEach_notes (c : LoadedClass) (breakpoints : List Breakpoint) : Noting rule (placeEach c breakpoints) := by
  induction breakpoints with
  | nil => exact .pure []
  | cons b rest ih =>
    have hOthers : ∀ isNew : Bool, Noting rule (do
        let others ← placeEach c rest
        return if isNew then (b.id, b.line) :: others else others) := fun _ => ih.bind fun _ => .pure _
    have hRest : ∀ answer : Option (List Location), Noting rule (do
        let placed ← placeAt b.id (answer.getD [])
        let isNew ← if placed then markVerified b.id else pure false
        let others ← placeEach c rest
        return if isNew then (b.id, b.line) :: others else others) := by
      intro answer
      apply (placeAt_notes b.id _).bind
      rintro (_ | _)
      · exact (Noting.pure false).bind hOthers
      · exact (markVerified_notes b.id).bind hOthers
    intro i p h
    apply bind_trySource_ensures
    intro answer h₁ hAnswer
    have hNoted : Notes i h i h₁ := notes_of_answer hAnswer rfl rfl
    constructor
    · rintro locations rfl
      exact (hRest (some locations)).after hNoted
    · rintro e rfl
      exact ⟨fun _ => ⟨rfl, hNoted⟩, fun _ => (hRest none).after hNoted⟩

theorem placeInClass_notes (c : LoadedClass) : Noting rule (placeInClass c) :=
  Noting.get.bind fun i => placeEach_notes c i.breakpoints

theorem bind_modifyGet_ensures {answers : Answering Backend History} {post : Except Error β → Placer → History → Prop}
    {f : Placer → α × Placer} {k : α → Work β} (hNext : Routine.Ensures answers post (k (f p).1).run (f p).2 h) :
    Routine.Ensures answers post (ExceptT.lift (Routine.modifyGet f) >>= k).run p h := Attempt.ensures_after hNext

/-- A report of a watch of a source, however it ends: the source stays on record, and with it what was granted for it;
nothing else changes. -/
structure Interrupted (path : Path) (i : Installed) (p : Placer) (h : History) (i' : Installed) (p' : Placer) (h' : History) :
    Prop where
  here : p'.installed.find? path = some i'
  others : ∀ q, (path == q) = false → p'.installed.find? q = p.installed.find? q
  watches : p'.watches = p.watches
  notes : Notes i h i' h'

theorem classPrepared_interrupted {r : RequestId} {path : Path}
    (hTaken : p.takeWatched r = (some (path, i), (p.take path).2)) (c : LoadedClass) (h : History) :
    Routine.Ensures (Interleaved rule) (fun _ p' h' => ∃ i', Interrupted path i p h i' p' h')
      (classPrepared r c).run p h := by
  apply bind_modifyGet_ensures
  rw [hTaken]
  apply Attempt.ensures_after
  apply Routine.Ensures.mono _ (placeInClass_notes c i (p.take path).2 h)
  rintro ⟨outcome, i'⟩ _ h' ⟨rfl, hNotes⟩
  apply Attempt.ensures_after
  refine ⟨i', ?_, ?_, rfl, hNotes⟩
  · simp [put, take, PathMap.find?_insert]
  · intro q hOther
    simp [put, take, PathMap.find?_insert, PathMap.find?_erase, hOther]

end JvmDebug.Placer
