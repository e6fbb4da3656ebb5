import JvmDebug.Bus.Delivery

/-!
# The course of deliveries

Whatever listeners do while they are called, a delivery goes through the listeners that were there when it began, each
when all that came of the one before is done. Here a listener may do anything each time it is called, not only what its
reaction says, so that it may go by what it has seen and by what others have told it.
-/

namespace JvmDebug.Hub
set_option autoImplicit false

variable {ν ε : Type} [DecidableEq ν]

/-- A task that was done, and the hub before and after it. -/
structure Moment (ν ε : Type) where
  task : Task ν ε
  before : Hub ν ε
  after : Hub ν ε

def Moment.called? (m : Moment ν ε) : Option (ν × ε) :=
  match m.task with
  | .call listener e => some (listener.name, e)
  | .act _ => none

/-- What may follow from a task, and the hub after it. -/
inductive Follows (h : Hub ν ε) : Task ν ε → List (Task ν ε) → Hub ν ε → Prop where
  | act (a : Act ν ε) : Follows h (.act a) (h.step (.act a)).2.1 (h.step (.act a)).2.2
  | call (listener : Listener ν ε) (e : ε) (acts : List (Act ν ε)) : Follows h (.call listener e) (acts.map .act) h

/-- Tasks are done, the first one first, with what follows from it before those behind it, until some are left. -/
inductive Goes : Hub ν ε → List (Task ν ε) → List (Moment ν ε) → Hub ν ε → List (Task ν ε) → Prop where
  | rests {h : Hub ν ε} {tasks : List (Task ν ε)} : Goes h tasks [] h tasks
  | does {h h' h'' : Hub ν ε} {task : Task ν ε} {next tasks left : List (Task ν ε)} {past : List (Moment ν ε)} :
      Follows h task next h' → Goes h' (next ++ tasks) past h'' left →
        Goes h (task :: tasks) (⟨task, h, h'⟩ :: past) h'' left

variable {h h' start : Hub ν ε} {task : Task ν ε} {front behind tasks left busy : List (Task ν ε)} {e : ε}
  {past before after early late inside : List (Moment ν ε)} {m : Moment ν ε} {listener : Listener ν ε}
  {listeners : List (Listener ν ε)}

theorem follows_step (h : Hub ν ε) (task : Task ν ε) : Follows h task (h.step task).2.1 (h.step task).2.2 := by
  cases task with
  | act a => exact .act a
  | call listener e => exact .call listener e (listener.reaction e)

/-- What a hub does when its listeners keep to their reactions is one of the courses that things may take. -/
theorem goes_run (fuel : Nat) (tasks : List (Task ν ε)) (h : Hub ν ε) :
    ∃ past left, Goes h tasks past (h.run fuel tasks).2 left ∧ (h.run fuel tasks).1 = past.filterMap Moment.called? ∧
      (left = [] ∨ past.length = fuel) := by
  induction fuel generalizing tasks h with
  | zero =>
    cases tasks with
    | nil => exact ⟨[], [], .rests, rfl, .inl rfl⟩
    | cons task tasks => exact ⟨[], task :: tasks, .rests, rfl, .inr rfl⟩
  | succ fuel ih =>
    cases tasks with
    | nil => exact ⟨[], [], .rests, rfl, .inl rfl⟩
    | cons task tasks =>
      obtain ⟨past, left, hGoes, hCalls, hEnd⟩ := ih ((h.step task).2.1 ++ tasks) (h.step task).2.2
      refine ⟨⟨task, h, (h.step task).2.2⟩ :: past, left, .does (follows_step h task) hGoes, ?_, ?_⟩
      · have hCalled : (h.step task).1.toList =
            [(⟨task, h, (h.step task).2.2⟩ : Moment ν ε)].filterMap Moment.called? := by
          cases task with
          | call listener e => rfl
          | act a =>
            cases a with
            | keep name =>
              simp only [step]
              split <;> rfl
            | _ => rfl
        rw [← List.singleton_append (x := (⟨task, h, (h.step task).2.2⟩ : Moment ν ε)), List.filterMap_append,
          ← hCalled, ← hCalls]
        rfl
      · exact hEnd.imp_right (congrArg Nat.succ)

/-! ## Tasks in front of others -/

theorem Goes.trans (hFirst : Goes h tasks early h' busy) {h'' : Hub ν ε} (hThen : Goes h' busy late h'' left) :
    Goes h tasks (early ++ late) h'' left := by
  induction hFirst with
  | rests => exact hThen
  | does hFollows _ ih => exact .does hFollows (ih hThen)

/-- What stands behind makes no difference to what stands in front. -/
theorem Goes.before_others (hGoes : Goes h front past h' busy) (behind : List (Task ν ε)) :
    Goes h (front ++ behind) past h' (busy ++ behind) := by
  induction hGoes with
  | rests => exact .rests
  | does hFollows _ ih =>
    apply Goes.does hFollows
    rw [List.append_assoc] at ih
    exact ih

/-- Those behind come to their turn when those in front are done with all that follows from them. -/
theorem Goes.split (hGoes : Goes h (front ++ behind) past h' left) :
    (∃ busy, left = busy ++ behind ∧ Goes h front past h' busy) ∨
      ∃ early late mid, past = early ++ late ∧ Goes h front early mid [] ∧ Goes mid behind late h' left := by
  generalize hTasks : front ++ behind = tasks at hGoes
  induction hGoes generalizing front with
  | rests => exact .inl ⟨front, hTasks.symm, .rests⟩
  | @does h mid h' task next tasks left past hFollows hThen ih =>
    cases front with
    | nil =>
      cases hTasks
      exact .inr ⟨[], _, h, rfl, .rests, .does hFollows hThen⟩
    | cons first front =>
      obtain ⟨rfl, rfl⟩ := List.cons.inj hTasks
      rcases ih (List.append_assoc next front behind) with
        ⟨busy, hLeft, hGoes⟩ | ⟨early, late, mid', rfl, hEarly, hLate⟩
      · exact .inl ⟨busy, hLeft, .does hFollows hGoes⟩
      · exact .inr ⟨_ :: early, late, mid', rfl, .does hFollows hEarly, hLate⟩

theorem Goes.around (hGoes : Goes h tasks (before ++ m :: after) h' left) :
    ∃ behind next, Goes h tasks before m.before (m.task :: behind) ∧ Follows m.before m.task next m.after ∧
      Goes m.after (next ++ behind) after h' left := by
  induction before generalizing h tasks with
  | nil =>
    cases hGoes with
    | does hFollows hThen => exact ⟨_, _, .rests, hFollows, hThen⟩
  | cons first before ih =>
    cases hGoes with
    | does hFollows hThen =>
      obtain ⟨behind, next, hBefore, hHere, hAfter⟩ := ih hThen
      exact ⟨behind, next, .does hFollows hBefore, hHere, hAfter⟩

/-- Where tasks are left, things can go on. -/
theorem Goes.goes_on (hGoes : Goes h tasks past h' left) (hLeft : left ≠ []) :
    ∃ m h'' left', Goes h tasks (past ++ [m]) h'' left' := by
  obtain ⟨task, behind, rfl⟩ := List.exists_cons_of_ne_nil hLeft
  exact ⟨_, _, _, hGoes.trans (.does (follows_step h' task) .rests)⟩

/-! ## Deliveries -/

/-- Listeners are called with an event, each when all that came of the one before is done. -/
inductive Delivers (e : ε) : Hub ν ε → List (Listener ν ε) → List (Moment ν ε) → Hub ν ε → Prop where
  | nil {h : Hub ν ε} : Delivers e h [] [] h
  | cons {h h' h'' : Hub ν ε} {listener : Listener ν ε} {listeners : List (Listener ν ε)} {acts : List (Act ν ε)}
      {inside later : List (Moment ν ε)} : Goes h (acts.map .act) inside h' [] → Delivers e h' listeners later h'' →
        Delivers e h (listener :: listeners) (⟨.call listener e, h, h⟩ :: (inside ++ later)) h''

/-- How far a delivery has come that began when the hub was `start`, with the tasks `behind` behind it. -/
inductive Progress (e : ε) (behind : List (Task ν ε)) (listeners : List (Listener ν ε)) (start : Hub ν ε)
    (after : List (Moment ν ε)) (h : Hub ν ε) (left : List (Task ν ε)) : Prop where
  /-- All have been called. Only then did things go on behind it. -/
  | finished {inside later : List (Moment ν ε)} {mid : Hub ν ε} : after = inside ++ later →
      Delivers e start listeners inside mid → Goes mid behind later h left →
        Progress e behind listeners start after h left
  /-- None has been called yet. -/
  | due : after = [] → h = start → left = listeners.map (.call · e) ++ behind →
      Progress e behind listeners start after h left
  /-- One is being called: what it does is not yet done, and those after it wait. -/
  | under {done waiting : List (Listener ν ε)} {listener : Listener ν ε} {told inside : List (Moment ν ε)}
      {mid : Hub ν ε} {acts : List (Act ν ε)} {busy : List (Task ν ε)} : listeners = done ++ listener :: waiting →
        after = told ++ ⟨.call listener e, mid, mid⟩ :: inside → Delivers e start done told mid →
          Goes mid (acts.map .act) inside h busy → left = busy ++ (waiting.map (.call · e) ++ behind) →
            Progress e behind listeners start after h left

theorem Progress.after_one {mid : Hub ν ε} {acts : List (Act ν ε)} (hInside : Goes start (acts.map .act) inside mid [])
    (hLater : Progress e behind listeners mid after h left) :
    Progress e behind (listener :: listeners) start (⟨.call listener e, start, start⟩ :: (inside ++ after)) h left := by
  cases hLater with
  | finished hAfter hDelivers hGoes =>
    apply Progress.finished _ (.cons hInside hDelivers) hGoes
    simp [hAfter]
  | due hAfter hHub hLeft =>
    subst hAfter hHub
    have hFirst : listener :: listeners = [] ++ listener :: listeners := rfl
    have hNone : left = [] ++ (listeners.map (.call · e) ++ behind) := hLeft
    apply Progress.under hFirst _ .nil hInside hNone
    simp
  | under hListeners hAfter hTold hBusy hLeft =>
    apply Progress.under (congrArg (List.cons listener) hListeners) _ (.cons hInside hTold) hBusy hLeft
    simp [hAfter]

theorem Goes.progress (hGoes : Goes start (listeners.map (.call · e) ++ behind) after h left) :
    Progress e behind listeners start after h left := by
  induction listeners generalizing start after with
  | nil => exact .finished rfl .nil hGoes
  | cons listener listeners ih =>
    cases hGoes with
    | rests => exact .due rfl rfl rfl
    | does hFollows hThen =>
      cases hFollows with
      | call _ _ acts =>
        rcases hThen.split with ⟨busy, hLeft, hBusy⟩ | ⟨inside, later, mid, rfl, hInside, hLater⟩
        · have hFirst : listener :: listeners = [] ++ listener :: listeners := rfl
          exact .under hFirst (List.nil_append _).symm .nil hBusy hLeft
        · exact (ih hLater).after_one hInside

theorem Delivers.goes (hDelivers : Delivers e h listeners past h') (behind : List (Task ν ε)) :
    Goes h (listeners.map (.call · e) ++ behind) past h' behind := by
  induction hDelivers with
  | nil => exact .rests
  | cons hInside _ ih => exact .does (.call _ _ _) ((hInside.before_others _).trans ih)

theorem Goes.delivers (hGoes : Goes start (listeners.map (.call · e)) past h []) :
    Delivers e start listeners past h := by
  induction listeners generalizing start past with
  | nil =>
    cases hGoes
    exact .nil
  | cons listener listeners ih =>
    cases hGoes with
    | does hFollows hThen =>
      cases hFollows with
      | call _ _ acts =>
        rcases hThen.split with ⟨busy, hLeft, hBusy⟩ | ⟨inside, later, mid, rfl, hInside, hLater⟩
        · obtain ⟨rfl, hNone⟩ := List.append_eq_nil_iff.mp hLeft.symm
          obtain rfl := List.map_eq_nil_iff.mp hNone
          have hDelivers : Delivers e start [listener] _ h := .cons hBusy .nil
          rwa [List.append_nil] at hDelivers
        · exact .cons hInside (ih hLater)

/-- To publish is to go through the listeners that are there. -/
theorem goes_publish_iff : Goes h [.act (.publish e)] (⟨.act (.publish e), h, h⟩ :: past) h' [] ↔
    Delivers e h h.bus.listeners past h' := by
  constructor
  · intro hGoes
    cases hGoes with
    | does hFollows hThen =>
      cases hFollows
      change Goes h (h.bus.listeners.map (.call · e) ++ []) past h' [] at hThen
      rw [List.append_nil] at hThen
      exact hThen.delivers
  · intro hDelivers
    apply Goes.does (.act (.publish e))
    exact hDelivers.goes []

end JvmDebug.Hub
