import JvmDebug.Placement.Placer
import JvmDebug.Proofs.Routine.Bounds

/-!
# The placer never waits

Whoever holds the placer works with it from beginning to end; only the machine can keep it. What is done for breakpoints
and for watches leaves exceptions alone, both on record and in the machine.
-/

namespace JvmDebug
set_option autoImplicit false

open Jdwp (LoadedClass Location RequestId)

/-- The call concerns exceptions. -/
def Backend.Call.isException : Backend.Call → Bool
  | .setException .. | .clearException _ => true
  | _ => false

namespace Placer

variable {α β : Type}

def besideExceptions : Bounds Placer Backend where
  changes p p' := p'.exception = p.exception
  calls c := c.isException = false
  keep _ p := p

/-- The routine never waits, and leaves exceptions alone. -/
structure Steady (r : Routine Placer Backend α) : Prop where
  unwaiting : r.Unwaiting
  beside : r.Within besideExceptions fun _ => True

namespace Steady

variable {r : Routine Placer Backend α}

theorem done (a : α) : Steady (.done a) := ⟨trivial, trivial⟩

theorem bind {k : α → Routine Placer Backend β} (h : Steady r) (hNext : ∀ a, Steady (k a)) : Steady (r >>= k) :=
  ⟨h.unwaiting.bind fun a => (hNext a).unwaiting, Routine.within_then h.beside fun a => (hNext a).beside⟩

theorem map {f : α → β} (h : Steady r) : Steady (f <$> r) := ⟨h.unwaiting.map, Routine.within_map.mpr h.beside⟩

theorem lift (h : Steady r) : Steady (ExceptT.lift r : Work α).run := h.map

theorem log (level : Log.Level) (part : Log.Part) (text : String) :
    Steady (Routine.log level part text : Routine Placer Backend Unit) := ⟨trivial, fun _ => rfl, trivial⟩

theorem get : Steady (Routine.get : Routine Placer Backend Placer) := ⟨fun _ => trivial, fun _ => ⟨rfl, trivial⟩⟩

theorem modifyGet {f : Placer → α × Placer} (hf : ∀ p, (f p).2.exception = p.exception) :
    Steady (Routine.modifyGet f : Routine Placer Backend α) := ⟨fun _ => trivial, fun p => ⟨hf p, trivial⟩⟩

theorem modify {change : Placer → Placer} (hChange : ∀ p, (change p).exception = p.exception) :
    Steady (Routine.modify change : Routine Placer Backend Unit) := ⟨fun _ => trivial, fun p => ⟨hChange p, trivial⟩⟩

theorem request {c : Backend.Call} (hc : c.isException = false) : Steady (Placer.request (c := c)) :=
  ⟨fun _ => trivial, hc, fun _ => rfl, fun _ => trivial⟩

/-- Work goes on only where it has not failed. -/
theorem andThen {w : Work α} {k : α → Work β} (h : Steady w.run) (hNext : ∀ a, Steady (k a).run) :
    Steady (w >>= k).run := by
  refine Steady.bind h ?_
  rintro (e | a)
  · exact done _
  · exact hNext a

end Steady

/-- Work on one source that is steady, whatever has been placed. -/
def SourceSteady (w : SourceWork α) : Prop := ∀ i, Steady (w.run.run i)

theorem SourceSteady.bind {w : SourceWork α} {k : α → SourceWork β} (h : SourceSteady w)
    (hNext : ∀ a, SourceSteady (k a)) : SourceSteady (w >>= k) := by
  intro i
  rw [ExceptT.run_bind, StateT.run_bind]
  refine Steady.bind (h i) ?_
  rintro ⟨e | a, i⟩
  · exact .done _
  · exact hNext a i

theorem SourceSteady.pure (a : α) : SourceSteady (Pure.pure a) := fun _ => .done _

theorem SourceSteady.modify (f : Installed → Installed) : SourceSteady (modifyThe Installed f) := fun _ => .done _

theorem SourceSteady.get : SourceSteady (getThe Installed) := fun _ => .done _

theorem SourceSteady.routine {r : Routine Placer Backend α} (h : Steady r) : SourceSteady (Placer.routine r) := by
  intro i
  rw [Placer.routine, ExceptT.run_lift, StateT.run_map, StateT.run_lift]
  exact h.map.map

theorem tolerate_steady (what : String) (answer : Except Jdwp.Error α) : Steady (tolerate what answer).run := by
  cases answer with
  | ok a => exact .done _
  | error e =>
    simp only [tolerate]
    split
    · exact .done _
    · exact ⟨trivial, fun _ => rfl, trivial⟩

theorem try_steady (what : String) {r : Routine Placer Backend (Except Jdwp.Error α)} (h : Steady r) :
    Steady (try_ what r).run :=
  h.lift.andThen fun answer => tolerate_steady what answer

theorem trySource_steady (what : String) {r : Routine Placer Backend (Except Jdwp.Error α)} (h : Steady r) :
    SourceSteady (trySource what r) := by
  refine .bind (.routine (try_steady what h)) fun answer => ?_
  cases answer <;> exact fun _ => .done _

theorem placeAt_steady (id : Int) (locations : List Location) : SourceSteady (placeAt id locations) := by
  induction locations with
  | nil => exact .pure false
  | cons l rest ih =>
    refine .bind (trySource_steady _ (.request rfl)) fun answer => ?_
    cases answer with
    | none => exact ih
    | some r => exact .bind (.modify _) fun _ => .bind ih fun _ => .pure true

theorem markVerified_steady (id : Int) : SourceSteady (markVerified id) := by
  refine .bind .get fun i => ?_
  split
  · exact .pure false
  · exact .bind (.modify _) fun _ => .pure true

theorem placeInClass_steady (c : LoadedClass) : SourceSteady (placeInClass c) := by
  refine .bind .get fun i => ?_
  induction i.breakpoints with
  | nil => exact .pure []
  | cons b rest ih =>
    refine .bind (trySource_steady _ (.request rfl)) fun answer =>
      .bind (placeAt_steady b.id (answer.getD [])) fun placed => ?_
    cases placed with
    | false => exact .bind (.pure false) fun _ => .bind ih fun _ => .pure _
    | true => exact .bind (markVerified_steady b.id) fun _ => .bind ih fun _ => .pure _

theorem placeInClasses_steady (classes : List LoadedClass) : SourceSteady (placeInClasses classes) := by
  induction classes with
  | nil => exact .pure ()
  | cons c rest ih => exact .bind (placeInClass_steady c) fun _ => ih

theorem watch_steady (path : Path) (pattern : String) : SourceSteady (watch path pattern) := by
  refine .bind (trySource_steady _ (.request rfl)) fun answer => ?_
  cases answer with
  | none => exact .pure ()
  | some r =>
    exact .bind (.routine (.log ..)) fun _ => .bind (.modify _) fun _ => .routine (.modify fun _ => rfl)

theorem placeCandidates_steady (path : Path) (names : List String) : SourceSteady (placeCandidates path names) := by
  induction names with
  | nil => exact .pure ()
  | cons name rest ih =>
    have hRest : ∀ loaded : List LoadedClass, SourceSteady (do
        placeInClasses loaded
        watch path (nestedPattern name)
        placeCandidates path rest) := fun loaded =>
      .bind (placeInClasses_steady loaded) fun _ => .bind (watch_steady path (nestedPattern name)) fun _ => ih
    refine .bind (trySource_steady _ (.request rfl)) fun answer => ?_
    dsimp only
    split
    · exact .bind (watch_steady path name) fun _ => hRest _
    · exact hRest _

theorem installSource_steady (path : Path) (revision : Nat) (breakpoints : List Breakpoint) :
    Steady (installSource path revision breakpoints).run := by
  have hInstall : ∀ (relative : Path) (names : List String),
      Steady (installCandidates path relative names revision breakpoints).run := by
    intro relative names
    refine .andThen (.lift (placeCandidates_steady path names _)) ?_
    rintro ⟨outcome, i⟩
    refine .andThen (.done outcome) fun _ => .andThen (.lift (.log ..)) fun _ => .lift (.modify fun _ => rfl)
  refine .andThen (.lift .get) fun p => ?_
  dsimp only
  split
  · exact .andThen (.lift (.log ..)) fun _ => hInstall _ _
  · exact hInstall _ _

theorem installMissing_steady (wanted : BreakpointSet) (sources : PathMap (List Breakpoint)) :
    Steady (installMissing wanted sources).run := by
  induction sources with
  | nil => exact .done _
  | cons source rest ih =>
    refine .andThen (.lift .get) fun p => ?_
    dsimp only
    split
    · exact .andThen (installSource_steady _ _ _) fun _ => ih
    · exact ih

theorem clearLocations_steady (rs : List RequestId) : Steady (clearLocations rs).run := by
  induction rs with
  | nil => exact .done _
  | cons r rest ih => exact .andThen (try_steady _ (.request rfl)) fun _ => ih

theorem clearWatches_steady (rs : List RequestId) : Steady (clearWatches rs).run := by
  induction rs with
  | nil => exact .done _
  | cons r rest ih =>
    exact .andThen (.lift (.modify fun _ => rfl)) fun _ => .andThen (try_steady _ (.request rfl)) fun _ => ih

theorem clearSource_steady (path : Path) : Steady (clearSource path).run := by
  refine .andThen (.lift (.modifyGet fun _ => rfl)) fun taken => ?_
  cases taken with
  | none => exact .done _
  | some i =>
    exact .andThen (.lift (.log ..)) fun _ => .andThen (clearLocations_steady _) fun _ => clearWatches_steady _

theorem clearSources_steady (paths : List Path) : Steady (clearSources paths).run := by
  induction paths with
  | nil => exact .done _
  | cons path rest ih => exact .andThen (clearSource_steady path) fun _ => ih

theorem sync_steady (wanted : BreakpointSet) : Steady (sync wanted).run := by
  refine .andThen (.lift .get) fun p => .andThen (clearSources_steady _) fun _ => ?_
  exact .andThen (installMissing_steady _ _) fun _ => .andThen (.lift .get) fun _ => .done _

theorem sync_unwaiting (wanted : BreakpointSet) : (sync wanted).run.Unwaiting := (sync_steady wanted).unwaiting

theorem takeWatched_exception (r : RequestId) (p : Placer) : (p.takeWatched r).2.exception = p.exception := by
  unfold takeWatched
  split
  · rfl
  · next path _ => cases hFind : p.installed.find? path <;> simp [take, hFind]

theorem classPrepared_steady (r : RequestId) (c : LoadedClass) : Steady (classPrepared r c).run := by
  refine .andThen (.lift (.modifyGet (takeWatched_exception r))) fun taken => ?_
  cases taken with
  | none => exact .done _
  | some found =>
    refine .andThen (.lift (placeInClass_steady c found.2)) ?_
    rintro ⟨outcome, i⟩
    exact .andThen (.lift (.modify fun _ => rfl)) fun _ => .done outcome

theorem classPrepared_unwaiting (r : RequestId) (c : LoadedClass) : (classPrepared r c).run.Unwaiting :=
  (classPrepared_steady r c).unwaiting

/-! ## Exceptions -/

/-- What filters ask for: caught and uncaught exceptions, or nothing. -/
def asksFor (filters : ExceptionFilters) : Option (Bool × Bool) :=
  if filters.isEmpty then none else some (filters.caught, filters.uncaught)

/-- Withdraws the request for exceptions, if there is one. -/
def withdrawException : Option (RequestId × Bool × Bool) → Work Unit
  | none => return ()
  | some (r, _) => do
    ExceptT.lift (Routine.modify fun p => { p with exception := none })
    let _ ← try_ "clear exception request" (clearException r)

def requestException : Option (Bool × Bool) → Work Unit
  | none => return ()
  | some (caught, uncaught) => do
    match ← try_ "set exception request" (setException caught uncaught) with
    | none => return ()
    | some r => do
      ExceptT.lift (Routine.debug .placement s!"Exception request {r} (caught={caught}, uncaught={uncaught})")
      ExceptT.lift (Routine.modify fun p => { p with exception := some (r, caught, uncaught) })

theorem setFilters_eq (filters : ExceptionFilters) : setFilters filters = (do
    let p ← ExceptT.lift Routine.get
    if asksFor filters = p.exception.map (·.2) then return ()
    withdrawException p.exception
    requestException (asksFor filters)) := by
  unfold setFilters
  refine congrArg _ (funext fun p => ?_)
  change (if asksFor filters = p.exception.map (·.2) then _ else _) = _
  split
  · rfl
  · cases p.exception with
    | none => rfl
    | some x =>
      simp only [withdrawException, bind_assoc, pure_bind]
      rfl

theorem try_unwaiting (what : String) {r : Routine Placer Backend (Except Jdwp.Error α)} (h : r.Unwaiting) :
    (try_ what r).run.Unwaiting :=
  Attempt.unwaiting_bind (Routine.Unwaiting.map h) fun answer => (tolerate_steady what answer).unwaiting

theorem setFilters_unwaiting (filters : ExceptionFilters) : (setFilters filters).run.Unwaiting := by
  rw [setFilters_eq]
  refine Attempt.unwaiting_bind (fun _ => trivial) fun p => ?_
  split
  · trivial
  refine Attempt.unwaiting_bind ?_ fun _ => ?_
  · cases p.exception with
    | none => trivial
    | some x =>
      refine Attempt.unwaiting_bind (fun _ => trivial) fun _ => ?_
      exact Attempt.unwaiting_bind (try_unwaiting _ fun _ => trivial) fun _ => trivial
  · cases asksFor filters with
    | none => trivial
    | some x =>
      refine Attempt.unwaiting_bind (try_unwaiting _ fun _ => trivial) fun answer => ?_
      cases answer with
      | none => trivial
      | some r => exact Attempt.unwaiting_bind trivial fun _ => fun _ => trivial

end Placer
end JvmDebug
