import JvmDebug.Debuggee.Control
import JvmDebug.Proofs.Routine.Bounds

/-!
# Looking at a machine

Whoever looks at stopped threads, at variables or at exceptions does only these things: asks the machine, goes by what is
known about classes or asks for it, reads where sources are, and notes what happened.
-/

namespace JvmDebug
set_option autoImplicit false

open Jdwp (ClassId ThreadId ObjectId Location Query)

namespace Jdwp.Command

/-- Whether a command lets threads run. -/
def letsRun (c : Jdwp.Command) : Bool := (c.set, c.number) = (1, 9) || (c.set, c.number) = (11, 3)

/-- Whether a command lets no threads run and is not about event requests either. -/
def looks (c : Jdwp.Command) : Bool := !c.letsRun && c.set ≠ 15

/-- Whether a command is of those by which something is asked that never changes about classes. -/
def isOfClasses (c : Jdwp.Command) : Bool := (c.set, c.number) ∈ [(1, 2), (2, 1), (2, 4), (2, 5)]

end Jdwp.Command

namespace Debuggee

variable {α β ε : Type} {b : Bounds Debuggee World}

/-! ## What is known about classes -/

/-- What a machine is asked about a class once. -/
inductive Trait where
  | signature
  | methods
  | fields

namespace Trait

abbrev Told : Trait → Type
  | signature => String
  | methods => List Jdwp.Method
  | fields => List Jdwp.Field

def query : (t : Trait) → ClassId → Query t.Told
  | signature => Query.signature
  | methods => Query.methods
  | fields => Query.fields

def known : (t : Trait) → TypeCache → List (ClassId × t.Told)
  | signature => TypeCache.signatures
  | methods => TypeCache.methods
  | fields => TypeCache.fields

def keep : (t : Trait) → List (ClassId × t.Told) → TypeCache → TypeCache
  | signature => fun all types => { types with signatures := all }
  | methods => fun all types => { types with methods := all }
  | fields => fun all types => { types with fields := all }

/-- Goes by what is known, or asks. -/
def learn (t : Trait) (c : ClassId) : Exchange t.Told := cached t.known t.keep c (t.query c)

theorem looks_query (t : Trait) (c : ClassId) : (t.query c).command.looks = true := by
  cases t <;> rfl

end Trait

/-! ## What is done -/

inductive Inspects : {α : Type} → Activity α → Prop where
  | done {α : Type} (a : α) : Inspects (.done a)
  | query {α : Type} {q : Query α} : q.command.looks = true → q.command.isOfClasses = false → Inspects (query q).run
  | learn (t : Trait) (c : ClassId) : Inspects (t.learn c).run
  | detailField? : Inspects detailField?.run
  | sources {α : Type} {next : Placer → Activity α} : (∀ p, Inspects (next p)) → Inspects (.atomic id fun d => next d.placer)
  | note {α : Type} (r : Log.Record) {next : Activity α} : Inspects next → Inspects (.note r next)
  | bind {α β : Type} {r : Activity α} {next : α → Activity β} : Inspects r → (∀ a, Inspects (next a)) → Inspects (r >>= next)

namespace Inspects

theorem map {r : Activity α} (f : α → β) (h : Inspects r) : Inspects (f <$> r) := by
  rw [map_eq_pure_bind]
  exact h.bind fun a => .done _

theorem lift {r : Activity α} (h : Inspects r) : Inspects (ExceptT.lift r : Attempt ε Debuggee World α).run := h.map _

theorem andThen {w : Attempt ε Debuggee World α} {next : α → Attempt ε Debuggee World β} (h : Inspects w.run)
    (hNext : ∀ a, Inspects (next a).run) : Inspects (w >>= next).run := by
  refine Inspects.bind h ?_
  rintro (e | a)
  · exact .done _
  · exact hNext a

theorem exchange {x : Exchange α} (h : Inspects x.run) : Inspects (exchange x).run := h.map _

theorem ask {q : Query α} (hLooks : q.command.looks = true) (hOther : q.command.isOfClasses = false) :
    Inspects (ask q).run :=
  (Inspects.query hLooks hOther).exchange

theorem log {level : Log.Level} {part : Log.Part} {text : String} :
    Inspects (ExceptT.lift (Routine.log level part text) : Attempt ε Debuggee World Unit).run :=
  Inspects.lift (.note _ (.done ()))

end Inspects

theorem inspects_binaryName (c : ClassId) : Inspects (binaryName c).run := .andThen (.learn .signature c) fun _ => .done _

theorem inspects_methodName (l : Location) : Inspects (methodName l) :=
  .bind (inspects_binaryName _) fun _ => .bind (.learn .methods _) fun _ => .done _

/-- The path of a class as a placer knows it, else as the machine tells it. -/
def pathBy (c : ClassId) (name : String) (p : Placer) : Exchange Path :=
  (p.index.source? name).elim (do
    let file ← query (Query.sourceFile c)
    ExceptT.lift (Routine.debug .inspect s!"No source mapping for {name}, using {file}")
    return unmappedPath name file) fun relative => pure (p.root.join relative)

theorem sourcePath_eq (c : ClassId) (name : String) :
    (sourcePath c name).run = .atomic id fun d => (pathBy c name d.placer).run := by
  refine congrArg (Routine.atomic id) (funext fun d => ?_)
  change ExceptT.bindCont _ (Except.ok d) = _
  dsimp only [ExceptT.bindCont, pathBy]
  cases d.placer.index.source? name <;> rfl

theorem inspects_sourcePath (c : ClassId) (name : String) : Inspects (sourcePath c name).run := by
  rw [sourcePath_eq]
  refine .sources fun p => ?_
  unfold pathBy
  cases p.index.source? name with
  | none => exact .andThen (.query rfl rfl) fun file => .andThen .log fun _ => .done _
  | some relative => exact .done _

theorem inspects_positionOf (l : Location) : Inspects (positionOf l) := by
  refine .bind (.query rfl rfl) fun table => ?_
  split
  · exact .done _
  split
  · exact .done _
  refine .bind (.andThen (inspects_binaryName _) fun name => inspects_sourcePath _ name) fun path => ?_
  split <;> exact .done _

theorem inspects_frameViews (thread : ThreadId) (frames : List Jdwp.Frame) : Inspects (frameViews thread frames) := by
  induction frames with
  | nil => exact .done _
  | cons f rest ih =>
    exact .bind (inspects_methodName _) fun _ => .bind (inspects_positionOf _) fun _ => .bind ih fun _ => .done _

theorem inspects_stackTrace (thread : ThreadId) : Inspects (stackTrace thread).run :=
  .andThen (.ask rfl rfl) fun frames => .lift (inspects_frameViews thread frames)

theorem inspects_renderObject (thread : ThreadId) (name : String) (kind : Jdwp.ReferenceKind) (object : ObjectId) :
    Inspects (renderObject thread name kind object).run := by
  unfold renderObject
  split
  · exact .andThen (.ask rfl rfl) fun _ => .done _
  · refine .andThen (.ask rfl rfl) fun c => .andThen (.exchange (.learn .signature c)) fun s => ?_
    split
    · exact .andThen (.ask rfl rfl) fun _ => .done _
    · exact .done _

theorem inspects_renderValue (thread : ThreadId) (name : String) (declared : Option String) (v : Jdwp.Value) :
    Inspects (renderValue thread name declared v).run := by
  unfold renderValue
  split
  · split
    · exact .done _
    · exact inspects_renderObject ..
  · exact .done _
  · exact .done _

theorem inspects_renderAll (thread : ThreadId) (values : List (String × Option String × Jdwp.Value)) :
    Inspects (renderAll thread values).run := by
  induction values with
  | nil => exact .done _
  | cons v rest ih => exact .andThen (inspects_renderValue ..) fun _ => .andThen ih fun _ => .done _

theorem inspects_thisVariable (frame : FrameRef) : Inspects (thisVariable frame).run := by
  refine .andThen (.ask rfl rfl) fun this => ?_
  split
  · exact .done _
  · exact .andThen (inspects_renderValue ..) fun _ => .done _

theorem inspects_variableTable? (l : Location) : Inspects (variableTable? l).run := by
  refine .andThen (.lift (.query rfl rfl)) fun table => ?_
  split
  · exact .done _
  · split
    · exact .andThen .log fun _ => .done _
    · exact .done _

theorem inspects_locals (frame : FrameRef) : Inspects (locals frame).run := by
  refine .andThen (inspects_thisVariable frame) fun this => .andThen (inspects_variableTable? _) fun table => ?_
  split
  · exact .done _
  · dsimp only
    split
    · exact .done _
    · exact .andThen (.ask rfl rfl) fun values => .andThen (inspects_renderAll ..) fun _ => .done _

theorem inspects_expand (reference : VariableRef) : Inspects (expand reference).run := by
  cases reference with
  | locals frame => exact inspects_locals frame
  | object thread object =>
    refine .andThen (.ask rfl rfl) fun c => .andThen (.exchange (.learn .fields c)) fun known => ?_
    dsimp only
    split
    · exact .done _
    · exact .andThen (.ask rfl rfl) fun _ => inspects_renderAll ..
  | array thread array length =>
    change Inspects (arrayElements thread array length).run
    unfold arrayElements
    extract_lets shown
    split
    · exact .done _
    · exact .andThen (.ask rfl rfl) fun _ => inspects_renderAll ..

theorem inspects_follow (x : Variable) (names : List String) : Inspects (follow x names).run := by
  induction names generalizing x with
  | nil => exact .done _
  | cons name rest ih =>
    unfold follow
    split
    · exact .done _
    · refine .andThen (inspects_expand _) fun found => ?_
      split
      · exact ih _
      · exact .done _

theorem inspects_evaluate (frame : FrameRef) (expression : String) : Inspects (evaluate frame expression).run := by
  unfold evaluate
  split
  · exact .done _
  split
  · exact .done _
  refine .andThen (inspects_locals frame) fun known => ?_
  split
  · exact .done _
  · exact .andThen (inspects_follow ..) fun _ => .done _

theorem inspects_thisFields (known : List Variable) : Inspects (thisFields known).run := by
  unfold thisFields
  split
  · exact inspects_expand _
  · exact .done _

theorem inspects_completions (frame : FrameRef) (text : String) : Inspects (completions frame text).run := by
  unfold completions
  split
  · refine .andThen (inspects_evaluate ..) fun found => ?_
    dsimp only
    split
    · exact .andThen (inspects_expand _) fun _ => .done _
    · exact .done _
  · exact .andThen (inspects_locals frame) fun known => .andThen (inspects_thisFields known) fun _ => .done _

theorem inspects_named (ids : List ThreadId) : Inspects (named ids).run := by
  induction ids with
  | nil => exact .done _
  | cons id rest ih =>
    refine .andThen (.lift (.query rfl rfl)) fun name => ?_
    cases name with
    | ok name => exact .andThen ih fun _ => .done _
    | error e =>
      dsimp only
      split
      · exact .done _
      · exact .andThen .log fun _ => ih

theorem inspects_threads : Inspects threads.run := .andThen (.ask rfl rfl) fun ids => inspects_named ids

theorem inspects_exceptionMessage (exception : ObjectId) : Inspects (exceptionMessage exception).run := by
  refine .andThen .detailField? fun field => ?_
  split
  · exact .done _
  refine .andThen (.ask rfl rfl) fun values => ?_
  split
  · exact .done _
  exact .andThen (.ask rfl rfl) fun _ => .done _

theorem inspects_describeException (exception : ObjectId) (caught : Bool) :
    Inspects (describeException exception caught).run := by
  refine .andThen (.ask rfl rfl) fun c => .andThen (.exchange (inspects_binaryName c)) fun name => ?_
  refine .andThen (.lift (inspects_exceptionMessage exception)) fun message => ?_
  cases message with
  | ok message => exact .done _
  | error e =>
    dsimp only
    split
    · exact .done _
    · exact .andThen .log fun _ => .done _

/-! ## What is left alone -/

/-- Bounds that allow to look at the machine, and to remember what is learnt about classes. -/
structure Looking (b : Bounds Debuggee World) : Prop where
  learns : ∀ d types detailField, b.changes d { d with types, detailField }
  asks : ∀ c : Jdwp.Command, c.looks = true → b.calls (.command c)
  keep : b.keep = fun _ d => d

namespace Looking

variable (hLooking : Looking b)
include hLooking

theorem stays (d : Debuggee) : b.changes d d := hLooking.learns d d.types d.detailField

theorem query {q : Query α} (hLooks : q.command.looks = true) : (query q).run.Within b fun _ => True :=
  ⟨hLooking.asks _ hLooks, hLooking.stays, fun _ => trivial⟩

theorem note {level : Log.Level} {part : Log.Part} {text : String} :
    (Routine.log level part text : Activity Unit).Within b fun _ => True :=
  ⟨fun d => hLooking.keep ▸ hLooking.stays d, trivial⟩

theorem notes {level : Log.Level} {part : Log.Part} {text : String} :
    (ExceptT.lift (Routine.log level part text) : Work Unit).run.Within b fun _ => True :=
  Attempt.within_lift.mpr hLooking.note

end Looking

theorem within_exchange {x : Exchange α} (h : x.run.Within b fun _ => True) :
    (exchange x).run.Within b fun _ => True :=
  Attempt.within_mapError.mpr (h.mono fun _ _ => trivial)

theorem within_learn (hLooking : Looking b) (t : Trait) (c : ClassId) : (t.learn c).run.Within b fun _ => True := by
  refine Attempt.within_then (Attempt.within_lift.mpr fun d => ⟨hLooking.stays d, trivial⟩) (fun d => ?_) fun _ => trivial
  split
  · trivial
  · refine Attempt.within_then (hLooking.query (t.looks_query c)) (fun a => ?_) fun _ => trivial
    exact Attempt.within_then (Attempt.within_lift.mpr fun d => ⟨hLooking.learns d _ d.detailField, trivial⟩)
      (fun _ => trivial) fun _ => trivial

theorem within_detailField? (hLooking : Looking b) : detailField?.run.Within b fun _ => True := by
  refine Attempt.within_then (Attempt.within_lift.mpr fun d => ⟨hLooking.stays d, trivial⟩) (fun d => ?_) fun _ => trivial
  split
  · trivial
  refine Attempt.within_then (within_exchange (hLooking.query rfl)) (fun found => ?_) fun _ => trivial
  split
  · trivial
  refine Attempt.within_then (within_exchange (within_learn hLooking .fields _)) (fun fields => ?_) fun _ => trivial
  dsimp only
  split
  · exact Attempt.within_then (Attempt.within_lift.mpr fun d => ⟨hLooking.learns d d.types _, trivial⟩)
      (fun _ => trivial) fun _ => trivial
  · trivial

/-- Whoever looks changes nothing but what is known about classes. -/
theorem Inspects.within {r : Activity α} (h : Inspects r) (hLooking : Looking b) : r.Within b fun _ => True := by
  induction h with
  | done _ => trivial
  | query hLooks _ => exact hLooking.query hLooks
  | learn t c => exact within_learn hLooking t c
  | detailField? => exact within_detailField? hLooking
  | sources _ ih => exact fun d => ⟨hLooking.stays d, ih d.placer⟩
  | note _ _ ih => exact ⟨fun d => hLooking.keep ▸ hLooking.stays d, ih⟩
  | bind _ _ ih ihNext => exact Routine.within_then ih ihNext

/-! ## Nobody is waited for -/

theorem learn_unwaiting (t : Trait) (c : ClassId) : (t.learn c).run.Unwaiting := by
  refine Attempt.unwaiting_bind (fun _ => trivial) fun d => ?_
  split
  · trivial
  · exact Attempt.unwaiting_bind (fun _ => trivial) fun a => Attempt.unwaiting_bind (fun _ => trivial) fun _ => trivial

theorem exchange_unwaiting {x : Exchange α} (h : x.run.Unwaiting) : (exchange x).run.Unwaiting := h.map

theorem ask_unwaiting (q : Query α) : (ask q).run.Unwaiting := exchange_unwaiting fun _ => trivial

theorem detailField?_unwaiting : detailField?.run.Unwaiting := by
  refine Attempt.unwaiting_bind (fun _ => trivial) fun d => ?_
  split
  · trivial
  refine Attempt.unwaiting_bind (ask_unwaiting _) fun found => ?_
  split
  · trivial
  refine Attempt.unwaiting_bind (exchange_unwaiting (learn_unwaiting .fields _)) fun fields => ?_
  dsimp only
  split
  · exact Attempt.unwaiting_bind (fun _ => trivial) fun _ => trivial
  · trivial

theorem Inspects.unwaiting {r : Activity α} (h : Inspects r) : r.Unwaiting := by
  induction h with
  | done _ => trivial
  | query _ _ => exact fun _ => trivial
  | learn t c => exact learn_unwaiting t c
  | detailField? => exact detailField?_unwaiting
  | sources _ ih => exact fun d => ih d.placer
  | note _ _ ih => exact ih
  | bind _ _ ih ihNext => exact ih.bind ihNext

end Debuggee
end JvmDebug
