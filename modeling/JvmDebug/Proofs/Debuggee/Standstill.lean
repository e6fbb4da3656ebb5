import JvmDebug.Proofs.Debuggee.Locals

/-!
# What is seen of a machine that stands still

A machine that answers every query in the same way each time looks the same each time: all that can be looked at there
comes to one thing, whatever is known of the machine already and whoever else looks at it.
-/

namespace JvmDebug.Debuggee
set_option autoImplicit false

open Jdwp (ClassId ObjectId ThreadId FieldId FrameId Query Value VariableEntry)

variable {α β ε : Type} {reply : Jdwp.Command → Except Jdwp.Error Jdwp.Reply}

/-- No query about what can be looked at is refused. That there is no variable table is no refusal. -/
structure Forthcoming (reply : Jdwp.Command → Except Jdwp.Error Jdwp.Reply) : Prop where
  this : ∀ thread frame, ∃ a, told reply (Query.thisObject thread frame) = .ok a
  table : ∀ l e, told reply (tableQuery l) = .error e → Absent e
  values : ∀ frame asked, ∃ a, told reply (valuesQuery frame asked) = .ok a
  classOf : ∀ object, ∃ a, told reply (Query.classOf object) = .ok a
  signature : ∀ c, ∃ a, told reply (Query.signature c) = .ok a
  fields : ∀ c, ∃ a, told reply (Query.fields c) = .ok a
  objectValues : ∀ object ids, ∃ a, told reply (Query.objectValues object ids) = .ok a
  text : ∀ object, ∃ a, told reply (Query.stringValue object) = .ok a
  length : ∀ array, ∃ a, told reply (Query.arrayLength array) = .ok a
  elements : ∀ array first length, ∃ a, told reply (Query.arrayValues array first length) = .ok a

/-- Work that comes to this, and to nothing else. -/
def Settles (reply : Jdwp.Command → Except Jdwp.Error Jdwp.Reply) (w : Attempt ε Debuggee World α) (a : Except ε α) :
    Prop :=
  Finds (still reply) (· = a) w

/-- Work that comes to one thing, and does not fail where nothing is refused. -/
def Definite (reply : Jdwp.Command → Except Jdwp.Error Jdwp.Reply) (w : Attempt ε Debuggee World α) : Prop :=
  ∃ a, Settles reply w a ∧ (Forthcoming reply → ∃ b, a = .ok b)

/-! ## One thing after another -/

section Rules

variable {w : Attempt ε Debuggee World α} {k : α → Attempt ε Debuggee World β} {a : α} {e : ε}

theorem settles_pure (a : α) : Settles reply (pure a : Attempt ε Debuggee World α) (.ok a) := finds_pure rfl

theorem Settles.is {found : Except ε α → Prop} {a : Except ε α} (h : Settles reply w a)
    (hFound : Finds (still reply) found w) : found a := by
  obtain ⟨b, hComes, rfl⟩ := h.comes
  obtain ⟨c, hComes', hc⟩ := hFound.comes
  obtain rfl := Option.some.inj (hComes.symm.trans hComes')
  exact hc

theorem Settles.unique {a b : Except ε α} (h : Settles reply w a) (h' : Settles reply w b) : a = b := h.is h'

theorem Settles.bind {b : Except ε β} (h : Settles reply w (.ok a)) (hNext : Settles reply (k a) b) :
    Settles reply (w >>= k) b := by
  refine Finds.bind h ?_ nofun
  rintro _ ⟨⟩
  exact hNext

theorem Settles.fails (h : Settles reply w (.error e)) : Settles reply (w >>= k) (.error e) := by
  refine Finds.bind h nofun ?_
  rintro _ ⟨⟩
  rfl

theorem definite_pure (a : α) : Definite reply (pure a : Attempt ε Debuggee World α) :=
  ⟨_, settles_pure a, fun _ => ⟨a, rfl⟩⟩

theorem Definite.bind (h : Definite reply w) (hNext : ∀ a, Definite reply (k a)) : Definite reply (w >>= k) := by
  obtain ⟨_ | a, hFirst, hSucceeds⟩ := h
  · exact ⟨_, hFirst.fails, fun hForthcoming => nomatch hSucceeds hForthcoming⟩
  · obtain ⟨b, hb, hSucceeds'⟩ := hNext a
    exact ⟨b, hFirst.bind hb, hSucceeds'⟩

/-- What came of one thing after another came of the second, after the first. -/
theorem Settles.of_bind {b : β} (hFirst : Definite reply w) (h : Settles reply (w >>= k) (.ok b)) :
    ∃ a, Settles reply w (.ok a) ∧ Settles reply (k a) (.ok b) := by
  obtain ⟨_ | a, ha, -⟩ := hFirst
  · cases h.unique ha.fails
  · exact ⟨a, ha, ha.is (Finds.of_bind h)⟩

theorem definite_exchange {x : Exchange α} {q : Query α} (h : Finds (still reply) (Answered (still reply) q) x)
    (hSucceeds : Forthcoming reply → ∃ a, told reply q = .ok a) : Definite reply (exchange x) := by
  refine ⟨(told reply q).mapError Error.ofJdwp, ?_, fun hForthcoming => ?_⟩
  · exact Routine.Passes.map (Routine.Passes.mono (fun a _ hTold => congrArg _ (answered_still.mp hTold)) h)
  · obtain ⟨a, ha⟩ := hSucceeds hForthcoming
    exact ⟨a, by rw [ha]; rfl⟩

theorem definite_ask {q : Query α} (hSucceeds : Forthcoming reply → ∃ a, told reply q = .ok a) :
    Definite reply (ask q) :=
  definite_exchange (finds_query fun _ hTold => hTold) hSucceeds

/-- After a query, whether it failed or not. -/
theorem definite_after_query {q : Query α} {k : Except Jdwp.Error α → Work β}
    (hNext : ∀ a, told reply q = a → Definite reply (k a)) : Definite reply (ExceptT.lift (query q).run >>= k) := by
  obtain ⟨b, hb, hSucceeds⟩ := hNext _ rfl
  refine ⟨b, finds_after (· = told reply q) (finds_query fun _ hTold => answered_still.mp hTold) ?_, hSucceeds⟩
  rintro _ rfl
  exact hb

end Rules

/-! ## Looking -/

theorem definite_renderObject (thread : ThreadId) (name : String) (kind : Jdwp.ReferenceKind) (object : ObjectId) :
    Definite reply (renderObject thread name kind object) := by
  unfold renderObject
  split
  · exact (definite_ask fun h => h.text object).bind fun text => definite_pure _
  · refine (definite_ask fun h => h.classOf object).bind fun c => ?_
    refine (definite_exchange (finds_signature c) fun h => h.signature c).bind fun s => ?_
    dsimp only
    split
    · exact (definite_ask fun h => h.length object).bind fun length => definite_pure _
    · exact definite_pure _

theorem definite_renderValue (thread : ThreadId) (name : String) (declared : Option String) (v : Value) :
    Definite reply (renderValue thread name declared v) := by
  unfold renderValue
  split
  · split
    · exact definite_pure _
    · exact definite_renderObject ..
  · exact definite_pure _
  · exact definite_pure _

theorem definite_renderAll (thread : ThreadId) (rows : List (String × Option String × Value)) :
    Definite reply (renderAll thread rows) := by
  induction rows with
  | nil => exact definite_pure _
  | cons row rest ih => exact (definite_renderValue ..).bind fun x => ih.bind fun xs => definite_pure _

theorem definite_thisVariable (frame : FrameRef) : Definite reply (thisVariable frame) := by
  refine (definite_ask fun h => h.this frame.thread frame.id).bind fun this => ?_
  split
  · exact definite_pure _
  · exact (definite_renderValue ..).bind fun x => definite_pure _

theorem definite_variableTable? (l : Jdwp.Location) : Definite reply (variableTable? l) := by
  refine definite_after_query fun table hTable => ?_
  cases table with
  | ok table => exact definite_pure _
  | error e =>
    dsimp only
    split
    · exact ⟨.ok none, finds_after_note (finds_pure rfl), fun _ => ⟨_, rfl⟩⟩
    · next hPresent => exact ⟨.error (Error.ofJdwp e), finds_throw rfl, fun h => absurd (h.table l e hTable) hPresent⟩

theorem definite_locals (frame : FrameRef) : Definite reply (locals frame) := by
  refine (definite_thisVariable frame).bind fun this => (definite_variableTable? frame.location).bind fun table? => ?_
  split
  · exact definite_pure _
  · next table =>
    dsimp only
    split
    · exact definite_pure _
    · refine (definite_ask fun h => h.values frame (liveEntries table frame.location.index)).bind fun values => ?_
      exact (definite_renderAll ..).bind fun xs => definite_pure _

theorem definite_expand (r : VariableRef) : Definite reply (expand r) := by
  cases r with
  | locals frame => exact definite_locals frame
  | object thread object =>
    refine (definite_ask fun h => h.classOf object).bind fun c => ?_
    refine (definite_exchange (finds_fields c) fun h => h.fields c).bind fun fs => ?_
    dsimp only
    split
    · exact definite_pure _
    · exact (definite_ask fun h => h.objectValues object _).bind fun values => definite_renderAll ..
  | array thread array length =>
    change Definite reply (arrayElements thread array length)
    unfold arrayElements
    extract_lets shown
    split
    · exact definite_pure _
    · exact (definite_ask fun h => h.elements array 0 shown).bind fun values => definite_renderAll ..

theorem definite_follow (names : List String) (x : Variable) : Definite reply (follow x names) := by
  induction names generalizing x with
  | nil => exact definite_pure _
  | cons name rest ih =>
    unfold follow
    split
    · exact definite_pure _
    · refine (definite_expand _).bind fun xs => ?_
      split
      · exact ih _
      · exact definite_pure _

theorem definite_evaluate (frame : FrameRef) (expression : String) : Definite reply (evaluate frame expression) := by
  unfold evaluate
  split
  · exact definite_pure _
  split
  · exact definite_pure _
  refine (definite_locals frame).bind fun known => ?_
  split
  · exact definite_pure _
  · exact (definite_follow ..).bind fun found => definite_pure _

theorem definite_thisFields (known : List Variable) : Definite reply (thisFields known) := by
  unfold thisFields
  split
  · exact definite_expand _
  · exact definite_pure _

theorem definite_completions (frame : FrameRef) (text : String) : Definite reply (completions frame text) := by
  unfold completions
  split
  · refine (definite_evaluate ..).bind fun found => ?_
    dsimp only
    split
    · exact (definite_expand _).bind fun xs => definite_pure _
    · exact definite_pure _
  · refine (definite_locals frame).bind fun known => ?_
    exact (definite_thisFields known).bind fun fields => definite_pure _

end JvmDebug.Debuggee
