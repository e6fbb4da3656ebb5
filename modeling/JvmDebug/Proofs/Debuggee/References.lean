import JvmDebug.Debuggee.Control
import JvmDebug.Proofs.Routine.Bounds

/-!
# The threads of what a debuggee shows

Everything that can be looked at belongs to a thread. What a debuggee shows of a thread belongs to that thread, and so
do the children of whatever it shows, at any depth.
-/

namespace JvmDebug.Debuggee
set_option autoImplicit false

open Jdwp (ThreadId ObjectId)

variable {α β ε : Type} {thread : ThreadId} {frame : FrameRef} {reference : VariableRef}

/-- Only what a routine yields counts. -/
def anyhow : Bounds Debuggee World := ⟨fun _ _ => True, fun _ => True, fun _ d => d⟩

theorem within_anyhow (r : Activity α) : r.Within anyhow fun _ => True := by
  induction r with
  | done _ => trivial
  | atomic _ _ ih => exact fun s => ⟨trivial, ih s⟩
  | wait _ _ _ _ ih => exact ⟨fun _ => ⟨fun _ => trivial, fun _ => trivial⟩, ih⟩
  | call _ _ ih => exact ⟨trivial, fun _ => trivial, ih⟩
  | note _ _ ih => exact ⟨fun _ => trivial, ih⟩

/-- Work that yields only what is as `fits` says, if it does not fail. -/
abbrev Yields (fits : α → Prop) (w : Attempt ε Debuggee World α) : Prop :=
  w.run.Within anyhow (Attempt.andThen fits fun _ => True)

theorem yields_pure {fits : α → Prop} {a : α} (h : fits a) : Yields fits (pure a : Attempt ε Debuggee World α) := h

theorem yields_then {fits : β → Prop} {w : Attempt ε Debuggee World α} {k : α → Attempt ε Debuggee World β}
    (h : ∀ a, Yields fits (k a)) : Yields fits (w >>= k) :=
  Attempt.within_then (within_anyhow _) h fun _ => trivial

theorem yields_bind {fits : β → Prop} {first : α → Prop} {w : Attempt ε Debuggee World α}
    {k : α → Attempt ε Debuggee World β} (hFirst : Yields first w) (hNext : ∀ a, first a → Yields fits (k a)) :
    Yields fits (w >>= k) := by
  refine Attempt.within_bind.mpr (hFirst.mono ?_)
  rintro (e | a) ha
  · exact ha
  · exact hNext a ha

/-- A variable whose children, if it has any, belong to a thread. -/
def Variable.of (thread : ThreadId) (x : Variable) : Prop := ∀ r ∈ x.children, r.thread = thread

theorem of_none {x : Variable} (h : x.children = none) : Variable.of thread x := by
  intro r hr
  rw [h] at hr
  cases hr

theorem renderObject_of (name : String) (kind : Jdwp.ReferenceKind) (object : ObjectId) :
    Yields (Variable.of thread) (renderObject thread name kind object) := by
  unfold renderObject
  split
  · exact yields_then fun text => yields_pure (of_none rfl)
  refine yields_then fun c => yields_then fun signature => ?_
  split
  · refine yields_then fun length => yields_pure ?_
    intro r hr
    simp only [Option.mem_def] at hr
    split at hr <;> cases hr
    rfl
  · refine yields_pure ?_
    rintro r ⟨⟩
    rfl

theorem renderValue_of (name : String) (declared : Option String) (v : Jdwp.Value) :
    Yields (Variable.of thread) (renderValue thread name declared v) := by
  unfold renderValue
  split
  · split
    · exact yields_pure (of_none rfl)
    · exact renderObject_of ..
  · exact yields_pure (of_none rfl)
  · exact yields_pure (of_none rfl)

theorem renderAll_of (values : List (String × Option String × Jdwp.Value)) :
    Yields (fun xs => ∀ x ∈ xs, Variable.of thread x) (renderAll thread values) := by
  induction values with
  | nil => exact yields_pure (by simp)
  | cons v rest ih =>
    obtain ⟨name, declared, value⟩ := v
    refine yields_bind (renderValue_of name declared value) fun x hx => ?_
    exact yields_bind ih fun xs hxs => yields_pure (by simpa using ⟨hx, hxs⟩)

theorem thisVariable_of : Yields (fun xs => ∀ x ∈ xs, Variable.of frame.thread x) (thisVariable frame) := by
  refine yields_then fun this => ?_
  split
  · exact yields_pure (by simp)
  · exact yields_bind (renderValue_of ..) fun x hx => yields_pure (by simpa using hx)

theorem locals_of : Yields (fun xs => ∀ x ∈ xs, Variable.of frame.thread x) (locals frame) := by
  refine yields_bind thisVariable_of fun this hThis => yields_then fun table => ?_
  split
  · exact yields_pure hThis
  · dsimp only
    split
    · exact yields_pure hThis
    · refine yields_then fun values => yields_bind (renderAll_of _) fun xs hxs => yields_pure ?_
      intro x hx
      exact (List.mem_append.mp hx).elim (hThis x) (hxs x)

/-- The children of whatever belongs to a thread belong to that thread. -/
theorem expand_of : Yields (fun xs => ∀ x ∈ xs, Variable.of reference.thread x) (expand reference) := by
  cases reference with
  | locals frame => exact locals_of
  | object thread object =>
    refine yields_then fun c => yields_then fun own => ?_
    dsimp only
    split
    · exact yields_pure (by simp)
    · exact yields_then fun values => renderAll_of _
  | array thread array length =>
    have hShown : ∀ shown : Int32, Yields (fun xs => ∀ x ∈ xs, Variable.of thread x) (do
        if shown ≤ 0 then return []
        let values ← ask (Jdwp.Query.arrayValues array 0 shown)
        renderAll thread (values.mapIdx fun i value => (s!"[{i}]", none, value))) := by
      intro shown
      split
      · exact yields_pure (by simp)
      · exact yields_then fun values => renderAll_of _
    exact hShown (if length < maxElements then length else maxElements)

theorem follow_of (names : List String) (x : Variable) (hx : Variable.of thread x) :
    Yields (fun found => ∀ y ∈ found, Variable.of thread y) (follow x names) := by
  induction names generalizing x with
  | nil => exact yields_pure (by simpa using hx)
  | cons name rest ih =>
    unfold follow
    split
    · exact yields_pure (by simp)
    · next children hChildren =>
      refine yields_bind expand_of fun xs hxs => ?_
      split
      · next next hFind =>
        have hThread : children.thread = thread := hx children hChildren
        exact ih next (hThread ▸ hxs next (List.mem_of_find?_eq_some hFind))
      · exact yields_pure (by simp)

theorem evaluate_of (expression : String) :
    Yields (fun found => ∀ x ∈ found, Variable.of frame.thread x) (evaluate frame expression) := by
  unfold evaluate
  split
  · exact yields_pure (by simp)
  split
  · exact yields_pure (by simp)
  refine yields_bind locals_of fun xs hxs => ?_
  split
  · exact yields_pure (by simp)
  · next x hFind =>
    refine yields_bind (follow_of _ x (hxs x (List.mem_of_find?_eq_some hFind))) fun found hFound => yields_pure ?_
    intro y hy
    obtain ⟨z, hz, rfl⟩ := Option.map_eq_some_iff.mp hy
    exact hFound z hz

theorem frameViews_of (frames : List Jdwp.Frame) :
    (frameViews thread frames).Within anyhow fun stack => ∀ f ∈ stack, f.frame.thread = thread := by
  induction frames with
  | nil => simp [frameViews]
  | cons f rest ih =>
    refine Routine.within_then (within_anyhow _) fun name => Routine.within_then (within_anyhow _) fun position => ?_
    refine Routine.within_bind.mpr (ih.mono fun stack hStack => ?_)
    simpa using hStack

/-! ## Answers -/

theorem yields_orNotFound {fits : α → Prop} {w : Work α} (h : Yields fits w) : Yields fits (orNotFound w) := by
  refine Attempt.within_mapError.mpr (h.mono ?_)
  rintro (e | a) ha
  · trivial
  · exact ha

theorem thread_of_stackTrace {stack : List StackFrame} (h : (serve (.stackTrace thread)).MayYield (.ok stack)) :
    ∀ f ∈ stack, f.frame.thread = thread := by
  have hYields : Yields (fun stack => ∀ f ∈ stack, f.frame.thread = thread) (stackTrace thread) :=
    yields_then fun frames => Attempt.within_lift.mpr (frameViews_of frames)
  exact (yields_orNotFound hYields).yields h

theorem thread_of_scopes {found : List Scope} (h : (serve (.scopes frame)).MayYield (.ok found)) :
    ∀ x ∈ found, x.contents.thread = frame.thread := by
  cases h
  simp [scopes, VariableRef.thread]

theorem thread_of_expand {children : List Variable} (h : (serve (.expand reference)).MayYield (.ok children)) :
    ∀ x ∈ children, Variable.of reference.thread x :=
  (yields_orNotFound expand_of).yields h

theorem thread_of_evaluate {expression : String} {found : Variable}
    (h : (serve (.evaluate frame expression)).MayYield (.ok (some found))) : Variable.of frame.thread found :=
  (yields_orNotFound (evaluate_of expression)).yields h found rfl

end JvmDebug.Debuggee
