import JvmDebug.Proofs.Debuggee.Naming
import JvmDebug.Proofs.Debuggee.Standstill

/-!
# What is completed can be evaluated

On a machine that stands still, a path is evaluated to what it leads to from the variables of a frame. So the names
behind it are those with which it can go on. The fields of `this` are completed by their names alone, but a path leads
to them through `this`.
-/

namespace JvmDebug.Debuggee
set_option autoImplicit false

open Attempt (andThen)
open Jdwp (Query VariableEntry)

variable {reply : Jdwp.Command → Except Jdwp.Error Jdwp.Reply} {frame : FrameRef} {x y z : Variable} {name : String}
  {names : List String}

/-! ## Where paths lead -/

/-- Names that lead from a variable to another, each to the first child with that name. -/
inductive Leads (reply : Jdwp.Command → Except Jdwp.Error Jdwp.Reply) : Variable → List String → Variable → Prop where
  | here (x : Variable) : Leads reply x [] x
  | child {x next y : Variable} {name : String} {rest : List String} {r : VariableRef} {xs : List Variable} :
      x.children = some r → Settles reply (expand r) (.ok xs) → xs.find? (·.name = name) = some next →
      Leads reply next rest y → Leads reply x (name :: rest) y

theorem Leads.snoc {r : VariableRef} {ys : List Variable} (h : Leads reply x names y) (hChildren : y.children = some r)
    (hExpand : Settles reply (expand r) (.ok ys)) (hFind : ys.find? (·.name = name) = some z) :
    Leads reply x (names ++ [name]) z := by
  induction h with
  | here x => exact .child hChildren hExpand hFind (.here z)
  | child hFirst hSettles hNext _ ih => exact .child hFirst hSettles hNext (ih hChildren)

theorem settles_follow_iff : Settles reply (follow x names) (.ok (some y)) ↔ Leads reply x names y := by
  constructor
  · intro h
    induction names generalizing x with
    | nil =>
      cases h.unique (settles_pure (some x))
      exact .here _
    | cons name rest ih =>
      unfold follow at h
      split at h
      · cases h.unique (settles_pure none)
      · next r hChildren =>
        obtain ⟨xs, hExpand, hRest⟩ := h.of_bind (definite_expand r)
        split at hRest
        · next next hFind => exact .child hChildren hExpand hFind (ih hRest)
        · cases hRest.unique (settles_pure none)
  · intro h
    induction h with
    | here x => exact settles_pure _
    | child hChildren hExpand hFind _ ih =>
      unfold follow
      rw [hChildren]
      refine hExpand.bind ?_
      rw [hFind]
      exact ih

/-- A path is evaluated to what its names lead to from the first variable of the frame that is called like its first
name, and shown under the name of the path. -/
theorem settles_evaluate_iff {expression : String} :
    Settles reply (evaluate frame expression) (.ok (some z)) ↔ ∃ first rest known x y,
      pathNames expression = first :: rest ∧ first ≠ "" ∧ Settles reply (locals frame) (.ok known) ∧
        known.find? (·.name = first) = some x ∧ Leads reply x rest y ∧ z = { y with name := trim expression } := by
  constructor
  · intro h
    unfold evaluate at h
    split at h
    · cases h.unique (settles_pure none)
    next first rest hNames =>
    split at h
    · cases h.unique (settles_pure none)
    next hFirst =>
    obtain ⟨known, hKnown, hRest⟩ := h.of_bind (definite_locals frame)
    split at hRest
    · cases hRest.unique (settles_pure none)
    next x hFind =>
    obtain ⟨found, hFollow, hNamed⟩ := hRest.of_bind (definite_follow rest x)
    have hSame := Except.ok.inj (hNamed.unique (settles_pure _))
    obtain ⟨y, rfl, rfl⟩ := Option.map_eq_some_iff.mp hSame.symm
    exact ⟨first, rest, known, x, y, hNames, by simpa using hFirst, hKnown, hFind, settles_follow_iff.mp hFollow, rfl⟩
  · rintro ⟨first, rest, known, x, y, hNames, hFirst, hKnown, hFind, hLeads, rfl⟩
    unfold evaluate
    rw [hNames]
    dsimp only
    rw [if_neg (by simpa using hFirst)]
    refine hKnown.bind ?_
    rw [hFind]
    exact (settles_follow_iff.mpr hLeads).bind (settles_pure _)

theorem exists_find? {xs : List Variable} (hx : x ∈ xs) : ∃ z, xs.find? (·.name = x.name) = some z :=
  Option.isSome_iff_exists.mp (List.find?_isSome.mpr ⟨x, hx, by simp⟩)

/-- A path that is evaluated to something with children goes on with the name of each of these. -/
theorem evaluates_child {before : String} {r : VariableRef} {xs : List Variable} (hPlain : Plain x.name)
    (h : Settles reply (evaluate frame before) (.ok (some y))) (hChildren : y.children = some r)
    (hExpand : Settles reply (expand r) (.ok xs)) (hx : x ∈ xs) :
    ∃ z, Settles reply (evaluate frame (before ++ "." ++ x.name)) (.ok (some z)) := by
  obtain ⟨first, rest, known, start, last, hNames, hFirst, hKnown, hFind, hLeads, rfl⟩ := settles_evaluate_iff.mp h
  obtain ⟨z, hz⟩ := exists_find? hx
  refine ⟨_, settles_evaluate_iff.mpr ⟨first, rest ++ [x.name], known, start, z, ?_, hFirst, hKnown, hFind, ?_, rfl⟩⟩
  · rw [pathNames_append_dot before hPlain, hNames, List.cons_append]
  · exact hLeads.snoc hChildren hExpand hz

/-! ## What is completed -/

theorem mem_addFields {start : String} {items : List Completion} {fields : List Variable} {item : Completion}
    (h : item ∈ addFields start items fields) : item ∈ items ∨ ∃ f ∈ fields, item = ⟨f.name, .property⟩ := by
  induction fields generalizing items with
  | nil => exact .inl h
  | cons f rest ih =>
    rw [addFields] at h
    split at h
    · rcases ih h with hItem | ⟨f', hf', rfl⟩
      · rcases List.mem_append.mp hItem with hOld | hNew
        · exact .inl hOld
        · exact .inr ⟨f, by simp, List.mem_singleton.mp hNew⟩
      · exact .inr ⟨f', by simp [hf'], rfl⟩
    · rcases ih h with hItem | ⟨f', hf', rfl⟩
      · exact .inl hItem
      · exact .inr ⟨f', by simp [hf'], rfl⟩

/-- The name of an element of an array can be told in a path. -/
theorem plain_element (i : Nat) : Plain s!"[{i}]" := by
  have hText : s!"[{i}]".toList = '[' :: (Nat.toDigits 10 i ++ [']']) := by
    simp [toString, Nat.repr]
  constructor
  · rw [hText]
    intro hDot
    have hDigit : '.' ∈ Nat.toDigits 10 i := by simpa using hDot
    exact absurd (Nat.isDigit_of_mem_toDigits (by decide) (by decide) hDigit) (by decide)
  · have hEnds : trimmed ('[' :: (Nat.toDigits 10 i ++ [']'])) = '[' :: (Nat.toDigits 10 i ++ [']']) := by
      rw [trimmed, List.dropWhile_cons_of_neg (by decide), ← List.cons_append, List.reverse_append,
        List.reverse_singleton, List.singleton_append, List.dropWhile_cons_of_neg (by decide), List.reverse_cons,
        List.reverse_reverse]
    rw [trim, hText, hEnds, ← hText, String.ofList_toList]

/-- The names that a machine has given to variables and fields can be told in a path. -/
structure PlainNames (reply : Jdwp.Command → Except Jdwp.Error Jdwp.Reply) : Prop where
  tables : ∀ l table, told reply (tableQuery l) = .ok table → ∀ v ∈ table, Plain v.name
  fields : ∀ c fs, told reply (Query.fields c) = .ok fs → ∀ f ∈ fs, Plain f.name

theorem plain_this : Plain "this" := ⟨by decide, by decide +kernel⟩

theorem PlainNames.fit (h : PlainNames reply) : NamesFit (still reply) Plain where
  this := plain_this
  tables l table hTold := h.tables l table (answered_still.mp hTold).symm
  fields c fs hTold := h.fields c fs (answered_still.mp hTold).symm
  elements := plain_element

theorem PlainNames.of_expand {r : VariableRef} {xs : List Variable} (h : PlainNames reply)
    (hExpand : Settles reply (expand r) (.ok xs)) : ∀ x ∈ xs, Plain x.name :=
  hExpand.is (finds_expand_named h.fit r)

/-- The path to what is completed: behind the last dot that there is already, or through `this` to a field of it. -/
def pathTo (text : String) (item : Completion) : String :=
  match splitLastDot? text, item.kind with
  | some (before, _), _ => before ++ "." ++ item.label
  | none, .variable => item.label
  | none, .property => "this" ++ "." ++ item.label

variable {text : String} {items : List Completion} {item : Completion}

theorem evaluates_behind_dot {before start : String} (hNames : PlainNames reply)
    (hText : splitLastDot? text = some (before, start)) (h : Settles reply (completions frame text) (.ok items))
    (hItem : item ∈ items) : ∃ z, Settles reply (evaluate frame (before ++ "." ++ item.label)) (.ok (some z)) := by
  unfold completions at h
  rw [hText] at h
  obtain ⟨found, hFound, hRest⟩ := h.of_bind (definite_evaluate frame before)
  dsimp only at hRest
  split at hRest
  · next r hChildren =>
    obtain ⟨xs, hExpand, hListed⟩ := hRest.of_bind (definite_expand r)
    obtain rfl := Except.ok.inj (hListed.unique (settles_pure _))
    obtain ⟨x, hx, rfl⟩ := List.mem_map.mp hItem
    obtain ⟨y, rfl, hy⟩ := Option.bind_eq_some_iff.mp hChildren
    have hIn := (List.mem_filter.mp hx).1
    exact evaluates_child (hNames.of_expand hExpand x hIn) hFound hy hExpand hIn
  · obtain rfl := Except.ok.inj (hRest.unique (settles_pure _))
    cases hItem

theorem evaluates_variable {known : List Variable} (hPlain : Plain x.name) (hName : x.name ≠ "")
    (hKnown : Settles reply (locals frame) (.ok known)) (hx : x ∈ known) :
    ∃ z, Settles reply (evaluate frame x.name) (.ok (some z)) := by
  obtain ⟨y, hy⟩ := exists_find? hx
  have hNames := pathNames_of_plain hPlain
  exact ⟨_, settles_evaluate_iff.mpr ⟨x.name, [], known, y, y, hNames, hName, hKnown, hy, .here y, rfl⟩⟩

/-- Fields of `this` are those of the first variable with that name. -/
theorem evaluates_field {known fields : List Variable} (hPlain : Plain x.name)
    (hKnown : Settles reply (locals frame) (.ok known)) (hFields : Settles reply (thisFields known) (.ok fields))
    (hx : x ∈ fields) : ∃ z, Settles reply (evaluate frame ("this" ++ "." ++ x.name)) (.ok (some z)) := by
  unfold thisFields at hFields
  split at hFields
  · next r hChildren =>
    obtain ⟨this, hFind, hThis⟩ := Option.bind_eq_some_iff.mp hChildren
    have hEvaluate : Settles reply (evaluate frame "this") (.ok (some { this with name := trim "this" })) :=
      settles_evaluate_iff.mpr ⟨"this", [], known, this, this, pathNames_of_plain plain_this, by decide, hKnown, hFind,
        .here this, rfl⟩
    exact evaluates_child hPlain hEvaluate hThis hFields hx
  · obtain rfl := Except.ok.inj (hFields.unique (settles_pure _))
    cases hx

theorem evaluates_undotted (hNames : PlainNames reply) (hText : splitLastDot? text = none)
    (h : Settles reply (completions frame text) (.ok items)) (hItem : item ∈ items) :
    (∃ x, item = ⟨x, .variable⟩ ∧ (x ≠ "" → ∃ z, Settles reply (evaluate frame x) (.ok (some z)))) ∨
      ∃ x, item = ⟨x, .property⟩ ∧ ∃ z, Settles reply (evaluate frame ("this" ++ "." ++ x)) (.ok (some z)) := by
  unfold completions at h
  rw [hText] at h
  obtain ⟨known, hKnown, hRest⟩ := h.of_bind (definite_locals frame)
  obtain ⟨fields, hFields, hListed⟩ := hRest.of_bind (definite_thisFields known)
  obtain rfl := Except.ok.inj (hListed.unique (settles_pure _))
  rcases mem_addFields hItem with hItem | ⟨f, hf, rfl⟩
  · obtain ⟨x, hx, rfl⟩ := List.mem_map.mp hItem
    have hIn := (List.mem_filter.mp hx).1
    have hPlain : Plain x.name := hNames.of_expand (r := .locals frame) hKnown x hIn
    exact .inl ⟨x.name, rfl, fun hName => evaluates_variable hPlain hName hKnown hIn⟩
  · have hPlain : Plain f.name := hFields.is (finds_thisFields_named hNames.fit known) f hf
    exact .inr ⟨f.name, rfl, evaluates_field hPlain hKnown hFields hf⟩

/-- Whatever is completed can be evaluated: behind a dot, behind what stands before that dot; elsewhere a variable by
its name, and a field of `this` through `this`. -/
theorem completed_can_be_evaluated (hNames : PlainNames reply) (frame : FrameRef) (text : String) :
    ∃ found, Settles reply (completions frame text) found ∧ (Forthcoming reply → ∃ items, found = .ok items) ∧
      ∀ items, found = .ok items → ∀ item ∈ items, (item.kind = .variable → item.label ≠ "") →
        ∃ z, Settles reply (evaluate frame (pathTo text item)) (.ok (some z)) := by
  obtain ⟨found, hFound, hSucceeds⟩ := definite_completions frame text
  refine ⟨found, hFound, hSucceeds, ?_⟩
  rintro items rfl item hItem hLabel
  unfold pathTo
  cases hText : splitLastDot? text with
  | some parts => exact evaluates_behind_dot hNames hText hFound hItem
  | none =>
    obtain ⟨x, rfl, hVariable⟩ | ⟨x, rfl, hField⟩ := evaluates_undotted hNames hText hFound hItem
    · exact hVariable (hLabel rfl)
    · exact hField

/-! On the machine that stands in a method of a point. -/

theorem tells_point_table (l : Jdwp.Location) : told pointReply (tableQuery l) = .ok pointTable := by
  change told pointReply (tableQuery pointFrame.location) = .ok pointTable
  decide +kernel

theorem tells_point_fields (c : Jdwp.ClassId) : told pointReply (Query.fields c) = .ok [⟨9, "x", "I", 0⟩] := by
  change told pointReply (Query.fields 7) = .ok [⟨9, "x", "I", 0⟩]
  decide +kernel

theorem plainNames_point : PlainNames pointReply where
  tables l table hTold v hv := by
    obtain rfl := Except.ok.inj (hTold.symm.trans (tells_point_table l))
    have hAll : ∀ v ∈ pointTable, '.' ∉ v.name.toList ∧ trim v.name = v.name := by decide +kernel
    exact ⟨(hAll v hv).1, (hAll v hv).2⟩
  fields c fs hTold f hf := by
    obtain rfl := Except.ok.inj (hTold.symm.trans (tells_point_fields c))
    obtain rfl := List.mem_singleton.mp hf
    exact ⟨by decide, by decide +kernel⟩

theorem point_completions_can_be_evaluated :
    PlainNames pointReply ∧ ∃ found, Settles pointReply (completions pointFrame "") found ∧
      (Forthcoming pointReply → ∃ items, found = .ok items) ∧
      ∀ items, found = .ok items → ∀ item ∈ items, (item.kind = .variable → item.label ≠ "") →
        ∃ z, Settles pointReply (evaluate pointFrame (pathTo "" item)) (.ok (some z)) :=
  ⟨plainNames_point, completed_can_be_evaluated plainNames_point pointFrame ""⟩

theorem forthcoming_point : Forthcoming pointReply where
  this thread frame := ⟨some 5, by change told pointReply (Query.thisObject 1 2) = .ok (some 5); decide +kernel⟩
  table l e hRefused := by cases (tells_point_table l).symm.trans hRefused
  values frame asked := by
    by_cases hAsked : (valuesQuery frame asked).command = (valuesQuery pointFrame [byEntry, thisEntry]).command
    · refine ⟨[.int 3, .reference .object 5], ?_⟩
      rw [told, hAsked]
      change told pointReply (valuesQuery pointFrame [byEntry, thisEntry]) = _
      decide +kernel
    · refine ⟨[.reference .object 5, .int 3], ?_⟩
      have hReply : pointReply (valuesQuery frame asked).command = pointReply (valuesQuery pointFrame []).command := by
        simp only [pointReply, if_neg hAsked]
        rfl
      rw [told, hReply]
      change told pointReply (valuesQuery pointFrame []) = _
      decide +kernel
  classOf object := ⟨7, by change told pointReply (Query.classOf 5) = .ok 7; decide +kernel⟩
  signature c := ⟨"LPoint;", by change told pointReply (Query.signature 7) = .ok "LPoint;"; decide +kernel⟩
  fields c := ⟨_, tells_point_fields c⟩
  objectValues object ids :=
    ⟨[.int 4], by change told pointReply (Query.objectValues 5 []) = .ok [.int 4]; decide +kernel⟩
  text object := ⟨"", by change told pointReply (Query.stringValue 5) = .ok ""; decide +kernel⟩
  length array := ⟨0, by change told pointReply (Query.arrayLength 5) = .ok 0; decide +kernel⟩
  elements array first length := ⟨[], by change told pointReply (Query.arrayValues 5 0 0) = .ok []; decide +kernel⟩

/-- The same machine, but the one variable of its table has no name. -/
def namelessReply (c : Jdwp.Command) : Except Jdwp.Error Jdwp.Reply :=
  match c.set, c.number with
  | 6, 2 => .ok ⟨1, 0, Jdwp.Layout.i32 2 ++ Jdwp.Layout.count 1 ++ Jdwp.Layout.u64 0 ++ Jdwp.Layout.string "" ++
      Jdwp.Layout.string "I" ++ Jdwp.Layout.u32 10 ++ Jdwp.Layout.u32 1⟩
  | _, _ => pointReply c

theorem plainNames_nameless : PlainNames namelessReply where
  tables l table hTold v hv := by
    have hTable : told namelessReply (tableQuery l) = .ok [⟨0, "", "I", 10, 1⟩] := by
      change told namelessReply (tableQuery pointFrame.location) = .ok [⟨0, "", "I", 10, 1⟩]
      decide +kernel
    obtain rfl := Except.ok.inj (hTold.symm.trans hTable)
    obtain rfl := List.mem_singleton.mp hv
    exact ⟨by decide, by decide +kernel⟩
  fields c fs hTold := plainNames_point.fields c fs hTold

/-- Where there is no dot, neither a field of `this` nor a variable without a name is a path by its name alone, though
nothing is refused. -/
theorem undotted_labels_not_evaluated :
    PlainNames pointReply ∧ Forthcoming pointReply ∧
      outcome? pointReply (completions pointFrame "x") = some (.ok [⟨"x", .property⟩]) ∧
      outcome? pointReply (evaluate pointFrame "x") = some (.ok none) ∧ PlainNames namelessReply ∧
      outcome? namelessReply (completions pointFrame "") =
        some (.ok [⟨"this", .variable⟩, ⟨"", .variable⟩, ⟨"x", .property⟩]) ∧
      outcome? namelessReply (evaluate pointFrame "") = some (.ok none) := by
  refine ⟨plainNames_point, forthcoming_point, ?_, ?_, plainNames_nameless, ?_, ?_⟩ <;> decide +kernel

end JvmDebug.Debuggee
