import JvmDebug.Debuggee.Inspect
import JvmDebug.Proofs.Debuggee.Locals
import JvmDebug.Proofs.Text.Pieces

/-!
# The names of what is shown

The blanks around a path and around its names do not matter, so that a path with one more name behind a dot has that
name as its last.

Whatever is shown has its name from a variable table, from a field, from its place in an array, or it is `this`. The
variables of a frame are put together from the object that the machine calls its `this` and from its variable table;
where the table has an entry for that object, too, it is listed twice.
-/

namespace JvmDebug
set_option autoImplicit false

/-! ## Paths and their names -/

namespace Debuggee

variable {name text before start : String}

/-- A name that means the same wherever it stands in a path. -/
structure Plain (name : String) : Prop where
  undotted : '.' ∉ name.toList
  unpadded : trim name = name

theorem pathNames_eq (expression : String) :
    pathNames expression = (splitBy (· = '.') expression.toList).map fun name => trim (String.ofList name) := by
  have hPieces := congrArg (List.map String.ofList) (trimmed_pieces (p := (· = '.')) (by
    intro c hc
    refine decide_eq_false ?_
    rintro rfl
    cases hc) expression.toList)
  simpa [pathNames, trim, Function.comp_def] using hPieces

theorem splitBy_of_plain (h : Plain name) : splitBy (· = '.') name.toList = [name.toList] := by
  refine splitBy_of_whole fun c hc => decide_eq_false ?_
  rintro rfl
  exact h.undotted hc

theorem pathNames_of_plain (h : Plain name) : pathNames name = [name] := by
  rw [pathNames_eq, splitBy_of_plain h]
  simpa using h.unpadded

theorem pathNames_append_dot (before : String) (h : Plain name) :
    pathNames (before ++ "." ++ name) = pathNames before ++ [name] := by
  have hText : (before ++ "." ++ name).toList = before.toList ++ '.' :: name.toList := by simp
  rw [← pathNames_of_plain h, pathNames_eq, hText, splitBy_append_separator (by rfl), List.map_append, ← pathNames_eq,
    ← pathNames_eq]

/-- What stands before and behind the last dot, if there is one. -/
theorem splitLastDot?_spec (text : String) :
    match splitLastDot? text with
    | some (before, start) => text = before ++ "." ++ start ∧ '.' ∉ start.toList
    | none => '.' ∉ text.toList := by
  have hSplit := List.takeWhile_append_dropWhile (p := (· ≠ '.')) (l := text.toList.reverse)
  have hUndotted : '.' ∉ text.toList.reverse.takeWhile (· ≠ '.') := fun h => by
    simpa using List.mem_takeWhile_imp h
  have hHead := List.head?_dropWhile_not (· ≠ '.') text.toList.reverse
  unfold splitLastDot?
  generalize text.toList.reverse.takeWhile (· ≠ '.') = behind at hSplit hUndotted
  generalize text.toList.reverse.dropWhile (· ≠ '.') = front at hSplit hHead
  have hText : text.toList = front.reverse ++ behind.reverse := by
    rw [← List.reverse_append, hSplit, List.reverse_reverse]
  have hBefore : text.toList.take (text.length - behind.reverse.length) = front.reverse := by
    rw [← String.length_toList, hText, List.length_append, Nat.add_sub_cancel, List.take_left']
    rfl
  dsimp only
  rw [hBefore]
  cases front with
  | nil => simpa [hText] using hUndotted
  | cons c front =>
    obtain rfl : c = '.' := by simpa using hHead
    simp [← String.toList_inj, hText, hUndotted]

theorem splitLastDot?_of_undotted (h : '.' ∉ text.toList) : splitLastDot? text = none := by
  have hSpec := splitLastDot?_spec text
  split at hSpec
  · next hSome =>
    rw [hSpec.1] at h
    simp at h
  · next hNone => exact hNone

end Debuggee
end JvmDebug

namespace JvmDebug.Debuggee
set_option autoImplicit false

open Attempt (andThen)
open Jdwp (ObjectId ThreadId Query Value VariableEntry)

variable {replied : Replying} {frame : FrameRef} {fits : String → Prop}

/-- All the names there are on a machine are as `fits` says. -/
structure NamesFit (replied : Replying) (fits : String → Prop) : Prop where
  this : fits "this"
  tables : ∀ l table, Answered replied (tableQuery l) (.ok table) → ∀ v ∈ table, fits v.name
  fields : ∀ c fs, Answered replied (Query.fields c) (.ok fs) → ∀ f ∈ fs, fits f.name
  elements : ∀ i : Nat, fits s!"[{i}]"

/-! ## Whose names they are -/

section Shown

variable {thread : ThreadId} {rows : List (String × Option String × Value)} {xs : List Variable}

theorem ShowsAll.named (h : ShowsAll replied thread rows xs) (hRows : ∀ row ∈ rows, fits row.1) :
    ∀ x ∈ xs, fits x.name := by
  intro x hx
  have hName : x.name ∈ rows.map (·.1) := h.names ▸ List.mem_map_of_mem hx
  obtain ⟨row, hRow, hSame⟩ := List.mem_map.mp hName
  exact hSame ▸ hRows row hRow

theorem finds_renderAll_named (hRows : ∀ row ∈ rows, fits row.1) :
    Finds replied (andThen (fun xs => ∀ x ∈ xs, fits x.name) fun _ => True) (renderAll thread rows) := by
  refine (finds_renderAll rows).mono ?_
  rintro (e | xs) hShown
  · trivial
  · exact hShown.named hRows

theorem Rows.named (hNames : NamesFit replied fits) (h : Rows replied frame rows) : ∀ row ∈ rows, fits row.1 := by
  cases h with
  | absent | none => exact nofun
  | some hTable _ =>
    intro row hRow
    obtain ⟨⟨v, value⟩, hMem, rfl⟩ := List.mem_map.mp hRow
    have hLive := (liveEntries_perm _ _).mem_iff.mp (List.of_mem_zip hMem).1
    exact hNames.tables _ _ hTable v (List.mem_filter.mp hLive).1

theorem Listed.named (hNames : NamesFit replied fits) (h : Listed replied frame xs) : ∀ x ∈ xs, fits x.name := by
  obtain ⟨this, rows, -, hRows, hShown⟩ := h
  refine hShown.named fun row hRow => ?_
  rcases List.mem_append.mp hRow with hRow | hRow
  · obtain ⟨object, -, rfl⟩ := List.mem_map.mp hRow
    exact hNames.this
  · exact hRows.named hNames row hRow

end Shown

theorem finds_expand_named (hNames : NamesFit replied fits) (r : VariableRef) :
    Finds replied (andThen (fun xs => ∀ x ∈ xs, fits x.name) fun _ => True) (expand r) := by
  cases r with
  | locals frame =>
    refine finds_locals.mono ?_
    rintro (e | xs) hFound
    · trivial
    · exact hFound.named hNames
  | object thread object =>
    refine finds_after_ask (fun c hClass => ?_) fun _ _ => trivial
    refine finds_after_exchange (finds_fields c) (fun fs hFields => ?_) fun _ _ => trivial
    dsimp only
    split
    · exact finds_pure nofun
    · refine finds_after_ask (fun values hValues => finds_renderAll_named ?_) fun _ _ => trivial
      intro row hRow
      obtain ⟨⟨f, value⟩, hMem, rfl⟩ := List.mem_map.mp hRow
      exact hNames.fields c fs hFields f (List.mem_filter.mp (List.of_mem_zip hMem).1).1
  | array thread array length =>
    change Finds replied _ (arrayElements thread array length)
    unfold arrayElements
    extract_lets shown
    split
    · exact finds_pure nofun
    · refine finds_after_ask (fun values hValues => finds_renderAll_named ?_) fun _ _ => trivial
      intro row hRow
      obtain ⟨i, hi, rfl⟩ := List.mem_mapIdx.mp hRow
      exact hNames.elements i

theorem finds_thisFields_named (hNames : NamesFit replied fits) (known : List Variable) :
    Finds replied (andThen (fun xs => ∀ x ∈ xs, fits x.name) fun _ => True) (thisFields known) := by
  unfold thisFields
  split
  · exact finds_expand_named hNames _
  · exact finds_pure nofun

/-! ## Whether they stand twice -/

theorem nodup_labels_addFields (start : String) (fields : List Variable) (items : List Completion) :
    ((addFields start items fields).map (·.label)).Nodup ↔ (items.map (·.label)).Nodup := by
  induction fields generalizing items with
  | nil => rfl
  | cons f rest ih =>
    rw [addFields]
    split
    · next hNew =>
      have hFresh : ∀ item ∈ items, item.label ≠ f.name := by simpa using (Bool.and_eq_true_iff.mp hNew).2
      rw [ih, List.map_append, List.nodup_append]
      simpa using fun _ => hFresh
    · exact ih items

section Twice

variable {this : Option ObjectId} {table : Option (List VariableEntry)} {content : UInt32 → Value} {xs : List Variable}

/-- The object that a frame has for its `this` is not among the variables of its table. -/
def ThisOnce (frame : FrameRef) (this : Option ObjectId) (table : Option (List VariableEntry)) : Prop :=
  this = none ∨ "this" ∉ (inScope frame table).map (·.name)

theorem Describes.names_eq (h : Describes replied frame this table content) (hListed : Listed replied frame xs) :
    xs.map (·.name) =
      this.toList.map (fun _ => "this") ++ (liveEntries (table.getD []) frame.location.index).map (·.name) := by
  obtain ⟨this', rows, hThis, hRows, hShown⟩ := hListed
  obtain rfl := Except.ok.inj (h.tellsThis _ hThis)
  rw [hShown.names, h.rows_eq hRows]
  simp [thisRows, rowOf, Function.comp_def]

theorem Describes.nodup_names_iff (h : Describes replied frame this table content)
    (hNames : ((inScope frame table).map (·.name)).Nodup) (hListed : Listed replied frame xs) (p : String → Bool) :
    ((xs.map (·.name)).filter p).Nodup ↔ (p "this" = true → ThisOnce frame this table) := by
  have hPerm := (liveEntries_perm (table.getD []) frame.location.index).map (·.name)
  rw [h.names_eq hListed, ((hPerm.append_left _).filter p).nodup_iff]
  have hFiltered := hNames.filter p
  cases this with
  | none => simpa [ThisOnce, inScope] using hFiltered
  | some object =>
    have hSplit : ("this" :: (inScope frame table).map (·.name)).filter p =
        (if p "this" then ["this"] else []) ++ ((inScope frame table).map (·.name)).filter p := by
      rw [List.filter_cons]
      split <;> rfl
    change (("this" :: (inScope frame table).map (·.name)).filter p).Nodup ↔ _
    rw [hSplit]
    by_cases hThis : p "this" = true <;> simp [hThis, ThisOnce, hFiltered, eq_comm]

/-- Where the names of the variables in scope stand once, no name is listed twice if and only if the object that the
frame has for its `this` is not among them. The completions of a text without dots are names of variables, where they
begin so, and fields that have other names. -/
theorem names_once_iff {text : String} (h : Describes replied frame this table content)
    (hNames : ((inScope frame table).map (·.name)).Nodup) (hText : '.' ∉ text.toList) :
    Finds replied (fun a => ∃ xs, a = .ok xs ∧ ((xs.map (·.name)).Nodup ↔ ThisOnce frame this table))
        (expand (.locals frame)) ∧
      Finds replied (fun a => ∀ items, a = .ok items →
        ((items.map (·.label)).Nodup ↔ (startsWith text "this" = true → ThisOnce frame this table)))
        (completions frame text) := by
  constructor
  · refine h.listed.mono ?_
    rintro _ ⟨xs, rfl, hListed⟩
    exact ⟨xs, rfl, by simpa using h.nodup_names_iff hNames hListed fun _ => true⟩
  · unfold completions
    rw [splitLastDot?_of_undotted hText]
    refine finds_locals.bind (fun known hKnown => ?_) nofun
    have hAnyNames : NamesFit replied fun _ => True := by constructor <;> intros <;> trivial
    refine (finds_thisFields_named hAnyNames known).bind (fun fields _ => finds_pure ?_) nofun
    rintro _ ⟨⟩
    rw [nodup_labels_addFields, ← h.nodup_names_iff hNames hKnown]
    simp [Function.comp_def, List.filter_map]

theorem names_once_of_point :
    ((inScope pointFrame (some pointTable)).map (·.name)).Nodup ∧
      Finds (still pointReply) (fun a => ∃ xs, a = .ok xs ∧
        ((xs.map (·.name)).Nodup ↔ ThisOnce pointFrame (some 5) (some pointTable))) (expand (.locals pointFrame)) ∧
      Finds (still pointReply) (fun a => ∀ items, a = .ok items → ((items.map (·.label)).Nodup ↔
        (startsWith "b" "this" = true → ThisOnce pointFrame (some 5) (some pointTable))))
        (completions pointFrame "b") :=
  have hNames : ((inScope pointFrame (some pointTable)).map (·.name)).Nodup := by decide +kernel
  ⟨hNames, names_once_iff describes_point hNames (by decide)⟩

/-- Though no name stands twice in its table, the machine's `this` is listed twice, and so it is completed. -/
theorem point_this_listed_twice :
    ((inScope pointFrame (some pointTable)).map (·.name)).Nodup ∧
      (outcome? pointReply (expand (.locals pointFrame))).map (·.map (·.map (·.name))) =
        some (.ok ["this", "this", "by"]) ∧
      (outcome? pointReply (completions pointFrame "")).map (·.map (·.map (·.label))) =
        some (.ok ["this", "this", "by", "x"]) := by
  decide +kernel

end Twice

end JvmDebug.Debuggee
