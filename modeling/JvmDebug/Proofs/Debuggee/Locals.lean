import JvmDebug.Proofs.Debuggee.Finding
import Mathlib.Data.List.Forall2
import Mathlib.Data.List.Permutation

/-!
# The variables of a frame

Of the entries of a variable table those are shown whose part of the code holds the place where the frame stands: each
once, by increasing slot, under its own name and with what is in its own slot. What the machine calls `this` comes
first, wherever it is.
-/

namespace JvmDebug
set_option autoImplicit false

open Attempt (andThen)
open Jdwp (ObjectId ThreadId Query Value VariableEntry)

namespace Jdwp

/-- A place in the code where a variable is in scope. -/
def VariableEntry.Covers (index : UInt64) (v : VariableEntry) : Prop :=
  v.start.toNat ≤ index.toNat ∧ index.toNat < v.start.toNat + v.length.toNat

instance (index : UInt64) : DecidablePred (VariableEntry.Covers index) := fun _ => inferInstanceAs (Decidable (_ ∧ _))

theorem VariableEntry.isLiveAt_eq {v : VariableEntry} (hEnd : v.start.toNat + v.length.toNat < UInt64.size)
    (index : UInt64) : v.isLiveAt index = decide (v.Covers index) := by
  have hSum : (v.start + v.length.toUInt64).toNat = v.start.toNat + v.length.toNat :=
    (UInt64.toNat_add ..).trans (Nat.mod_eq_of_lt hEnd)
  rw [Bool.eq_iff_iff, decide_eq_true_iff, isLiveAt, Bool.and_eq_true, decide_eq_true_iff, decide_eq_true_iff, Covers,
    UInt64.le_iff_toNat_le, UInt64.lt_iff_toNat_lt, hSum]

end Jdwp

namespace Debuggee

/-! ## Entries by their slots -/

section Entries

variable {v : VariableEntry} {sorted table : List VariableEntry} {index : UInt64}

theorem insertBySlot_perm (v : VariableEntry) (sorted : List VariableEntry) :
    (insertBySlot v sorted).Perm (v :: sorted) := by
  induction sorted with
  | nil => rfl
  | cons w rest ih =>
    rw [insertBySlot]
    split
    · rfl
    · exact (ih.cons w).trans (.swap v w rest)

theorem insertBySlot_sorted (h : sorted.Pairwise (·.slot ≤ ·.slot)) :
    (insertBySlot v sorted).Pairwise (·.slot ≤ ·.slot) := by
  induction sorted with
  | nil => simp [insertBySlot]
  | cons w rest ih =>
    rw [List.pairwise_cons] at h
    rw [insertBySlot]
    split
    · next hLess =>
      refine List.pairwise_cons.mpr ⟨fun x hx => ?_, List.pairwise_cons.mpr h⟩
      rcases List.mem_cons.mp hx with rfl | hx
      · exact UInt32.le_of_lt hLess
      · exact UInt32.le_trans (UInt32.le_of_lt hLess) (h.1 x hx)
    · next hNotLess =>
      refine List.pairwise_cons.mpr ⟨fun x hx => ?_, ih h.2⟩
      rcases List.mem_cons.mp ((insertBySlot_perm v rest).mem_iff.mp hx) with rfl | hx
      · exact UInt32.not_lt.mp hNotLess
      · exact h.1 x hx

theorem liveEntries_perm (table : List VariableEntry) (index : UInt64) :
    (liveEntries table index).Perm (table.filter (·.isLiveAt index)) := by
  have hFold : ∀ entries sorted : List VariableEntry,
      (entries.foldl (fun sorted v => insertBySlot v sorted) sorted).Perm (sorted ++ entries) := by
    intro entries
    induction entries with
    | nil => simp
    | cons v rest ih =>
      intro sorted
      have hInsert : (insertBySlot v sorted ++ rest).Perm (v :: sorted ++ rest) :=
        (insertBySlot_perm v sorted).append_right rest
      exact (ih _).trans (hInsert.trans List.perm_middle.symm)
  exact hFold (table.filter (·.isLiveAt index)) []

theorem liveEntries_sorted (table : List VariableEntry) (index : UInt64) :
    (liveEntries table index).Pairwise (·.slot ≤ ·.slot) :=
  List.foldlRecOn _ _ .nil fun _ h _ _ => insertBySlot_sorted h

/-- Entries with different slots stand by strictly increasing slots. -/
theorem liveEntries_increasing (h : ((table.filter (·.isLiveAt index)).map (·.slot)).Nodup) :
    (liveEntries table index).Pairwise (·.slot < ·.slot) := by
  have hSlots : ((liveEntries table index).map (·.slot)).Nodup := ((liveEntries_perm table index).map _).nodup_iff.mpr h
  have hApart : (liveEntries table index).Pairwise (·.slot ≠ ·.slot) := List.pairwise_map.mp hSlots
  refine (hApart.and (liveEntries_sorted table index)).imp ?_
  rintro v w ⟨hNe, hLe⟩
  exact UInt32.lt_of_le_of_ne hLe hNe

end Entries

/-! ## What is asked for -/

variable {replied : Replying} {frame : FrameRef}

def tableQuery (l : Jdwp.Location) : Query (List VariableEntry) := Query.variableTable l.classId l.methodId

/-- What is asked for to show the variables in scope. -/
def valuesQuery (frame : FrameRef) (asked : List VariableEntry) : Query (List Value) :=
  Query.frameValues frame.thread frame.id (asked.map fun v => Query.Slot.of v.slot v.signature)

/-- That there is no variable table. -/
def Absent (e : Jdwp.Error) : Prop := e.code? = some Jdwp.ErrorCode.absentInformation

/-- Nothing that the variables of a frame are shown by is refused. -/
structure Opens (replied : Replying) (frame : FrameRef) : Prop where
  this : Willing replied (Query.thisObject frame.thread frame.id)
  object : ∀ object, Answered replied (Query.thisObject frame.thread frame.id) (.ok (some object)) →
    Renderable replied (.reference .object object)
  table : ∀ e, Answered replied (tableQuery frame.location) (.error e) → Absent e
  values : ∀ table, Answered replied (tableQuery frame.location) (.ok table) →
    Willing replied (valuesQuery frame (liveEntries table frame.location.index))
  contents : ∀ table values, Answered replied (tableQuery frame.location) (.ok table) →
    Answered replied (valuesQuery frame (liveEntries table frame.location.index)) (.ok values) →
      ∀ v ∈ values, Renderable replied v

/-- The row of a variable: its name, its declared type, and a value. -/
def rowOf (v : VariableEntry) (value : Value) : String × Option String × Value := (v.name, some v.signature, value)

def thisRows (this : Option ObjectId) : List (String × Option String × Value) :=
  this.toList.map fun object => ("this", none, .reference .object object)

/-- The rows of the variables in scope. -/
inductive Rows (replied : Replying) (frame : FrameRef) : List (String × Option String × Value) → Prop where
  | absent {e : Jdwp.Error} : Answered replied (tableQuery frame.location) (.error e) → Absent e → Rows replied frame []
  | none {table : List VariableEntry} : Answered replied (tableQuery frame.location) (.ok table) →
      liveEntries table frame.location.index = [] → Rows replied frame []
  | some {table : List VariableEntry} {values : List Value} : Answered replied (tableQuery frame.location) (.ok table) →
      Answered replied (valuesQuery frame (liveEntries table frame.location.index)) (.ok values) →
      Rows replied frame (((liveEntries table frame.location.index).zip values).map fun (v, value) => rowOf v value)

/-- The variables of a frame, as they are shown. -/
def Listed (replied : Replying) (frame : FrameRef) (xs : List Variable) : Prop :=
  ∃ this rows, Answered replied (Query.thisObject frame.thread frame.id) (.ok this) ∧ Rows replied frame rows ∧
    ShowsAll replied frame.thread (thisRows this ++ rows) xs

theorem finds_thisVariable : Finds replied
    (andThen (fun xs => ∃ this, Answered replied (Query.thisObject frame.thread frame.id) (.ok this) ∧
      ShowsAll replied frame.thread (thisRows this) xs) fun _ => ¬Opens replied frame) (thisVariable frame) := by
  refine finds_after_ask (fun this hThis => ?_) fun e hRefused hOpens => hOpens.this e hRefused
  cases this with
  | none => exact finds_pure ⟨none, hThis, .nil⟩
  | some object =>
    refine (finds_renderValue "this" none (.reference .object object)).bind (fun x hx => ?_) fun e hFails hOpens => ?_
    · exact finds_pure ⟨some object, hThis, .cons hx .nil⟩
    · exact hFails (hOpens.object object hThis)

theorem finds_variableTable? : Finds replied
    (andThen (fun table? => match table? with
      | some table => Answered replied (tableQuery frame.location) (.ok table)
      | none => ∃ e, Answered replied (tableQuery frame.location) (.error e) ∧ Absent e) fun _ => ¬Opens replied frame)
    (variableTable? frame.location) := by
  refine finds_after (Answered replied (tableQuery frame.location)) (finds_query fun _ h => h) fun table hTable => ?_
  split
  · exact finds_pure hTable
  · next e =>
    split
    · next hAbsent => exact finds_after_note (finds_pure ⟨e, hTable, hAbsent⟩)
    · next hPresent => exact finds_throw fun hOpens => hPresent (hOpens.table e hTable)

theorem finds_locals : Finds replied (andThen (Listed replied frame) fun _ => ¬Opens replied frame) (locals frame) := by
  refine finds_thisVariable.bind (fun first hFirst => ?_) fun e hFails => hFails
  obtain ⟨this, hThis, hShown⟩ := hFirst
  have hAlone : Rows replied frame [] → Listed replied frame first := fun hRows =>
    ⟨this, [], hThis, hRows, by rwa [List.append_nil]⟩
  refine finds_variableTable?.bind (fun table? hTable => ?_) fun e hFails => hFails
  cases table? with
  | none =>
    obtain ⟨e, hRefused, hAbsent⟩ := hTable
    exact finds_pure (hAlone (.absent hRefused hAbsent))
  | some table =>
    dsimp only
    split
    · next hEmpty => exact finds_pure (hAlone (.none hTable (List.isEmpty_iff.mp hEmpty)))
    refine finds_after_ask (fun values hValues => ?_) fun e hRefused hOpens => hOpens.values table hTable e hRefused
    refine (finds_renderAll _).bind (fun rest hRest => finds_pure ?_) fun e hFails hOpens => hFails ?_
    · exact ⟨this, _, hThis, .some hTable hValues, List.rel_append hShown hRest⟩
    · intro row hRow
      obtain ⟨⟨v, value⟩, hMem, rfl⟩ := List.mem_map.mp hRow
      exact hOpens.contents table values hTable hValues value (List.of_mem_zip hMem).2

/-! ## What a machine tells of a frame -/

/-- The variables in scope where a frame stands; none if there is no variable table. -/
def inScope (frame : FrameRef) (table : Option (List VariableEntry)) : List VariableEntry :=
  (table.getD []).filter (·.isLiveAt frame.location.index)

/-- What a machine tells of a frame: its `this`, the variable table of its method, and what is in the slots of the
variables in scope, in whatever order it is asked for them. It tells what has to be known to show these values, too. -/
structure Describes (replied : Replying) (frame : FrameRef) (this : Option ObjectId)
    (table : Option (List VariableEntry)) (content : UInt32 → Value) : Prop where
  tellsThis : ∀ a, Answered replied (Query.thisObject frame.thread frame.id) a → a = .ok this
  tellsTable : ∀ entries ∈ table, ∀ a, Answered replied (tableQuery frame.location) a → a = .ok entries
  tellsAbsence : table = none → ∀ a, Answered replied (tableQuery frame.location) a → ∃ e, a = .error e ∧ Absent e
  tellsContents : ∀ asked, asked.Perm (inScope frame table) → ∀ a, Answered replied (valuesQuery frame asked) a →
    a = .ok (asked.map fun v => content v.slot)
  showsThis : ∀ object ∈ this, Renderable replied (.reference .object object)
  showsContents : ∀ v ∈ inScope frame table, Renderable replied (content v.slot)

section Described

variable {this : Option ObjectId} {table : Option (List VariableEntry)} {content : UInt32 → Value}

/-- A variable is in scope in its part of the code, if this ends where places can be counted. -/
theorem inScope_eq (hEnds : ∀ v ∈ table.getD [], v.start.toNat + v.length.toNat < UInt64.size) :
    inScope frame table = (table.getD []).filter (VariableEntry.Covers frame.location.index ·) :=
  List.filter_congr fun v hv => VariableEntry.isLiveAt_eq (hEnds v hv) _

theorem inScope_perm (frame : FrameRef) (entries : List VariableEntry) :
    (liveEntries entries frame.location.index).Perm (inScope frame (some entries)) :=
  liveEntries_perm entries _

theorem Describes.table_of_ok {entries : List VariableEntry} (h : Describes replied frame this table content)
    (hTold : Answered replied (tableQuery frame.location) (.ok entries)) : table = some entries := by
  cases table with
  | some entries' => exact congrArg some (Except.ok.inj (h.tellsTable entries' rfl _ hTold)).symm
  | none =>
    obtain ⟨e, hError, -⟩ := h.tellsAbsence rfl _ hTold
    cases hError

theorem Describes.absent_of_error {e : Jdwp.Error} (h : Describes replied frame this table content)
    (hRefused : Answered replied (tableQuery frame.location) (.error e)) : table = none ∧ Absent e := by
  cases table with
  | some entries => cases h.tellsTable entries rfl _ hRefused
  | none =>
    obtain ⟨e', hError, hAbsent⟩ := h.tellsAbsence rfl _ hRefused
    cases hError
    exact ⟨rfl, hAbsent⟩

theorem Describes.values_of {entries : List VariableEntry} {a : Except Jdwp.Error (List Value)}
    (h : Describes replied frame this (some entries) content)
    (hTold : Answered replied (valuesQuery frame (liveEntries entries frame.location.index)) a) :
    a = .ok ((liveEntries entries frame.location.index).map fun v => content v.slot) :=
  h.tellsContents _ (inScope_perm frame entries) a hTold

theorem Describes.opens (h : Describes replied frame this table content) : Opens replied frame := by
  constructor
  · exact fun e hRefused => nomatch h.tellsThis _ hRefused
  · intro object hTold
    exact h.showsThis object (Except.ok.inj (h.tellsThis _ hTold)).symm
  · exact fun e hRefused => (h.absent_of_error hRefused).2
  · intro entries hEntries e hRefused
    obtain rfl := h.table_of_ok hEntries
    cases h.values_of hRefused
  · intro entries values hEntries hTold v hv
    obtain rfl := h.table_of_ok hEntries
    obtain rfl := Except.ok.inj (h.values_of hTold)
    obtain ⟨entry, hEntry, rfl⟩ := List.mem_map.mp hv
    exact h.showsContents entry ((inScope_perm frame entries).mem_iff.mp hEntry)

/-- So the variables of the frame can be shown. -/
theorem Describes.listed (h : Describes replied frame this table content) :
    Finds replied (fun a => ∃ xs, a = .ok xs ∧ Listed replied frame xs) (expand (.locals frame)) := by
  refine Finds.mono ?_ finds_locals
  rintro (e | xs) hFound
  · exact absurd h.opens hFound
  · exact ⟨xs, rfl, hFound⟩

theorem Describes.rows_eq {rows : List (String × Option String × Value)}
    (h : Describes replied frame this table content) (hRows : Rows replied frame rows) :
    rows = (liveEntries (table.getD []) frame.location.index).map fun v => rowOf v (content v.slot) := by
  cases hRows with
  | absent hRefused =>
    rw [(h.absent_of_error hRefused).1]
    rfl
  | none hTold hEmpty =>
    obtain rfl := h.table_of_ok hTold
    rw [Option.getD_some, hEmpty]
    rfl
  | some hTold hValues =>
    obtain rfl := h.table_of_ok hTold
    obtain rfl := Except.ok.inj (h.values_of hValues)
    rw [Option.getD_some, ← List.map_prod_left_eq_zip, List.map_map]
    rfl

/-- The variables of a frame are its `this`, if it has one, and then exactly those whose part of the code holds the
place where it stands, each of them once and by increasing slot, under its own name and with what is in its own slot. -/
theorem shows_variables_in_scope (h : Describes replied frame this table content)
    (hEnds : ∀ v ∈ table.getD [], v.start.toNat + v.length.toNat < UInt64.size)
    (hSlots : ((inScope frame table).map (·.slot)).Nodup) :
    Finds replied (fun a => ∃ (live : List VariableEntry) (xs : List Variable), a = .ok xs ∧
      live.Perm ((table.getD []).filter (VariableEntry.Covers frame.location.index ·)) ∧
      live.Pairwise (·.slot < ·.slot) ∧
      ShowsAll replied frame.thread (thisRows this ++ live.map fun v => rowOf v (content v.slot)) xs)
      (expand (.locals frame)) := by
  refine h.listed.mono ?_
  rintro _ ⟨xs, rfl, this', rows, hThis, hRows, hShown⟩
  obtain rfl := Except.ok.inj (h.tellsThis _ hThis)
  rw [h.rows_eq hRows] at hShown
  rw [← inScope_eq hEnds]
  exact ⟨_, xs, rfl, liveEntries_perm .., liveEntries_increasing hSlots, hShown⟩

end Described

/-! A machine that stands in a method of a point. Its table is in no order, and one variable is not in scope yet. -/

section Point

open Jdwp

def pointFrame : FrameRef := ⟨1, 2, ⟨1, 7, 8, 4⟩⟩

def byEntry : VariableEntry := ⟨0, "by", "I", 10, 1⟩
def thisEntry : VariableEntry := ⟨0, "this", "LPoint;", 20, 0⟩
def pointTable : List VariableEntry := [byEntry, ⟨12, "old", "I", 4, 2⟩, thisEntry]

def pointContent (slot : UInt32) : Value := if slot = 0 then .reference .object 5 else .int 3

def pointReply (c : Jdwp.Command) : Except Jdwp.Error Jdwp.Reply :=
  let entry (v : VariableEntry) : Bytes :=
    Layout.u64 v.start ++ Layout.string v.name ++ Layout.string v.signature ++ Layout.u32 v.length ++ Layout.u32 v.slot
  let field : Bytes := Layout.u64 9 ++ Layout.string "x" ++ Layout.string "I" ++ Layout.i32 0
  let values := if c = (valuesQuery pointFrame [byEntry, thisEntry]).command then [1, 0] else [0, 1]
  match c.set, c.number with
  | 16, 3 => .ok ⟨1, 0, Tag.toByte (.reference .object) :: Layout.u64 5⟩
  | 6, 2 => .ok ⟨1, 0, Layout.i32 2 ++ Layout.list entry pointTable⟩
  | 16, 1 => .ok ⟨1, 0, Layout.list Value.taggedLayout (values.map pointContent)⟩
  | 9, 1 => .ok ⟨1, 0, 1 :: Layout.u64 7⟩
  | 2, 1 => .ok ⟨1, 0, Layout.string "LPoint;"⟩
  | 2, 4 => .ok ⟨1, 0, Layout.count 1 ++ field⟩
  | 9, 2 => .ok ⟨1, 0, Layout.list Value.taggedLayout [.int 4]⟩
  | 10, 1 => .ok ⟨1, 0, Layout.string ""⟩
  | 13, 1 => .ok ⟨1, 0, Layout.i32 0⟩
  | 13, 2 => .ok ⟨1, 0, Tag.int.toByte :: Layout.count 0⟩
  | _, _ => .error .closed

theorem inScope_point : inScope pointFrame (some pointTable) = [byEntry, thisEntry] := by decide +kernel

theorem renderable_point : Renderable (still pointReply) (.reference .object 5) := by
  rintro _ _ ⟨⟩ -
  have hClass : told pointReply (Query.classOf 5) = .ok 7 := by decide +kernel
  have hSignature : told pointReply (Query.signature 7) = .ok "LPoint;" := by decide +kernel
  refine ⟨nofun, fun _ => willing_still hClass, fun _ c hTold => ?_, nofun⟩
  obtain rfl := Except.ok.inj (hTold.only hClass)
  exact willing_still hSignature

theorem describes_point : Describes (still pointReply) pointFrame (some 5) (some pointTable) pointContent := by
  constructor
  · exact fun a hTold => hTold.only (by decide +kernel)
  · rintro _ ⟨⟩ a hTold
    exact hTold.only (by decide +kernel)
  · nofun
  · intro asked hPerm a hTold
    refine hTold.only ?_
    rw [inScope_point, List.perm_pair] at hPerm
    rcases hPerm with rfl | rfl <;> decide +kernel
  · rintro _ ⟨⟩
    exact renderable_point
  · intro v hv
    rw [inScope_point] at hv
    simp only [List.mem_cons, List.not_mem_nil, or_false] at hv
    rcases hv with rfl | rfl
    · exact nofun
    · exact renderable_point

theorem shows_variables_of_point :
    Finds (still pointReply) (fun a => ∃ (live : List VariableEntry) (xs : List Variable), a = .ok xs ∧
      live.Perm (pointTable.filter (VariableEntry.Covers pointFrame.location.index ·)) ∧
      live.Pairwise (·.slot < ·.slot) ∧ ShowsAll (still pointReply) pointFrame.thread
        (thisRows (some 5) ++ live.map fun v => rowOf v (pointContent v.slot)) xs) (expand (.locals pointFrame)) :=
  shows_variables_in_scope describes_point (by decide +kernel) (by decide +kernel)

end Point

end Debuggee
end JvmDebug
