import JvmDebug.Proofs.Debuggee.Finding
import JvmDebug.Proofs.Debuggee.Sections
import JvmDebug.Proofs.List
import Mathlib.Data.List.Nodup

/-!
# Lines and places in the code

A breakpoint for a line is placed where the line first begins in a method. A thread that stands at a place is shown at
the line of the last entry that does not begin after it. In a table in which no two entries begin together the second
leads back from the first, in whatever order the entries are and however often a line begins.
-/

namespace JvmDebug
set_option autoImplicit false

open Attempt (andThen)
open Jdwp (ClassId LineEntry LineTable LoadedClass Location Method MethodId Query)

/-! ## Line tables -/

namespace Jdwp.LineTable

variable {t : LineTable} {line : Int32} {index : UInt64} {e : LineEntry}

/-- The line begins there, and nowhere before. -/
structure Begins (t : LineTable) (line : Int32) (index : UInt64) : Prop where
  mem : ⟨index, line⟩ ∈ t.entries
  least : ∀ e ∈ t.entries, e.line = line → index ≤ e.index

/-- Whether the line begins anywhere. -/
def has (t : LineTable) (line : Int32) : Bool := t.entries.any (·.line = line)

/-- No two entries begin together. -/
def Apart (t : LineTable) : Prop := (t.entries.map (·.index)).Nodup

theorem foldl_later (entries : List LineEntry) (e : LineEntry) :
    entries.foldl later e ∈ e :: entries ∧ ∀ x ∈ e :: entries, x.index ≤ (entries.foldl later e).index := by
  refine foldl_best (·.index ≤ ·.index) (fun _ => UInt64.le_refl _) (fun _ _ _ => UInt64.le_trans) (fun a b => ?_) _ e
  unfold later
  split
  · next hLe => exact .inr ⟨rfl, hLe⟩
  · next hNot => exact .inl ⟨rfl, (UInt64.le_total a.index b.index).resolve_left hNot⟩

theorem foldl_least (indexes : List UInt64) (index : UInt64) :
    let least := indexes.foldl (fun least i => if i < least then i else least) index
    least ∈ index :: indexes ∧ ∀ i ∈ index :: indexes, least ≤ i := by
  refine foldl_best (· ≥ ·) UInt64.le_refl (fun _ _ _ hLe hLe' => UInt64.le_trans hLe' hLe) (fun a b => ?_) _ index
  split
  · next hLess => exact .inr ⟨rfl, UInt64.le_of_lt hLess⟩
  · next hNot => exact .inl ⟨rfl, UInt64.not_lt.mp hNot⟩

/-- Where an entry begins, its line is shown. -/
theorem lineAt?_of_mem (hApart : t.Apart) (he : e ∈ t.entries) : t.lineAt? e.index = some e.line := by
  have hHere : e ∈ t.entries.filter (·.index ≤ e.index) := by simp [he]
  unfold lineAt?
  split
  · next hNone => simp [hNone] at hHere
  · next first rest hEntries =>
    rw [hEntries] at hHere
    obtain ⟨hMem, hLatest⟩ := foldl_later rest first
    obtain ⟨hFound, hBefore⟩ := List.mem_filter.mp (hEntries ▸ hMem)
    have hIndex := UInt64.le_antisymm (by simpa using hBefore) (hLatest e hHere)
    rw [List.inj_on_of_nodup_map hApart hFound he hIndex]

theorem begins_of_firstIndexOf? (h : t.firstIndexOf? line = some index) : t.Begins line index := by
  have hEntry : ∀ i, i ∈ (t.entries.filter (·.line = line)).map (·.index) ↔ ⟨i, line⟩ ∈ t.entries := by
    intro i
    simp only [List.mem_map, List.mem_filter, decide_eq_true_eq]
    constructor
    · rintro ⟨e, ⟨he, rfl⟩, rfl⟩
      exact he
    · exact fun hMem => ⟨_, ⟨hMem, rfl⟩, rfl⟩
  unfold firstIndexOf? at h
  split at h
  · cases h
  · next first rest hEntries =>
    obtain ⟨hMem, hLeast⟩ := foldl_least (rest.map (·.index)) first.index
    rw [List.foldl_map, Option.some.inj h] at hMem hLeast
    rw [hEntries, List.map_cons] at hEntry
    refine ⟨(hEntry index).mp hMem, ?_⟩
    rintro ⟨i, _⟩ he rfl
    exact hLeast i ((hEntry i).mpr he)

theorem isSome_firstIndexOf? (t : LineTable) (line : Int32) : (t.firstIndexOf? line).isSome = t.has line := by
  unfold firstIndexOf? has
  split
  · next hNone => simpa [List.filter_eq_nil_iff] using hNone
  · next first rest hEntries =>
    have hFirst : first ∈ t.entries.filter (·.line = line) := by simp [hEntries]
    rw [List.mem_filter] at hFirst
    exact (List.any_eq_true.mpr ⟨first, hFirst⟩).symm

/-- The place where a line first begins is shown as that line. -/
theorem Begins.shown (h : t.Begins line index) (hApart : t.Apart) : t.lineAt? index = some line :=
  lineAt?_of_mem hApart h.mem

end Jdwp.LineTable

namespace Debuggee

/-- Lines are counted in 31 bits, so that a sign does not change them. -/
theorem lineNumber?_toInt32 {line : UInt32} (h : line.toNat < 0x80000000) : lineNumber? line.toInt32 = some line := by
  have hInt : line.toInt32.toInt = line.toNat := by
    rw [Int32.toInt, UInt32.toBitVec_toInt32, BitVec.toInt_eq_toNat_of_lt]
    · rfl
    · change 2 * line.toNat < 0x100000000
      omega
  have hSign : 0 ≤ line.toInt32 := by
    rw [Int32.le_iff_toInt_le, hInt]
    simp
  rw [lineNumber?, if_pos hSign]
  simp

/-! ## The places of a line in a class -/

/-- Asks for the places where a line begins in a class. -/
def lineLocations (c : LoadedClass) (line : UInt32) : Exchange (List Location) :=
  ExceptT.mk (onWire (Backend.serve (.lineLocations c line)))

/-- What a machine tells of the code of a class: its methods, and the line tables of those that have one. -/
structure TellsCode (replied : Replying) (c : ClassId) (all : List Method) (table : MethodId → Option LineTable) :
    Prop where
  methods : ∀ a, Answered replied (Query.methods c) a → a = .ok all
  tables : ∀ m ∈ all, ∀ t, table m.id = some t → ∀ a, Answered replied (Query.lineTable c m.id) a → a = .ok t
  refused : ∀ m ∈ all, table m.id = none → ∀ a, Answered replied (Query.lineTable c m.id) a →
    ∃ e, a = .error e ∧ e.isDisconnect = false

/-- The place in a method where a line first begins. -/
structure FirstOf (c : LoadedClass) (table : MethodId → Option LineTable) (line : UInt32) (m : Method) (l : Location) :
    Prop where
  tag : l.typeTag = c.typeTag
  owner : l.classId = c.id
  method : l.methodId = m.id
  begins : ∃ t, table m.id = some t ∧ t.Begins line.toInt32 l.index

/-- Whether a line begins anywhere in a method. -/
def hasLine (table : MethodId → Option LineTable) (line : UInt32) (m : Method) : Bool :=
  (table m.id).any (·.has line.toInt32)

/-- One place for each method in which the line begins, in their order. -/
abbrev FirstOfEach (c : LoadedClass) (table : MethodId → Option LineTable) (line : UInt32) (methods : List Method) :
    List Location → Prop :=
  List.Forall₂ (FirstOf c table line) (methods.filter (hasLine table line))

variable {replied : Replying} {c : LoadedClass} {all methods : List Method} {table : MethodId → Option LineTable}
  {line : UInt32} {m : Method} {l : Location} {locations : List Location}

theorem FirstOfEach.cons_told {t : LineTable} (hTable : table m.id = some t)
    (h : FirstOfEach c table line methods locations) :
    FirstOfEach c table line (m :: methods) ((Backend.locationIn? c line m t).toList ++ locations) := by
  have hHas : hasLine table line m = t.has line.toInt32 := by simp [hasLine, hTable]
  have hFound := t.isSome_firstIndexOf? line.toInt32
  unfold FirstOfEach Backend.locationIn?
  rw [List.filter_cons, hHas]
  cases hIndex : t.firstIndexOf? line.toInt32 with
  | none => simpa [← hFound, hIndex] using h
  | some index =>
    rw [← hFound, hIndex]
    exact .cons ⟨rfl, rfl, rfl, t, hTable, LineTable.begins_of_firstIndexOf? hIndex⟩ h

theorem FirstOfEach.cons_refused (hTable : table m.id = none) (h : FirstOfEach c table line methods locations) :
    FirstOfEach c table line (m :: methods) locations := by
  have hHas : ¬hasLine table line m = true := by simp [hasLine, hTable]
  unfold FirstOfEach
  rwa [List.filter_cons, if_neg hHas]

/-- Each place is where the line first begins in one of the methods. -/
theorem FirstOfEach.exists_method (h : FirstOfEach c table line methods locations) (hl : l ∈ locations) :
    ∃ m ∈ methods, FirstOf c table line m l := by
  unfold FirstOfEach at h
  have hSub : ∀ m ∈ methods.filter (hasLine table line), m ∈ methods := fun _ => List.mem_of_mem_filter
  generalize methods.filter (hasLine table line) = having at h hSub
  induction h with
  | nil => cases hl
  | @cons m l' having locations hFirst hRest ih =>
    rcases List.mem_cons.mp hl with rfl | hl
    · exact ⟨m, hSub m List.mem_cons_self, hFirst⟩
    · exact ih hl fun m hm => hSub m (List.mem_cons_of_mem _ hm)

theorem finds_locationsIn (hTells : TellsCode replied c.id all table) (hSub : ∀ m ∈ methods, m ∈ all) :
    Finds replied (fun a => ∃ locations, a = .ok locations ∧ FirstOfEach c table line methods locations)
      (ExceptT.mk (onWire (Backend.locationsIn c line methods))) := by
  change (onWire (Backend.locationsIn c line methods)).Passes (finding replied) _ ()
  induction methods with
  | nil => exact ⟨[], rfl, .nil⟩
  | cons m rest ih =>
    have hHere := hSub m List.mem_cons_self
    have hRest := ih fun m' hMem => hSub m' (List.mem_cons_of_mem _ hMem)
    rw [Backend.locationsIn, onWire_bind]
    have hAsk : Finds replied (Answered replied (Query.lineTable c.id m.id)) (query (Query.lineTable c.id m.id)) :=
      finds_query fun _ hTold => hTold
    refine Routine.Passes.bind (Routine.Passes.mono ?_ hAsk)
    intro a _ hTold
    cases hTable : table m.id with
    | some t =>
      obtain rfl := hTells.tables m hHere t hTable a hTold
      dsimp only
      rw [onWire_bind]
      refine Routine.Passes.bind (hRest.mono ?_)
      rintro _ _ ⟨locations, rfl, hEach⟩
      exact ⟨_, rfl, hEach.cons_told hTable⟩
    | none =>
      obtain ⟨e, rfl, hStays⟩ := hTells.refused m hHere hTable a hTold
      dsimp only
      rw [if_neg (by simp [hStays])]
      refine hRest.mono ?_
      rintro _ _ ⟨locations, rfl, hEach⟩
      exact ⟨locations, rfl, hEach.cons_refused hTable⟩

theorem finds_lineLocations (hTells : TellsCode replied c.id all table) :
    Finds replied (fun a => ∃ locations, a = .ok locations ∧ FirstOfEach c table line all locations)
      (lineLocations c line) := by
  rw [lineLocations, Backend.serve, onWire_bind]
  refine Routine.Passes.bind (Routine.Passes.mono ?_ (finds_query (q := Query.methods c.id) fun _ hTold => hTold))
  intro a _ hTold
  obtain rfl := hTells.methods a hTold
  exact finds_locationsIn hTells fun _ => id

/-! ## The line that is shown -/

/-- Where a thread stands is shown if the line is told, and the path is found. -/
theorem passes_positionOf {t : Phases Unit Debuggee World} {lines : LineTable} {found : Except Jdwp.Error Path → Prop}
    (hLines : (query (Query.lineTable l.classId l.methodId)).run.Passes t (fun a _ => a = .ok lines) ())
    (hLine : (lines.lineAt? l.index).bind lineNumber? = some line)
    (hPath : (do sourcePath l.classId (← binaryName l.classId) : Exchange Path).run.Passes t (fun a _ => found a) ()) :
    (positionOf l).Passes t
      (fun position _ => ∃ a, found a ∧ position = a.toOption.map fun path => ⟨.ofPath path, line, none⟩) () := by
  unfold positionOf
  refine Routine.Passes.bind (hLines.mono ?_)
  rintro _ _ rfl
  dsimp only
  rw [hLine]
  dsimp only
  refine Routine.Passes.bind (hPath.mono ?_)
  rintro (e | path) _ hFound
  · exact ⟨.error e, hFound, rfl⟩
  · exact ⟨.ok path, hFound, rfl⟩

theorem finds_binaryName (c : ClassId) :
    Finds replied (andThen (fun _ => True) fun _ => ¬Willing replied (Query.signature c)) (binaryName c) :=
  (finds_signature c).bind (fun _ _ => finds_pure trivial) fun e hRefused hWilling => hWilling e hRefused

theorem finds_sourcePath (c : ClassId) (name : String) :
    Finds replied (andThen (fun _ => True) fun _ => ¬Willing replied (Query.sourceFile c)) (sourcePath c name) := by
  refine finds_after (Learnt replied) (fun _ hLearnt => ⟨(), hLearnt, hLearnt⟩) fun d _ => ?_
  split
  · exact finds_pure trivial
  · have hFile : Finds replied (Answered replied (Query.sourceFile c)) (query (Query.sourceFile c)) :=
      finds_query fun _ hTold => hTold
    exact hFile.bind (fun _ _ => finds_after_note (finds_pure trivial)) fun e hRefused hWilling => hWilling e hRefused

/-- A thread at this place is shown at the line, if the machine tells where the class comes from. -/
def ShownAt (replied : Replying) (line : UInt32) (l : Location) : Prop :=
  (positionOf l).Passes (finding replied) (fun position _ => (∀ p ∈ position, p.line = line) ∧
    (Willing replied (Query.signature l.classId) → Willing replied (Query.sourceFile l.classId) →
      position.isSome)) ()

theorem shownAt_of_told {t : LineTable}
    (hTold : ∀ a, Answered replied (Query.lineTable l.classId l.methodId) a → a = .ok t)
    (hLine : (t.lineAt? l.index).bind lineNumber? = some line) : ShownAt replied line l := by
  have hPath : Finds replied (andThen (fun _ => True) fun _ =>
      ¬(Willing replied (Query.signature l.classId) ∧ Willing replied (Query.sourceFile l.classId)))
      (do sourcePath l.classId (← binaryName l.classId) : Exchange Path) := by
    refine (finds_binaryName l.classId).bind (fun name _ => ?_) fun _ hRefused hTells => hRefused hTells.1
    refine (finds_sourcePath l.classId name).mono ?_
    rintro (_ | _) hRefused
    · exact fun hTells => hRefused hTells.2
    · trivial
  refine (passes_positionOf (finds_query hTold) hLine hPath).mono ?_
  rintro _ _ ⟨e | path, hFound, rfl⟩
  · exact ⟨nofun, fun hSignature hFile => (hFound ⟨hSignature, hFile⟩).elim⟩
  · exact ⟨by simp [Except.toOption], fun _ _ => rfl⟩

/-- A line is placed once in each method in which it begins, where it first begins there, and nowhere else. A thread
that stops at such a place is shown at that line. -/
theorem line_is_shown_where_placed (hTells : TellsCode replied c.id all table)
    (hApart : ∀ m ∈ all, ∀ t, table m.id = some t → t.Apart) (hLine : line.toNat < 0x80000000) :
    Finds replied (fun a => ∃ locations, a = .ok locations ∧ FirstOfEach c table line all locations ∧
      ∀ l ∈ locations, ShownAt replied line l ∧
        ∃ t, table l.methodId = some t ∧ (t.lineAt? l.index).bind lineNumber? = some line)
      (lineLocations c line) := by
  refine (finds_lineLocations hTells).mono ?_
  rintro _ ⟨locations, rfl, hEach⟩
  refine ⟨locations, rfl, hEach, fun l hl => ?_⟩
  obtain ⟨m, hMem, -, hOwner, hMethod, t, hTable, hBegins⟩ := hEach.exists_method hl
  have hShown : (t.lineAt? l.index).bind lineNumber? = some line := by
    rw [hBegins.shown (hApart m hMem t hTable)]
    exact lineNumber?_toInt32 hLine
  refine ⟨shownAt_of_told (fun a hTold => ?_) hShown, t, hMethod ▸ hTable, hShown⟩
  rw [hOwner, hMethod] at hTold
  exact hTells.tables m hMem t hTable a hTold

/-! A class with a native method, one with a loop whose lines begin more than once, and one of another line. -/

section Loop

open Jdwp

def loopMethods : List Method := [⟨1, "hash", "()I", 0x0100⟩, ⟨2, "loop", "()V", 0⟩, ⟨3, "size", "()I", 0⟩]

def loopTable (m : MethodId) : Option LineTable :=
  if m = 2 then some ⟨0, 15, [⟨9, 4⟩, ⟨0, 3⟩, ⟨5, 4⟩, ⟨12, 3⟩]⟩
  else if m = 3 then some ⟨0, 2, [⟨0, 8⟩]⟩
  else none

def loopReply (c : Jdwp.Command) : Except Jdwp.Error Jdwp.Reply :=
  let method (m : Method) : Bytes :=
    Layout.u64 m.id ++ Layout.string m.name ++ Layout.string m.signature ++ Layout.i32 m.modifiers
  let lines (t : LineTable) : Bytes :=
    Layout.i64 t.first ++ Layout.i64 t.last ++ Layout.list (fun e => Layout.u64 e.index ++ Layout.i32 e.line) t.entries
  match c.set, c.number with
  | 2, 1 => .ok ⟨1, 0, Layout.string "LLoop;"⟩
  | 2, 5 => .ok ⟨1, 0, Layout.list method loopMethods⟩
  | 2, 7 => .ok ⟨1, 0, Layout.string "Loop.java"⟩
  | 6, 1 =>
    match loopMethods.find? fun m => (Query.lineTable 7 m.id).command = c with
    | some m => (loopTable m.id).elim (.error (.rejected ErrorCode.absentInformation)) fun t => .ok ⟨1, 0, lines t⟩
    | none => .error .closed
  | _, _ => .error .closed

theorem tellsCode_loop : TellsCode (still loopReply) 7 loopMethods loopTable := by
  have hTable : ∀ m ∈ loopMethods, told loopReply (Query.lineTable 7 m.id) =
      (loopTable m.id).elim (.error (.rejected ErrorCode.absentInformation)) .ok := by decide +kernel
  constructor
  · exact fun a hTold => hTold.only (by decide +kernel)
  · intro m hm t hSome a hTold
    rw [answered_still.mp hTold, hTable m hm, hSome]
    rfl
  · intro m hm hNone a hTold
    rw [answered_still.mp hTold, hTable m hm, hNone]
    exact ⟨_, rfl, by decide⟩

theorem line_of_loop_is_shown :
    ∃ locations, outcome? loopReply (lineLocations ⟨1, 7⟩ 4) = some (.ok locations) ∧
      FirstOfEach ⟨1, 7⟩ loopTable 4 loopMethods locations ∧ ∀ l ∈ locations, ShownAt (still loopReply) 4 l ∧
        ∃ t, loopTable l.methodId = some t ∧ (t.lineAt? l.index).bind lineNumber? = some 4 := by
  have hApart : ∀ m ∈ loopMethods, ∀ t ∈ loopTable m.id, (t.entries.map (·.index)).Nodup := by decide +kernel
  have hFinds : Finds (still loopReply) _ (lineLocations ⟨1, 7⟩ 4) :=
    line_is_shown_where_placed tellsCode_loop hApart (by decide)
  obtain ⟨_, hOutcome, locations, rfl, hShown⟩ := hFinds.comes
  exact ⟨locations, hOutcome, hShown⟩

example : outcome? loopReply (lineLocations ⟨1, 7⟩ 4) = some (.ok [⟨1, 7, 2, 5⟩]) := by decide +kernel

end Loop

end Debuggee
end JvmDebug
