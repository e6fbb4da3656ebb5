import JvmDebug.Json.Basic
import JvmDebug.Json.Record
import Mathlib.Data.List.Nodup

/-!
# Objects and records

The fields that an object is built of are in order, and no name stands in it twice. An object in which no name stands
twice is read as a record exactly if each field that the record knows is as the record asks for.
-/

namespace JvmDebug.Json
set_option autoImplicit false

/-! ## The fields of an object -/

/-- Each name comes before those that follow it. -/
def Ordered (fields : List (String × Json)) : Prop := fields.Pairwise fun f g => f.1 < g.1

theorem ordered_insertField {fields : List (String × Json)} (h : Ordered fields) (name : String) (value : Json) :
    Ordered (insertField name value fields) ∧
      ∀ f ∈ insertField name value fields, f = (name, value) ∨ f ∈ fields ∧ f.1 ≠ name := by
  induction fields with
  | nil => exact ⟨List.pairwise_singleton .., fun f hf => .inl (List.mem_singleton.mp hf)⟩
  | cons g rest ih =>
    obtain ⟨n, v⟩ := g
    obtain ⟨hFirst, hRest⟩ := List.pairwise_cons.mp h
    rw [insertField]
    split
    · next hLess =>
      have hNot : ∀ f ∈ (n, v) :: rest, name < f.1 := fun f hf => by
        rcases List.mem_cons.mp hf with rfl | hf
        · exact hLess
        · exact String.lt_trans hLess (hFirst f hf)
      refine ⟨List.pairwise_cons.mpr ⟨hNot, h⟩, fun f hf => ?_⟩
      rcases List.mem_cons.mp hf with rfl | hf
      · exact .inl rfl
      · exact .inr ⟨hf, fun hEq => String.lt_irrefl name (hEq ▸ hNot f hf)⟩
    · next hNotLess =>
      split
      · next hSame =>
        subst hSame
        refine ⟨List.pairwise_cons.mpr ⟨hFirst, hRest⟩, fun f hf => ?_⟩
        rcases List.mem_cons.mp hf with rfl | hf
        · exact .inl rfl
        · exact .inr ⟨List.mem_cons_of_mem _ hf, fun hEq => String.lt_irrefl n (by simpa [hEq] using hFirst f hf)⟩
      · next hOther =>
        obtain ⟨hOrdered, hMem⟩ := ih hRest
        have hMore : n < name := Decidable.byContradiction fun hNot =>
          hOther (String.le_antisymm (String.not_lt.mp hNotLess) (String.not_lt.mp hNot))
        refine ⟨List.pairwise_cons.mpr ⟨fun f hf => ?_, hOrdered⟩, fun f hf => ?_⟩
        · rcases hMem f hf with rfl | ⟨hf, -⟩
          · exact hMore
          · exact hFirst f hf
        · rcases List.mem_cons.mp hf with rfl | hf
          · exact .inr ⟨List.mem_cons_self, hOther⟩
          · exact (hMem f hf).imp_right fun h => ⟨List.mem_cons_of_mem _ h.1, h.2⟩

theorem ordered_object (fields : List (String × Json)) : ∃ ordered, object fields = .obj ordered ∧ Ordered ordered := by
  have hFold : ∀ ordered, Ordered ordered →
      Ordered (fields.foldl (fun ordered f => insertField f.1 f.2 ordered) ordered) := by
    induction fields with
    | nil => exact fun _ h => h
    | cons f fields ih => exact fun ordered h => ih _ (ordered_insertField h f.1 f.2).1
  exact ⟨_, rfl, hFold [] .nil⟩

theorem mem_insertField {name : String} {value : Json} {fields : List (String × Json)} {f : String × Json}
    (h : f ∈ insertField name value fields) : f = (name, value) ∨ f ∈ fields := by
  induction fields with
  | nil => exact .inl (List.mem_singleton.mp h)
  | cons g rest ih =>
    obtain ⟨n, v⟩ := g
    rw [insertField] at h
    split at h
    · simpa using h
    · split at h
      · exact (List.mem_cons.mp h).imp_right fun h => List.mem_cons_of_mem _ h
      · rcases List.mem_cons.mp h with rfl | h
        · exact .inr List.mem_cons_self
        · exact (ih h).imp_right fun h => List.mem_cons_of_mem _ h

/-- The fields of an object are among those that it is built of. -/
theorem mem_of_object {fields ordered : List (String × Json)} (h : object fields = .obj ordered) {f : String × Json}
    (hf : f ∈ ordered) : f ∈ fields := by
  have hFold : ∀ before : List (String × Json), f ∈ fields.foldl (fun ordered f => insertField f.1 f.2 ordered) before →
      f ∈ before ∨ f ∈ fields := by
    clear h
    induction fields with
    | nil => exact fun _ h => .inl h
    | cons g fields ih =>
      intro before h
      rcases ih _ h with h | h
      · rcases mem_insertField h with rfl | h
        · exact .inr List.mem_cons_self
        · exact .inl h
      · exact .inr (List.mem_cons_of_mem _ h)
  obtain rfl := Json.obj.inj h
  exact (hFold [] hf).resolve_left List.not_mem_nil

theorem Ordered.names {fields : List (String × Json)} (h : Ordered fields) : (fields.map (·.1)).Nodup := by
  refine List.pairwise_map.mpr (h.imp ?_)
  intro f g hLess hEq
  rw [hEq] at hLess
  exact String.lt_irrefl g.1 hLess

end JvmDebug.Json

namespace JvmDebug.Json
set_option autoImplicit false

/-- The value under a name in a list of fields. -/
def under (name : String) (fields : List (String × Json)) : Option Json := (fields.find? (·.1 == name)).map (·.2)

theorem under_cons (name : String) (f : String × Json) (fields : List (String × Json)) :
    under name (f :: fields) = if f.1 = name then some f.2 else under name fields := by
  by_cases h : f.1 = name <;> simp [under, h]

variable {slots : List Slot} {fields : List (String × Json)}

/-- A field that a record knows is noted, if it is as it should be; any other field is set aside. -/
theorem addField_cases (hPlain : ∀ slot ∈ slots, slot.other = none) {found : Found} {name : String}
    (hNew : ∀ g ∈ found.given, g.1 ≠ name) (j : Json) :
    ((∀ slot ∈ slots, slot.name ≠ name) ∧
        addField slots found name j = .ok { found with unknown := found.unknown ++ [(name, j)] }) ∨
      ∃ slot ∈ slots, slot.name = name ∧
        addField slots found name j = (slot.check j).map fun _ => { found with given := found.given ++ [(name, j)] } := by
  have hNamed : ∀ slot ∈ slots, (slot.isNamed name = true ↔ slot.name = name) := fun slot hSlot => by
    simp [Slot.isNamed, hPlain slot hSlot]
  cases hFind : slots.find? (·.isNamed name) with
  | none =>
    refine .inl ⟨fun slot hSlot hEq => ?_, by rw [addField, hFind]⟩
    exact List.find?_eq_none.mp hFind slot hSlot ((hNamed slot hSlot).mpr hEq)
  | some slot =>
    have hSlot := List.mem_of_find?_eq_some hFind
    have hName := (hNamed slot hSlot).mp (List.find?_some (p := fun slot : Slot => slot.isNamed name) hFind)
    have hFresh : found.given.any (·.1 == name) = false := by
      rw [List.any_eq_false]
      intro g hg
      simpa using hNew g hg
    refine .inr ⟨slot, hSlot, hName, ?_⟩
    rw [addField, hFind]
    simp only [hName, hFresh, Bool.false_eq_true, if_false]
    cases slot.check j <;> rfl

/-- The fields that a record knows. -/
def known (slots : List Slot) (fields : List (String × Json)) : List (String × Json) :=
  fields.filter fun f => slots.any (·.name == f.1)

theorem under_known {slot : Slot} (hSlot : slot ∈ slots) : under slot.name (known slots fields) = under slot.name fields := by
  induction fields with
  | nil => rfl
  | cons f fields ih =>
    rw [known, List.filter_cons, under_cons]
    split
    · rw [under_cons]
      split
      · rfl
      · exact ih
    · next hUnknown =>
      have hOther : f.1 ≠ slot.name := fun hEq => hUnknown (List.any_eq_true.mpr ⟨slot, hSlot, by simp [hEq]⟩)
      rw [if_neg hOther]
      exact ih

/-- Whether each field that the record knows is as it should be. -/
def Sound (slots : List Slot) (fields : List (String × Json)) : Prop :=
  ∀ f ∈ fields, ∀ slot ∈ slots, slot.name = f.1 → slot.check f.2 = .ok ()

theorem addFields_iff (hPlain : ∀ slot ∈ slots, slot.other = none) (hOnce : (slots.map (·.name)).Nodup)
    (hNames : (fields.map (·.1)).Nodup) (found : Found) (hNew : ∀ f ∈ fields, ∀ g ∈ found.given, g.1 ≠ f.1) :
    (∀ found', fields.foldlM (fun found f => addField slots found f.1 f.2) found = .ok found' →
        Sound slots fields ∧ found'.given = found.given ++ known slots fields ∧ found'.positional = found.positional) ∧
      (Sound slots fields → ∃ found', fields.foldlM (fun found f => addField slots found f.1 f.2) found = .ok found') := by
  induction fields generalizing found with
  | nil =>
    refine ⟨fun found' h => ?_, fun _ => ⟨found, rfl⟩⟩
    obtain rfl := Except.ok.inj h
    exact ⟨nofun, by simp [known], rfl⟩
  | cons f fields ih =>
    obtain ⟨hFirst, hRest⟩ := List.nodup_cons.mp hNames
    have hHere := hNew f List.mem_cons_self
    have hLater : ∀ g ∈ fields, ∀ h ∈ found.given, h.1 ≠ g.1 := fun g hg => hNew g (List.mem_cons_of_mem _ hg)
    rw [List.foldlM_cons]
    rcases addField_cases hPlain hHere f.2 with ⟨hUnknown, hAdd⟩ | ⟨slot, hSlot, hName, hAdd⟩
    · have hNone : slots.any (·.name == f.1) = false := List.any_eq_false.mpr fun slot hSlot => by
        simpa using hUnknown slot hSlot
      obtain ⟨hOk, hSound⟩ := ih hRest { found with unknown := found.unknown ++ [f] } hLater
      rw [hAdd]
      refine ⟨fun found' h => ?_, fun h => hSound fun g hg => h g (List.mem_cons_of_mem _ hg)⟩
      obtain ⟨hFields, hGiven, hPositional⟩ := hOk found' h
      refine ⟨fun g hg slot hSlot hName => ?_, ?_, hPositional⟩
      · rcases List.mem_cons.mp hg with rfl | hg
        · exact absurd hName (hUnknown slot hSlot)
        · exact hFields g hg slot hSlot hName
      · rw [hGiven, known, known, List.filter_cons, hNone, if_neg Bool.false_ne_true]
    · have hSome : slots.any (·.name == f.1) = true := List.any_eq_true.mpr ⟨slot, hSlot, by simp [hName]⟩
      have hOnly : ∀ other ∈ slots, other.name = f.1 → other = slot := fun other hOther hEq =>
        List.inj_on_of_nodup_map hOnce hOther hSlot (hEq.trans hName.symm)
      have hNext : ∀ g ∈ fields, ∀ h ∈ found.given ++ [f], h.1 ≠ g.1 := fun g hg h hh => by
        rcases List.mem_append.mp hh with hh | hh
        · exact hLater g hg h hh
        · rw [List.mem_singleton.mp hh]
          exact fun hEq => hFirst (List.mem_map.mpr ⟨g, hg, hEq.symm⟩)
      obtain ⟨hOk, hSound⟩ := ih hRest { found with given := found.given ++ [f] } hNext
      rw [hAdd]
      cases hCheck : slot.check f.2 with
      | error why =>
        refine ⟨nofun, fun h => ?_⟩
        have hFits := h f List.mem_cons_self slot hSlot hName
        rw [hCheck] at hFits
        cases hFits
      | ok u =>
        refine ⟨fun found' h => ?_, fun h => hSound fun g hg => h g (List.mem_cons_of_mem _ hg)⟩
        obtain ⟨hFields, hGiven, hPositional⟩ := hOk found' h
        refine ⟨fun g hg other hOther hEq => ?_, ?_, hPositional⟩
        · rcases List.mem_cons.mp hg with rfl | hg
          · rw [hOnly other hOther hEq, hCheck]
          · exact hFields g hg other hOther hEq
        · rw [hGiven, known, known, List.filter_cons, hSome, if_pos rfl, List.append_assoc, List.singleton_append]

/-- What is read of an object is built of the fields that the record knows, and they are sound. -/
theorem sound_of_record {α : Type} {build : Found → Except Mismatch α} (hPlain : ∀ slot ∈ slots, slot.other = none)
    (hOnce : (slots.map (·.name)).Nodup) (hNames : (fields.map (·.1)).Nodup) {a : α}
    (h : record slots build (.obj fields) = .ok a) :
    Sound slots fields ∧ ∃ found, found.given = known slots fields ∧ found.positional = false ∧ build found = .ok a := by
  rw [record] at h
  cases hFound : ofFields slots fields with
  | error why =>
    rw [hFound] at h
    cases h
  | ok found =>
    rw [hFound] at h
    obtain ⟨hSound, hGiven, hPositional⟩ := (addFields_iff hPlain hOnce hNames ⟨[], [], false⟩ (by simp)).1 found hFound
    exact ⟨hSound, found, by simpa using hGiven, hPositional, h⟩

/-- An object of which the known fields are sound is read. -/
theorem record_of_sound {α : Type} {build : Found → Except Mismatch α} (hPlain : ∀ slot ∈ slots, slot.other = none)
    (hOnce : (slots.map (·.name)).Nodup) (hNames : (fields.map (·.1)).Nodup) (hSound : Sound slots fields) {a : α}
    (hBuild : ∀ found : Found, found.given = known slots fields → found.positional = false → build found = .ok a) :
    record slots build (.obj fields) = .ok a := by
  have hAll := addFields_iff hPlain hOnce hNames ⟨[], [], false⟩ (by simp)
  obtain ⟨found, hFound⟩ := hAll.2 hSound
  obtain ⟨-, hGiven, hPositional⟩ := hAll.1 found hFound
  rw [record, ofFields, hFound]
  exact hBuild found (by simpa using hGiven) hPositional

/-- Soundness, by the names that the record knows. -/
theorem sound_iff (hNames : (fields.map (·.1)).Nodup) :
    Sound slots fields ↔ ∀ slot ∈ slots, ∀ j, under slot.name fields = some j → slot.check j = .ok () := by
  have hUnder : ∀ name j, under name fields = some j ↔ (name, j) ∈ fields := by
    intro name j
    constructor
    · intro h
      obtain ⟨f, hFind, rfl⟩ := Option.map_eq_some_iff.mp h
      have hName : f.1 = name := by simpa using List.find?_some (p := fun f : String × Json => f.1 == name) hFind
      exact hName ▸ List.mem_of_find?_eq_some hFind
    · intro hMem
      cases hFind : fields.find? (·.1 == name) with
      | none => exact absurd (List.find?_eq_none.mp hFind _ hMem) (by simp)
      | some f =>
        have hName : f.1 = name := by simpa using List.find?_some (p := fun f : String × Json => f.1 == name) hFind
        have hSame := List.inj_on_of_nodup_map hNames (List.mem_of_find?_eq_some hFind) hMem hName
        rw [under, hFind, hSame]
        rfl
  constructor
  · exact fun h slot hSlot j hj => h (slot.name, j) ((hUnder _ _).mp hj) slot hSlot rfl
  · exact fun h f hf slot hSlot hName => h slot hSlot f.2 ((hUnder _ _).mpr (hName ▸ hf))

theorem check_of {α : Type} {name : String} {read : Reading α} {j : Json} :
    (Slot.of name read).check j = .ok () ↔ ∃ a, read j = .ok a := by
  change (read j).map (fun _ => ()) = .ok () ↔ _
  cases read j with
  | error why => exact ⟨nofun, nofun⟩
  | ok a => exact ⟨fun _ => ⟨a, rfl⟩, fun _ => rfl⟩

end JvmDebug.Json
