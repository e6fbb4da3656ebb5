import JvmDebug.Jdwp.Query
import JvmDebug.Proofs.Jdwp.Values

/-!
# Lists in replies

Classes, threads, fields, methods, lines, variables, frames and values come as lists, some of them behind other fields.
Each is read item by item off its layout, and nothing of it is read if any part is missing, or if its length is negative.
A rejection is told as such, whatever else its reply holds.
-/

namespace JvmDebug.Jdwp
set_option autoImplicit false

open Reader

namespace Query

variable {α κ ι : Type} {q : Query α} {lead : κ → Bytes} {item : ι → Bytes} {proper : ι → Prop} {result : κ → List ι → α}

/-- How a query is answered whose reply is a list of items, behind a lead of other fields. -/
structure DecodesList (q : Query α) (lead : κ → Bytes) (item : ι → Bytes) (proper : ι → Prop)
    (result : κ → List ι → α) : Prop where
  whole : ∀ (k : κ) (items : List ι) (rest : Bytes) (id : UInt32), items.length < 2 ^ 31 → (∀ i ∈ items, proper i) →
    q.answer ⟨id, 0, lead k ++ Layout.list item items ++ rest⟩ = .ok (result k items)
  cut : ∀ (k : κ) (items : List ι) (front : Bytes) (id : UInt32), items.length < 2 ^ 31 → (∀ i ∈ items, proper i) →
    front <+: lead k ++ Layout.list item items → front ≠ lead k ++ Layout.list item items →
    ∃ why, q.answer ⟨id, 0, front⟩ = .error (.malformed why)
  negative : ∀ (k : κ) (n : Int32) (rest : Bytes) (id : UInt32), n < 0 →
    q.answer ⟨id, 0, lead k ++ (Layout.i32 n ++ rest)⟩ = .error (.malformed (.negativeCount n))
  rejected : ∀ (code : UInt16) (data : Bytes) (id : UInt32), code ≠ 0 →
    q.answer ⟨id, code, data⟩ = .error (.rejected code)

theorem answer_accepted (q : Query α) (id : UInt32) (data : Bytes) : q.answer ⟨id, 0, data⟩ = q.reader.value data := rfl

theorem answer_rejected (q : Query α) (id : UInt32) {code : UInt16} (data : Bytes) (hCode : code ≠ 0) :
    q.answer ⟨id, code, data⟩ = .error (.rejected code) := by
  have hCheck : Reply.check ⟨id, code, data⟩ = .error (.rejected code) := if_pos (decide_eq_true hCode)
  rw [answer, hCheck]
  rfl

/-- A list whose items are decoded, behind a lead that is. -/
theorem decodesList {leading : Reader κ} {r : Reader ι}
    (hReader : q.reader = leading >>= fun k => list r >>= fun items => pure (result k items))
    (hLead : Decodes leading lead fun _ => True) (hItem : Decodes r item proper) :
    q.DecodesList lead item proper result := by
  have hRegular : Regular q.reader := by
    rw [hReader]
    exact regular_bind hLead.toRegular fun _ => regular_bind hItem.list.toRegular fun _ => regular_pure _
  have hWhole : ∀ (k : κ) (items : List ι) (rest : Bytes), items.length < 2 ^ 31 → (∀ i ∈ items, proper i) →
      run q.reader (lead k ++ Layout.list item items ++ rest) = (.ok (result k items), rest) := by
    intro k items rest hCount hItems
    rw [hReader, List.append_assoc]
    exact run_bind_ok.mpr ⟨k, _, hLead.back k _ trivial,
      run_bind_ok.mpr ⟨items, rest, hItem.list.back items rest ⟨hCount, hItems⟩, rfl⟩⟩
  exact {
    whole := fun k items rest id hCount hItems => congrArg Prod.fst (hWhole k items rest hCount hItems)
    cut := fun k items front id hCount hItems hPrefix hNe => by
      have hAll := hWhole k items [] hCount hItems
      rw [List.append_nil] at hAll
      exact hRegular.cut hAll hPrefix hNe
    negative := fun k n rest id hSign => by
      rw [answer_accepted, hReader, value, run_bind, hLead.back k _ trivial]
      simp only [list, run_bind, run_count_negative hSign]
    rejected := fun code data id hCode => answer_rejected q id data hCode }

end Query

/-! ## Items and leads -/

def Field.IsEncodable (f : Field) : Prop := Layout.IsEncodable f.name ∧ Layout.IsEncodable f.signature
def Method.IsEncodable (m : Method) : Prop := Layout.IsEncodable m.name ∧ Layout.IsEncodable m.signature
def VariableEntry.IsEncodable (v : VariableEntry) : Prop := Layout.IsEncodable v.name ∧ Layout.IsEncodable v.signature

namespace Reader

theorem decodes_nothing : Decodes (pure ()) (fun _ => []) fun _ => True where
  toRegular := regular_pure ()
  back _ _ _ := rfl

theorem decodes_i32 : Decodes i32 Layout.i32 fun _ => True where
  toRegular := regular_number _ _ _
  back _ _ _ := run_i32_ok.mpr rfl

theorem decodes_u64 : Decodes u64 Layout.u64 fun _ => True where
  toRegular := regular_number _ _ _
  back _ _ _ := run_u64_ok.mpr rfl

theorem decodes_ends :
    Decodes (do return (← i64, ← i64)) (fun ends => Layout.i64 ends.1 ++ Layout.i64 ends.2) fun _ => True where
  toRegular := regular_bind (regular_number _ _ _) fun _ => regular_bind (regular_number _ _ _) fun _ => regular_pure _
  back ends rest _ := by
    cases ends
    simp

theorem decodes_location : Decodes location Location.layout fun _ => True where
  toRegular := regular_location
  back _ _ _ := run_location_ok.mpr rfl

theorem decodes_classInfo (signature : String) :
    Decodes (do return { typeTag := ← u8, id := ← u64, signature, status := ← i32 }) ClassInfo.layout
      (·.signature = signature) where
  toRegular := regular_bind (regular_number _ _ _) fun _ => regular_bind (regular_number _ _ _) fun _ =>
    regular_bind (regular_number _ _ _) fun _ => regular_pure _
  back c rest hSignature := by
    obtain rfl := hSignature
    cases c
    simp [ClassInfo.layout]

theorem decodes_field :
    Decodes (do return { id := ← u64, name := ← string, signature := ← string, modifiers := ← i32 }) Field.layout
      Field.IsEncodable where
  toRegular := regular_bind (regular_number _ _ _) fun _ => regular_bind regular_string fun _ =>
    regular_bind regular_string fun _ => regular_bind (regular_number _ _ _) fun _ => regular_pure _
  back f rest hEncodable := by
    cases f
    simpa [Field.layout, Field.IsEncodable, Layout.IsEncodable] using hEncodable

theorem decodes_method :
    Decodes (do return { id := ← u64, name := ← string, signature := ← string, modifiers := ← i32 }) Method.layout
      Method.IsEncodable where
  toRegular := regular_bind (regular_number _ _ _) fun _ => regular_bind regular_string fun _ =>
    regular_bind regular_string fun _ => regular_bind (regular_number _ _ _) fun _ => regular_pure _
  back m rest hEncodable := by
    cases m
    simpa [Method.layout, Method.IsEncodable, Layout.IsEncodable] using hEncodable

theorem decodes_lineEntry :
    Decodes (do return { index := ← u64, line := ← i32 }) LineEntry.layout fun _ => True where
  toRegular := regular_bind (regular_number _ _ _) fun _ => regular_bind (regular_number _ _ _) fun _ => regular_pure _
  back e rest _ := by
    cases e
    simp [LineEntry.layout]

theorem decodes_variableEntry :
    Decodes (do return { start := ← u64, name := ← string, signature := ← string, length := ← u32, slot := ← u32 })
      VariableEntry.layout VariableEntry.IsEncodable where
  toRegular := regular_bind (regular_number _ _ _) fun _ => regular_bind regular_string fun _ =>
    regular_bind regular_string fun _ => regular_bind (regular_number _ _ _) fun _ =>
      regular_bind (regular_number _ _ _) fun _ => regular_pure _
  back v rest hEncodable := by
    cases v
    simpa [VariableEntry.layout, VariableEntry.IsEncodable, Layout.IsEncodable] using hEncodable

theorem decodes_frame : Decodes (do return { id := ← u64, location := ← location }) Frame.layout fun _ => True where
  toRegular := regular_bind (regular_number _ _ _) fun _ => regular_bind regular_location fun _ =>
    regular_pure _
  back f rest _ := by
    cases f
    simp [Frame.layout]

end Reader

/-! ## Queries -/

namespace Query

variable {α ι : Type} {q : Query (List ι)} {item : ι → Bytes} {proper : ι → Prop}

/-- A query that is answered by nothing but a list. -/
abbrev DecodesItems (q : Query (List ι)) (item : ι → Bytes) (proper : ι → Prop) : Prop :=
  q.DecodesList (fun _ : Unit => []) item proper fun _ items => items

theorem decodesItems {r : Reader ι} (hReader : q.reader = list r) (hItem : Decodes r item proper) :
    q.DecodesItems item proper :=
  decodesList (by rw [hReader, bind_pure, pure_bind]) decodes_nothing hItem

/-- Each list that is asked for is read off its layout, and off nothing less. -/
theorem lists_decoded :
    (∀ signature, (classesBySignature signature).DecodesItems ClassInfo.layout (·.signature = signature)) ∧
    allThreads.DecodesItems Layout.u64 (fun _ => True) ∧
    (∀ c, (fields c).DecodesItems Field.layout Field.IsEncodable) ∧
    (∀ c, (methods c).DecodesItems Method.layout Method.IsEncodable) ∧
    (∀ c m, (lineTable c m).DecodesList (fun ends : Int64 × Int64 => Layout.i64 ends.1 ++ Layout.i64 ends.2)
      LineEntry.layout (fun _ => True) fun ends entries => ⟨ends.1, ends.2, entries⟩) ∧
    (∀ c m, (variableTable c m).DecodesList Layout.i32 VariableEntry.layout VariableEntry.IsEncodable
      fun _ entries => entries) ∧
    (∀ thread start length, (frames thread start length).DecodesItems Frame.layout fun _ => True) ∧
    (∀ object fields, (objectValues object fields).DecodesItems Value.taggedLayout fun _ => True) ∧
    ∀ thread frame slots, (frameValues thread frame slots).DecodesItems Value.taggedLayout fun _ => True := by
  refine ⟨fun signature => ?classes, ?threads, fun c => ?fields, fun c => ?methods, fun c m => ?lines, fun c m => ?locals,
    fun thread start length => ?frames, fun object fields => ?object, fun thread frame slots => ?frame⟩
  case classes => exact decodesItems rfl (decodes_classInfo signature)
  case threads => exact decodesItems rfl decodes_u64
  case fields => exact decodesItems rfl decodes_field
  case methods => exact decodesItems rfl decodes_method
  case lines => exact decodesList (by simp [lineTable, Query.of]) decodes_ends decodes_lineEntry
  case locals => exact decodesList (by simp [variableTable, Query.of]) decodes_i32 decodes_variableEntry
  case frames => exact decodesItems rfl decodes_frame
  case object | frame => exact decodesItems rfl decodes_tagged

end Query
end JvmDebug.Jdwp
