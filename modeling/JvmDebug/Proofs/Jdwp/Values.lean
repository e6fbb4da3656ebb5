import JvmDebug.Proofs.Jdwp.Reading

/-!
# Values are read back

A value is read off its tag and its bytes, and the elements of an array off the layout that the tag of the element type
asks for: untagged if they are primitive, each with a tag of its own if they are references. Nothing less is read, and no
tag but those that there are.
-/

namespace JvmDebug.Jdwp
set_option autoImplicit false

theorem Tag.ofByte?_eq_some {b : UInt8} {t : Tag} : ofByte? b = some t ↔ t.toByte = b := by
  constructor
  · intro h
    simpa using List.find?_some h
  · rintro rfl
    exact ofByte?_toByte t

/-- What an array holds whose elements have this tag. References carry tags of their own, which may be any; elements of a
primitive type are all of that type. -/
inductive Value.ElementsOf : Tag → List Value → Prop where
  | references (kind : ReferenceKind) (values : List Value) : ElementsOf (.reference kind) values
  | primitives {tag : Tag} {values : List Value} (hTag : tag.isPrimitive = true) (hSame : ∀ v ∈ values, v.tag = tag) :
    ElementsOf tag values

/-- What readers of values and of elements of arrays make of bytes. -/
structure Value.ReadBy (tagged : Reader Value) (region : Reader (List Value)) : Prop where
  value : ∀ (v : Value) (rest : Bytes), tagged.run (v.taggedLayout ++ rest) = (.ok v, rest)
  value_cut : ∀ (v : Value) (front : Bytes), front <+: v.taggedLayout → front ≠ v.taggedLayout →
    ∃ why, tagged.value front = .error (.malformed why)
  elements : ∀ (tag : Tag) (values : List Value) (rest : Bytes), values.length < 2 ^ 31 → ElementsOf tag values →
    region.run (regionLayout tag values ++ rest) = (.ok values, rest)
  elements_cut : ∀ (tag : Tag) (values : List Value) (front : Bytes), values.length < 2 ^ 31 → ElementsOf tag values →
    front <+: regionLayout tag values → front ≠ regionLayout tag values → ∃ why, region.value front = .error (.malformed why)
  unknown : ∀ (b : UInt8) (rest : Bytes), (∀ tag : Tag, tag.toByte ≠ b) →
    tagged.value (b :: rest) = .error (.malformed (.unknownTag b))
  /-- An unknown tag in front of one of the elements has all of them refused. -/
  unknown_among : ∀ (kind : ReferenceKind) (n : Nat) (before : List Value) (b : UInt8) (rest : Bytes), n < 2 ^ 31 →
    before.length < n → (∀ tag : Tag, tag.toByte ≠ b) →
    region.value ((Tag.reference kind).toByte :: (Layout.count n ++ (before.flatMap taggedLayout ++ b :: rest))) =
      .error (.malformed (.unknownTag b))
  /-- No element has the tag of void. -/
  unknown_elements : ∀ (b : UInt8) (n : Nat) (rest : Bytes),
    (∀ tag : Tag, tag.isPrimitive = true ∨ tag.isReference = true → tag.toByte ≠ b) → 0 < n → n < 2 ^ 31 →
    region.value (b :: (Layout.count n ++ rest)) = .error (.malformed (.unknownElementTag b))
  negative : ∀ (b : UInt8) (n : Int32) (rest : Bytes), n < 0 →
    region.value (b :: (Layout.i32 n ++ rest)) = .error (.malformed (.negativeCount n))

namespace Reader

variable {b : UInt8} {tag : Tag} {values : List Value}

/-! ## Values -/

theorem run_untagged (v : Value) (rest : Bytes) : run (untagged v.tag) (v.layout ++ rest) = (.ok v, rest) := by
  cases v with
  | boolean v => cases v <;> simp [untagged, Value.tag, Value.layout, Layout.flag]
  | _ => simp [untagged, Value.tag, Value.layout]

theorem decodes_untagged (tag : Tag) : Decodes (untagged tag) Value.layout fun v => v.tag = tag where
  toRegular := regular_untagged tag
  back v rest hTag := by
    obtain rfl := hTag
    exact run_untagged v rest

theorem decodes_tagged : Decodes tagged Value.taggedLayout fun _ => True where
  toRegular := regular_tagged
  back v rest _ := by
    refine run_bind_ok.mpr ⟨_, _, run_u8_ok.mpr rfl, ?_⟩
    rw [untaggedByte, Tag.ofByte?_toByte]
    exact run_untagged v rest

theorem run_tagged_unknown (hUnknown : ∀ tag : Tag, tag.toByte ≠ b) (rest : Bytes) :
    run tagged (b :: rest) = (.error (.malformed (.unknownTag b)), rest) := by
  have hNone : Tag.ofByte? b = none := by
    refine Option.eq_none_iff_forall_ne_some.mpr fun tag hTag => ?_
    exact hUnknown tag (Tag.ofByte?_eq_some.mp hTag)
  rw [tagged, run_bind, run_u8_ok.mpr rfl]
  simp only [untaggedByte, hNone]
  rfl

/-! ## Elements of arrays -/

theorem run_arrayRegion_of_reference (kind : ReferenceKind) (bytes : Bytes) :
    run arrayRegion ((Tag.reference kind).toByte :: bytes) = run (list tagged) bytes := by
  rw [arrayRegion, run_bind, run_u8_ok.mpr rfl]
  simp only [Tag.ofByte?_toByte]

theorem run_arrayRegion_of_primitive (hTag : tag.isPrimitive = true) (bytes : Bytes) :
    run arrayRegion (tag.toByte :: bytes) = run (list (untagged tag)) bytes := by
  rw [arrayRegion, run_bind, run_u8_ok.mpr rfl]
  simp only [Tag.ofByte?_toByte]
  cases tag with
  | void | reference _ => cases hTag
  | _ => rfl

theorem run_arrayRegion_of_unknown
    (hUnknown : ∀ tag : Tag, tag.isPrimitive = true ∨ tag.isReference = true → tag.toByte ≠ b) (bytes : Bytes) :
    run arrayRegion (b :: bytes) = run (list (fail (.unknownElementTag b))) bytes := by
  rw [arrayRegion, run_bind, run_u8_ok.mpr rfl]
  cases hTag : Tag.ofByte? b with
  | none => simp only [hTag]
  | some tag =>
    have hByte := Tag.ofByte?_eq_some.mp hTag
    cases tag with
    | void => simp only [hTag]
    | reference kind => exact absurd hByte (hUnknown _ (.inr rfl))
    | _ => exact absurd hByte (hUnknown _ (.inl rfl))

theorem regular_arrayRegion : Regular arrayRegion := by
  refine regular_bind (regular_number _ _ _) fun elementTag => regular_list ?_
  split
  · exact regular_tagged
  · exact regular_fail _
  · exact regular_untagged _
  · exact regular_fail _

theorem run_regionLayout (hCount : values.length < 2 ^ 31) (hElements : Value.ElementsOf tag values) (rest : Bytes) :
    run arrayRegion (Value.regionLayout tag values ++ rest) = (.ok values, rest) := by
  cases hElements with
  | references kind =>
    exact (run_arrayRegion_of_reference kind _).trans
      (decodes_tagged.list.back values rest ⟨hCount, fun _ _ => trivial⟩)
  | primitives hTag hSame =>
    have hUntagged : tag.isReference = false := by
      cases tag with
      | reference _ => cases hTag
      | _ => rfl
    rw [Value.regionLayout, hUntagged]
    exact (run_arrayRegion_of_primitive hTag _).trans ((decodes_untagged tag).list.back values rest ⟨hCount, hSame⟩)

theorem decodes_arrayRegion (tag : Tag) : Decodes arrayRegion (Value.regionLayout tag) fun values =>
    values.length < 2 ^ 31 ∧ Value.ElementsOf tag values where
  toRegular := regular_arrayRegion
  back _ rest h := run_regionLayout h.1 h.2 rest

theorem values_read : Value.ReadBy tagged arrayRegion where
  value v rest := decodes_tagged.back v rest trivial
  value_cut _ _ := decodes_tagged.refuses trivial
  elements _ _ rest hCount hElements := run_regionLayout hCount hElements rest
  elements_cut tag _ _ hCount hElements := (decodes_arrayRegion tag).refuses ⟨hCount, hElements⟩
  unknown b rest hUnknown := congrArg Prod.fst (run_tagged_unknown hUnknown rest)
  unknown_among kind n before b rest hCount hLess hUnknown := by
    have hBefore : run (times tagged before.length) (before.flatMap Value.taggedLayout ++ b :: rest) =
        (.ok before, b :: rest) := decodes_tagged.back.times (fun _ _ => trivial) (b :: rest)
    rw [value, run_arrayRegion_of_reference, list, run_bind, run_count_ok.mpr ⟨hCount, rfl⟩]
    simp only [run_times_error hLess hBefore (run_tagged_unknown hUnknown rest)]
  unknown_elements b n rest hUnknown hPositive hCount := by
    rw [value, run_arrayRegion_of_unknown hUnknown]
    exact value_list_fail hPositive hCount rest
  negative b n rest hSign := by
    rw [value, arrayRegion, run_bind, run_u8_ok.mpr rfl]
    exact value_list_negative _ hSign rest

/-- Elements of an array of objects: a string, null, and an array. -/
example :
    run arrayRegion ([76, 0, 0, 0, 3, 115, 0, 0, 0, 0, 0, 0, 0, 0x10, 76, 0, 0, 0, 0, 0, 0, 0, 0,
        91, 0, 0, 0, 0, 0, 0, 0x20, 1] ++ [7]) =
      (.ok [.reference .string 0x10, .reference .object 0, .reference .array 0x2001], [7]) := by
  decide +kernel

end Reader
end JvmDebug.Jdwp
