import JvmDebug.Proofs.Json.Numeral
import JvmDebug.Proofs.Json.Record

/-!
# Rendered JSON is read back

The text of a value is read as that value, to the last digit of its numbers and field by field.
-/

namespace JvmDebug
set_option autoImplicit false

namespace Document

mutual

/-- The value that a document is, with its numbers as they are written and its fields in their order. -/
def precise? : Document → Option Json
  | .null => some .null
  | .bool b => some (.bool b)
  | .number n => some n.exact
  | .text s => s.map .str
  | .array items => (preciseItems? items).map .arr
  | .object fields => (preciseFields? fields).map .obj

def preciseItems? : List Document → Option (List Json)
  | [] => some []
  | x :: rest => do return (← precise? x) :: (← preciseItems? rest)

def preciseFields? : List (Option String × Document) → Option (List (String × Json))
  | [] => some []
  | (name, x) :: rest => do return (← name, ← precise? x) :: (← preciseFields? rest)

end

end Document

namespace Json

/-- The value that a text is. -/
def precise? (text : String) : Option Json := (Document.parse? text).bind Document.precise?

def isFiniteNumber (x : Binary.Double) : Bool :=
  match x.parts with
  | .finite .. => true
  | _ => false

mutual

/-- Whether a value can be told in JSON, in which no number is infinite or none at all. -/
def isFinite : Json → Bool
  | .float x => isFiniteNumber x
  | .arr items => areFinite items
  | .obj fields => haveFinite fields
  | .null | .bool _ | .int _ | .str _ => true

def areFinite : List Json → Bool
  | [] => true
  | x :: rest => isFinite x && areFinite rest

def haveFinite : List (String × Json) → Bool
  | [] => true
  | (_, x) :: rest => isFinite x && haveFinite rest

end

theorem finite_cases {x : Binary.Double} (h : (Json.float x).isFinite = true) :
    ∃ negative m e, x.parts = .finite negative m e := by
  change isFiniteNumber x = true at h
  rw [isFiniteNumber] at h
  split at h
  · next negative m e hParts => exact ⟨negative, m, e, hParts⟩
  · cases h

theorem haveFinite_iff (fields : List (String × Json)) :
    haveFinite fields = true ↔ ∀ f ∈ fields, f.2.isFinite = true := by
  induction fields with
  | nil => simp [haveFinite]
  | cons f rest ih =>
    obtain ⟨name, x⟩ := f
    simp [haveFinite, ih]

theorem isFinite_object {fields : List (String × Json)} (h : ∀ f ∈ fields, f.2.isFinite = true) :
    (object fields).isFinite = true := by
  obtain ⟨ordered, hObject, -⟩ := ordered_object fields
  rw [hObject]
  exact (haveFinite_iff ordered).mpr fun f hf => h f (mem_of_object hObject hf)

/-! Strings -/

open Document (Partial stringRest)

theorem stringRest_plain {c : Char} (hQuote : c ≠ '"') (hSlash : c ≠ '\\') (hShown : ¬ c.toNat < 0x20) (rest : List Char)
    (s : Partial) : stringRest (c :: rest) s = stringRest rest (s.push c) := by
  have hStop : ¬ (c.toNat < 0x20 ∨ c = '\\') := not_or.mpr ⟨hShown, hSlash⟩
  rw [Document.stringRest.eq_def]
  split
  · simp_all
  · simp_all
  · simp_all
  · simp_all
  · next hEq =>
    obtain ⟨rfl, rfl⟩ := List.cons.inj hEq
    rw [if_neg hStop]

theorem hexUnit?_control : ∀ n < 32, Document.hexUnit? '0' '0' (hexDigit (n / 16)) (hexDigit (n % 16)) = some n := by
  decide

theorem stringRest_control {c : Char} (h : c.toNat < 0x20) (rest : List Char) (s : Partial) :
    stringRest ('\\' :: 'u' :: '0' :: '0' :: hexDigit (c.toNat / 16) :: hexDigit (c.toNat % 16) :: rest) s =
      stringRest rest (s.push c) := by
  have hUnit : s.pushUnit c.toNat = s.push c := by
    rw [Partial.pushUnit, if_neg (by omega), if_neg (by omega), Char.ofNat_toNat]
  rw [Document.stringRest.eq_def]
  simp only [hexUnit?_control c.toNat h, hUnit]

/-- What is written for a character is read as that character. -/
theorem stringRest_escapeChar (c : Char) (rest : List Char) (s : Partial) :
    stringRest (escapeChar c ++ rest) s = stringRest rest (s.push c) := by
  rw [escapeChar]
  split
  · next h => subst h; rfl
  split
  · next h => subst h; rfl
  split
  · next h => subst h; rfl
  split
  · next h => subst h; rfl
  split
  · next h => subst h; rfl
  split
  · next h => subst h; rfl
  split
  · next h => subst h; rfl
  split
  · next h => exact stringRest_control h rest s
  · next hQuote hSlash _ _ _ _ _ hShown => exact stringRest_plain hQuote hSlash hShown rest s

theorem stringRest_escaped (cs rest : List Char) (s : Partial) :
    stringRest (cs.flatMap escapeChar ++ '"' :: rest) s = some ((cs.foldl Partial.push s).finish, rest) := by
  induction cs generalizing s with
  | nil => rfl
  | cons c cs ih => rw [List.flatMap_cons, List.append_assoc, stringRest_escapeChar, ih, List.foldl_cons]

theorem finish_push (cs reversed : List Char) :
    (cs.foldl Partial.push ⟨reversed, none, true⟩).finish = some (String.ofList (reversed.reverse ++ cs)) := by
  induction cs generalizing reversed with
  | nil => simp [Partial.finish]
  | cons c cs ih =>
    have hPush : Partial.push ⟨reversed, none, true⟩ c = ⟨c :: reversed, none, true⟩ := rfl
    rw [List.foldl_cons, hPush, ih, List.reverse_cons, List.append_assoc]
    rfl

theorem toList_quoted (s : String) : (quoted s).toList = '"' :: (s.toList.flatMap escapeChar ++ ['"']) := by
  rw [quoted, String.toList_ofList]
  rfl

/-- A string in quotes is read as the string. -/
theorem string_quoted (s : String) (rest : List Char) :
    Document.string (s.toList.flatMap escapeChar ++ '"' :: rest) = some (some s, rest) := by
  rw [Document.string, stringRest_escaped, finish_push, List.reverse_nil, List.nil_append, String.ofList_toList]

/-! Numbers -/

theorem digit_cases {c : Char} (h : c.isDigit = true) : c ∈ ['0', '1', '2', '3', '4', '5', '6', '7', '8', '9'] := by
  have hRange : 48 ≤ c.toNat ∧ c.toNat ≤ 57 := by
    simp only [Char.isDigit, Bool.and_eq_true, decide_eq_true_eq] at h
    exact h
  have hAll : ∀ n < 58, 48 ≤ n → Char.ofNat n ∈ ['0', '1', '2', '3', '4', '5', '6', '7', '8', '9'] := by decide
  rw [← Char.ofNat_toNat c]
  exact hAll c.toNat (by omega) hRange.1

/-- A number is read where a value is expected. -/
theorem value_number (w : Written) (negative : Bool) (fuel : Nat) {rest : List Char} (h : Ends rest) :
    Document.value (fuel + 1) (signChars negative ++ w.chars ++ rest) = some (.number (w.numeral negative), rest) := by
  cases negative with
  | true => exact w.numeral_chars true h
  | false =>
    obtain ⟨c, cs, hChars, hDigit⟩ := w.exists_digit
    have hNumeral := w.numeral_chars false h
    change Document.value (fuel + 1) (w.chars ++ rest) = _
    rw [← hNumeral, hChars]
    have hCases := digit_cases hDigit
    simp only [List.mem_cons, List.not_mem_nil, or_false] at hCases
    rcases hCases with rfl | rfl | rfl | rfl | rfl | rfl | rfl | rfl | rfl | rfl <;> rfl

/-! Lists and objects -/

/-- The texts with commas between them. -/
def joined (texts : List String) : List Char := [','].intercalate (texts.map String.toList)

theorem joined_single (text : String) : joined [text] = text.toList := List.intercalate_singleton

theorem joined_cons (text next : String) (texts : List String) :
    joined (text :: next :: texts) = text.toList ++ ',' :: joined (next :: texts) := by
  rw [joined, List.map_cons, List.map_cons, List.intercalate_cons_cons, List.append_assoc]
  rfl

theorem toList_render_arr (items : List Json) :
    (render (.arr items)).toList = '[' :: (joined (renderItems items) ++ [']']) := by
  change ("[" ++ ",".intercalate (renderItems items) ++ "]").toList = _
  rw [String.toList_append, String.toList_append, String.toList_intercalate]
  rfl

theorem toList_render_obj (fields : List (String × Json)) :
    (render (.obj fields)).toList = '\x7b' :: (joined (renderFields fields) ++ ['\x7d']) := by
  change ("\x7b" ++ ",".intercalate (renderFields fields) ++ "\x7d").toList = _
  rw [String.toList_append, String.toList_append, String.toList_intercalate]
  rfl

/-- What a field is written as. -/
def fieldText (name : String) (x : Json) : String := quoted name ++ ":" ++ render x

theorem toList_fieldText (name : String) (x : Json) :
    (fieldText name x).toList = '"' :: (name.toList.flatMap escapeChar ++ '"' :: ':' :: (render x).toList) := by
  rw [fieldText, String.toList_append, String.toList_append, toList_quoted]
  simp

/-- A value of which the text is read as that value, whatever may stand behind it. -/
def Recovers (j : Json) : Prop :=
  ∀ fuel rest, Ends rest → (render j).toList.length ≤ fuel →
    ∃ d, Document.value fuel ((render j).toList ++ rest) = some (d, rest) ∧ d.precise? = some j

theorem ends_comma (rest : List Char) : Ends (',' :: rest) := by
  rintro c ⟨rfl⟩
  exact .inl rfl

theorem ends_bracket (rest : List Char) : Ends (']' :: rest) := by
  rintro c ⟨rfl⟩
  exact .inr (.inl rfl)

theorem ends_brace (rest : List Char) : Ends ('\x7d' :: rest) := by
  rintro c ⟨rfl⟩
  exact .inr (.inr rfl)

theorem items_joined {x : Json} {items : List Json} (hEach : ∀ y ∈ x :: items, Recovers y) (fuel : Nat) (rest : List Char)
    (hFuel : (joined (renderItems (x :: items))).length + 1 ≤ fuel) :
    ∃ ds, Document.items fuel (joined (renderItems (x :: items)) ++ ']' :: rest) = some (ds, rest) ∧
      Document.preciseItems? ds = some (x :: items) := by
  induction items generalizing x fuel with
  | nil =>
    obtain ⟨k, rfl⟩ : ∃ k, fuel = k + 1 := ⟨fuel - 1, by omega⟩
    change (joined [render x]).length + 1 ≤ k + 1 at hFuel
    rw [joined_single] at hFuel
    obtain ⟨d, hValue, hExact⟩ := hEach x (by simp) k (']' :: rest) (ends_bracket rest) (by omega)
    refine ⟨[d], ?_, ?_⟩
    · change Document.items (k + 1) (joined [render x] ++ ']' :: rest) = _
      rw [joined_single, Document.items, hValue]
      rfl
    · simp [Document.preciseItems?, hExact]
  | cons y items ih =>
    obtain ⟨k, rfl⟩ : ∃ k, fuel = k + 1 := ⟨fuel - 1, by omega⟩
    have hText : joined (renderItems (x :: y :: items)) = (render x).toList ++ ',' :: joined (renderItems (y :: items)) :=
      joined_cons ..
    rw [hText, List.length_append, List.length_cons] at hFuel
    obtain ⟨d, hValue, hExact⟩ := hEach x (by simp) k (',' :: (joined (renderItems (y :: items)) ++ ']' :: rest))
      (ends_comma _) (by omega)
    obtain ⟨ds, hItems, hRest⟩ := ih (fun z hz => hEach z (List.mem_cons_of_mem x hz)) k (by omega)
    refine ⟨d :: ds, ?_, ?_⟩
    · rw [hText, List.append_assoc, List.cons_append, Document.items, hValue]
      change (Document.items k (joined (renderItems (y :: items)) ++ ']' :: rest)).map _ = _
      rw [hItems]
      rfl
    · simp [Document.preciseItems?, hExact, hRest]

/-- A field is read up to what stands behind its value. -/
theorem field_text (name : String) {x : Json} (hx : Recovers x) (fuel : Nat) {rest : List Char} (hEnds : Ends rest)
    (hFuel : (fieldText name x).toList.length ≤ fuel) :
    ∃ colon d, (fieldText name x).toList ++ rest = '"' :: (name.toList.flatMap escapeChar ++ '"' :: colon) ∧
      Document.string (name.toList.flatMap escapeChar ++ '"' :: colon) = some (some name, colon) ∧
      Document.skipSpace colon = ':' :: ((render x).toList ++ rest) ∧
      Document.value fuel ((render x).toList ++ rest) = some (d, rest) ∧ d.precise? = some x := by
  rw [toList_fieldText] at hFuel ⊢
  simp only [List.length_cons, List.length_append] at hFuel
  obtain ⟨d, hValue, hExact⟩ := hx fuel rest hEnds (by omega)
  refine ⟨':' :: ((render x).toList ++ rest), d, ?_, string_quoted name _, rfl, hValue, hExact⟩
  rw [List.cons_append, List.append_assoc]
  rfl

theorem fields_joined {name : String} {x : Json} {fields : List (String × Json)}
    (hEach : ∀ f ∈ (name, x) :: fields, Recovers f.2) (fuel : Nat) (rest : List Char)
    (hFuel : (joined (renderFields ((name, x) :: fields))).length + 1 ≤ fuel) :
    ∃ ds, Document.fields fuel (joined (renderFields ((name, x) :: fields)) ++ '\x7d' :: rest) = some (ds, rest) ∧
      Document.preciseFields? ds = some ((name, x) :: fields) := by
  have hSpace : ∀ cs, Document.skipSpace ('"' :: cs) = '"' :: cs ∧ Document.skipSpace (',' :: cs) = ',' :: cs ∧
      Document.skipSpace ('\x7d' :: cs) = '\x7d' :: cs := fun _ => ⟨rfl, rfl, rfl⟩
  have hx : Recovers x := hEach (name, x) (by simp)
  induction fields generalizing name x fuel with
  | nil =>
    obtain ⟨k, rfl⟩ : ∃ k, fuel = k + 1 := ⟨fuel - 1, by omega⟩
    have hText : joined (renderFields [(name, x)]) = (fieldText name x).toList := joined_single _
    rw [hText] at hFuel ⊢
    obtain ⟨colon, d, hField, hName, hColon, hValue, hExact⟩ :=
      field_text name hx k (ends_brace rest) (by omega)
    refine ⟨[(some name, d)], ?_, ?_⟩
    · rw [hField]
      simp only [Document.fields, hSpace, hName, hColon, hValue]
    · simp [Document.preciseFields?, hExact]
  | cons f fields ih =>
    obtain ⟨k, rfl⟩ : ∃ k, fuel = k + 1 := ⟨fuel - 1, by omega⟩
    obtain ⟨other, y⟩ := f
    have hText : joined (renderFields ((name, x) :: (other, y) :: fields)) =
        (fieldText name x).toList ++ ',' :: joined (renderFields ((other, y) :: fields)) := joined_cons ..
    rw [hText, List.length_append, List.length_cons] at hFuel
    obtain ⟨colon, d, hField, hName, hColon, hValue, hExact⟩ :=
      field_text name hx k (ends_comma (joined (renderFields ((other, y) :: fields)) ++ '\x7d' :: rest)) (by omega)
    obtain ⟨ds, hFields, hRest⟩ :=
      ih (fun f hf => hEach f (List.mem_cons_of_mem _ hf)) k (by omega) (hEach (other, y) (by simp))
    refine ⟨(some name, d) :: ds, ?_, ?_⟩
    · rw [hText, List.append_assoc, List.cons_append, hField]
      simp only [Document.fields, hSpace, hName, hColon, hValue, hFields, Option.map_some]
    · simp [Document.preciseFields?, hExact, hRest]

/-! Values -/

/-- A value starts with no space, and with no bracket that closes a list. -/
theorem render_starts (j : Json) (hFinite : j.isFinite = true) :
    ∃ c cs, (render j).toList = c :: cs ∧ Document.isSpace c = false ∧ c ≠ ']' := by
  have hSigned : ∀ (w : Written) (negative : Bool), ∃ c cs, signChars negative ++ w.chars = c :: cs ∧
      Document.isSpace c = false ∧ c ≠ ']' := by
    intro w negative
    cases negative with
    | true => exact ⟨'-', w.chars, rfl, by decide, by decide⟩
    | false =>
      obtain ⟨c, cs, hChars, hDigit⟩ := w.exists_digit
      refine ⟨c, cs, hChars, ?_, ?_⟩
      all_goals have hCases := digit_cases hDigit
      all_goals simp only [List.mem_cons, List.not_mem_nil, or_false] at hCases
      all_goals rcases hCases with rfl | rfl | rfl | rfl | rfl | rfl | rfl | rfl | rfl | rfl <;> decide
  cases j with
  | null => exact ⟨'n', ['u', 'l', 'l'], rfl, by decide, by decide⟩
  | bool b =>
    cases b with
    | true => exact ⟨'t', ['r', 'u', 'e'], rfl, by decide, by decide⟩
    | false => exact ⟨'f', ['a', 'l', 's', 'e'], rfl, by decide, by decide⟩
  | int n =>
    obtain ⟨w, hText, -⟩ := written_int n
    exact hText ▸ hSigned w _
  | float x =>
    obtain ⟨negative, m, e, hParts⟩ := finite_cases hFinite
    obtain ⟨w, hText, -⟩ := written_float hParts
    exact hText ▸ hSigned w _
  | str s => exact ⟨'"', _, toList_quoted s, by decide, by decide⟩
  | arr items => exact ⟨'[', _, toList_render_arr items, by decide, by decide⟩
  | obj fields => exact ⟨'\x7b', _, toList_render_obj fields, by decide, by decide⟩

/-- A value that holds no others is read in one step. -/
theorem recovers_of_value {j : Json} (hSome : 0 < (render j).toList.length)
    (hValue : ∀ fuel rest, Ends rest →
      ∃ d, Document.value (fuel + 1) ((render j).toList ++ rest) = some (d, rest) ∧ d.precise? = some j) : Recovers j := by
  intro fuel rest hEnds hFuel
  obtain ⟨k, rfl⟩ : ∃ k, fuel = k + 1 := ⟨fuel - 1, by omega⟩
  exact hValue k rest hEnds

theorem recovers_number {j : Json} {w : Written} {negative : Bool} (hText : (render j).toList = signChars negative ++ w.chars)
    (hExact : (w.numeral negative).exact = j) : Recovers j := by
  obtain ⟨c, cs, hChars, -⟩ := w.exists_digit
  apply recovers_of_value
  · simp [hText, hChars]
  · intro fuel rest hEnds
    rw [hText]
    exact ⟨_, value_number w negative fuel hEnds, congrArg some hExact⟩

theorem recovers_int (n : Int) : Recovers (.int n) := by
  obtain ⟨w, hText, hExact⟩ := written_int n
  exact recovers_number hText hExact

theorem recovers_float {x : Binary.Double} (hFinite : (Json.float x).isFinite = true) : Recovers (.float x) := by
  obtain ⟨negative, m, e, hParts⟩ := finite_cases hFinite
  obtain ⟨w, hText, hExact⟩ := written_float hParts
  exact recovers_number hText hExact

theorem recovers_str (s : String) : Recovers (.str s) := by
  have hText : (render (.str s)).toList = _ := toList_quoted s
  apply recovers_of_value
  · rw [hText]
    exact Nat.succ_pos _
  · intro fuel rest _
    refine ⟨.text (some s), ?_, rfl⟩
    rw [hText, List.cons_append, List.append_assoc]
    change (Document.string (s.toList.flatMap escapeChar ++ '"' :: rest)).map _ = _
    rw [string_quoted]
    rfl

theorem joined_starts {x : Json} (items : List Json) {p : Char → Prop} (h : ∃ c cs, (render x).toList = c :: cs ∧ p c) :
    ∃ c cs, joined (renderItems (x :: items)) = c :: cs ∧ p c := by
  obtain ⟨c, cs, hChars, hp⟩ := h
  cases items with
  | nil => exact ⟨c, cs, (joined_single _).trans hChars, hp⟩
  | cons y items => exact ⟨c, _, (joined_cons ..).trans (by rw [hChars, List.cons_append]), hp⟩

theorem fields_start (name : String) (x : Json) (fields : List (String × Json)) :
    ∃ cs, joined (renderFields ((name, x) :: fields)) = '"' :: cs := by
  cases fields with
  | nil => exact ⟨_, (joined_single _).trans (toList_fieldText name x)⟩
  | cons f fields =>
    exact ⟨_, (joined_cons ..).trans (by rw [← fieldText, toList_fieldText, List.cons_append])⟩

theorem value_list {c : Char} (hSpace : Document.isSpace c = false) (hBracket : c ≠ ']') (fuel : Nat) (cs : List Char) :
    Document.value (fuel + 1) ('[' :: c :: cs) =
      (Document.items fuel (c :: cs)).map fun found => (.array found.1, found.2) := by
  have hSkip : Document.skipSpace (c :: cs) = c :: cs := List.dropWhile_cons_of_neg (by simp [hSpace])
  have hOpen : Document.skipSpace ('[' :: c :: cs) = '[' :: c :: cs := rfl
  simp only [Document.value, hOpen, hSkip]
  split
  · next hEq => exact absurd (List.cons.inj hEq).1 hBracket
  · rfl

theorem recovers_arr {items : List Json} (hFinite : areFinite items = true) (hEach : ∀ x ∈ items, Recovers x) :
    Recovers (.arr items) := by
  intro fuel rest _ hFuel
  rw [toList_render_arr, List.length_cons, List.length_append, List.length_singleton] at hFuel
  obtain ⟨k, rfl⟩ : ∃ k, fuel = k + 1 := ⟨fuel - 1, by omega⟩
  rw [toList_render_arr, List.cons_append, List.append_assoc, List.singleton_append]
  cases items with
  | nil => exact ⟨.array [], rfl, rfl⟩
  | cons x items =>
    have hFirst : x.isFinite = true := by
      rw [areFinite, Bool.and_eq_true] at hFinite
      exact hFinite.1
    obtain ⟨c, cs, hStart, hSpace, hBracket⟩ := joined_starts items (render_starts x hFirst)
    obtain ⟨ds, hItems, hExact⟩ := items_joined hEach k rest (by omega)
    refine ⟨.array ds, ?_, ?_⟩
    · rw [hStart, List.cons_append] at hItems ⊢
      rw [value_list hSpace hBracket, hItems]
      rfl
    · simp [Document.precise?, hExact]

theorem recovers_obj {fields : List (String × Json)} (hEach : ∀ f ∈ fields, Recovers f.2) : Recovers (.obj fields) := by
  intro fuel rest _ hFuel
  rw [toList_render_obj, List.length_cons, List.length_append, List.length_singleton] at hFuel
  obtain ⟨k, rfl⟩ : ∃ k, fuel = k + 1 := ⟨fuel - 1, by omega⟩
  rw [toList_render_obj, List.cons_append, List.append_assoc, List.singleton_append]
  cases fields with
  | nil => exact ⟨.object [], rfl, rfl⟩
  | cons f fields =>
    obtain ⟨name, x⟩ := f
    obtain ⟨cs, hStart⟩ := fields_start name x fields
    obtain ⟨ds, hFields, hExact⟩ := fields_joined hEach k rest (by omega)
    refine ⟨.object ds, ?_, ?_⟩
    · rw [hStart, List.cons_append] at hFields ⊢
      change (Document.fields k ('"' :: (cs ++ '\x7d' :: rest))).map _ = _
      rw [hFields]
      rfl
    · simp [Document.precise?, hExact]

mutual

/-- A value that JSON can tell is read back from its text. -/
theorem recovers : ∀ j : Json, j.isFinite = true → Recovers j
  | .null, _ => recovers_of_value (by decide) fun _ _ _ => ⟨.null, rfl, rfl⟩
  | .bool true, _ => recovers_of_value (by decide) fun _ _ _ => ⟨.bool true, rfl, rfl⟩
  | .bool false, _ => recovers_of_value (by decide) fun _ _ _ => ⟨.bool false, rfl, rfl⟩
  | .int n, _ => recovers_int n
  | .float _, h => recovers_float h
  | .str s, _ => recovers_str s
  | .arr items, h => recovers_arr h (recovers_items items h)
  | .obj fields, h => recovers_obj (recovers_fields fields h)

theorem recovers_items : ∀ items : List Json, areFinite items = true → ∀ x ∈ items, Recovers x
  | [], _ => by simp
  | x :: rest, h => by
    rw [areFinite, Bool.and_eq_true] at h
    rintro y (_ | ⟨_, hy⟩)
    · exact recovers x h.1
    · exact recovers_items rest h.2 y hy

theorem recovers_fields : ∀ fields : List (String × Json), haveFinite fields = true → ∀ f ∈ fields, Recovers f.2
  | [], _ => by simp
  | (name, x) :: rest, h => by
    rw [haveFinite, Bool.and_eq_true] at h
    rintro f (_ | ⟨_, hf⟩)
    · exact recovers x h.1
    · exact recovers_fields rest h.2 f hf

end

/-- The text of a value is read as that value. -/
theorem precise?_render {j : Json} (h : j.isFinite = true) : precise? (render j) = some j := by
  have hEnds : Ends [] := fun _ hc => nomatch hc
  obtain ⟨d, hValue, hExact⟩ := recovers j h (2 * (render j).toList.length + 2) [] hEnds (by omega)
  rw [List.append_nil] at hValue
  simp only [precise?, Document.parse?, hValue]
  exact hExact

end Json
end JvmDebug
