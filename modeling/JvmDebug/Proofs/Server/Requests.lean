import JvmDebug.Proofs.Json.Record
import JvmDebug.Server

/-!
# Which messages are requests

A message is taken for a request exactly if it is an object of the type of requests, with a whole number of 64 bits and
a command. What is made of a message is told by a routine that hands over at most that request.
-/

namespace JvmDebug

namespace Json
set_option autoImplicit false

theorem get?_obj (name : String) (fields : List (String × Json)) : (obj fields).get? name = under name fields := rfl

/-- What has fields at all is an object. -/
theorem exists_fields {name : String} {j x : Json} (h : j.get? name = some x) : ∃ fields, j = obj fields := by
  cases j with
  | obj fields => exact ⟨fields, rfl⟩
  | _ => cases h

theorem value_of_numeral {n : Numeral} {j : Json} (h : n.value? = some j) : (∃ k, j = int k) ∨ ∃ x, j = float x := by
  have hFloat : ∀ {negative significand power}, Numeral.float negative significand power = some j → ∃ x, j = float x := by
    intro negative significand power h
    obtain ⟨x, -, rfl⟩ := Option.map_eq_some_iff.mp h
    exact ⟨_, rfl⟩
  rw [Numeral.value?] at h
  simp only [] at h
  split at h
  · split at h
    · split at h
      · exact .inl ⟨_, (Option.some.inj h).symm⟩
      · split at h
        · exact .inl ⟨_, (Option.some.inj h).symm⟩
        · exact .inr (hFloat h)
    · exact .inr (hFloat h)
  · split at h
    · exact .inr (hFloat h)
    · split at h
      · cases h
      · exact .inr ⟨_, (Option.some.inj h).symm⟩

/-- An object that was read has its fields in order. -/
theorem ordered_of_parse {text : String} {fields : List (String × Json)} (h : parse? text = some (obj fields)) :
    Ordered fields := by
  obtain ⟨d, -, h⟩ := Option.bind_eq_some_iff.mp h
  have hValue : d.value? = some (obj fields) := by
    split at h
    · cases h
    · exact h
  cases d with
  | object found =>
    obtain ⟨values, -, hObject⟩ := Option.map_eq_some_iff.mp hValue
    obtain ⟨ordered, hEq, hOrdered⟩ := ordered_object values
    obtain rfl : ordered = fields := obj.inj (hEq.symm.trans hObject)
    exact hOrdered
  | number n => rcases value_of_numeral hValue with ⟨k, hk⟩ | ⟨x, hx⟩ <;> contradiction
  | text s =>
    obtain ⟨_, -, hText⟩ := Option.map_eq_some_iff.mp hValue
    cases hText
  | array items =>
    obtain ⟨_, -, hItems⟩ := Option.map_eq_some_iff.mp hValue
    cases hItems
  | null => cases hValue
  | bool b => cases hValue

end Json

namespace Dap.Request
set_option autoImplicit false

/-- The whole numbers that may stand as the number of a request. -/
def IsNumber (n : Int) : Prop := -0x8000000000000000 ≤ n ∧ n ≤ 0x7FFFFFFFFFFFFFFF

instance (n : Int) : Decidable (IsNumber n) := inferInstanceAs (Decidable (_ ∧ _))

/-- The arguments of a message; null stands for none. -/
def given? (message : Json) : Option Json :=
  match message.get? "arguments" with
  | some .null | none => none
  | some arguments => some arguments

/-- The request that a message is, by its fields. -/
def ofMessage? (message : Json) : Option Request :=
  match message.get? "type", message.get? "seq", message.get? "command" with
  | some (.str kind), some (.int seq), some (.str command) =>
    if kind = "request" ∧ IsNumber seq then some { seq, command, arguments := given? message } else none
  | _, _, _ => none

theorem int64_iff {j : Json} {n : Int} : Json.Reading.int64 j = .ok n ↔ j = .int n ∧ IsNumber n := by
  cases j with
  | int m =>
    rw [Json.Reading.int64, Json.Reading.integer]
    split
    · next hRange =>
      constructor
      · intro h
        cases h
        exact ⟨rfl, hRange⟩
      · rintro ⟨h, -⟩
        cases h
        rfl
    · next hRange =>
      refine ⟨nofun, ?_⟩
      rintro ⟨h, hNumber⟩
      cases h
      exact absurd hNumber hRange
  | _ => exact ⟨nofun, fun h => nomatch h.1⟩

theorem text_iff {j : Json} {s : String} : Json.Reading.text j = .ok s ↔ j = .str s := by
  cases j with
  | str t => exact ⟨fun h => by cases h; rfl, fun h => by cases h; rfl⟩
  | _ => exact ⟨nofun, nofun⟩

theorem required_iff {α : Type} {found : Json.Found} {name : String} {read : Json.Reading α} {a : α} :
    found.required name read = .ok a ↔ ∃ j, Json.under name found.given = some j ∧ read j = .ok a := by
  have hValue : found.value? name = Json.under name found.given := rfl
  rw [Json.Found.required, hValue]
  cases Json.under name found.given <;> simp

/-- The fields of a request. -/
def slots : List Json.Slot :=
  [.of "seq" Json.Reading.int64, .of "command" Json.Reading.text, .of "arguments" Json.Reading.any]

theorem seq_mem : Json.Slot.of "seq" Json.Reading.int64 ∈ slots := by simp [slots]

theorem command_mem : Json.Slot.of "command" Json.Reading.text ∈ slots := by simp [slots]

theorem arguments_mem : Json.Slot.of "arguments" Json.Reading.any ∈ slots := by simp [slots]

def build (found : Json.Found) : Except Json.Mismatch Request := do
  return {
    seq := ← found.required "seq" Json.Reading.int64
    command := ← found.required "command" Json.Reading.text
    arguments := ← found.orElse "arguments" (Json.Reading.option Json.Reading.any) none }

theorem read_eq : read = Json.record slots build := rfl

/-- What a request is built of. -/
theorem build_iff {found : Json.Found} {r : Request} :
    build found = .ok r ↔ Json.under "seq" found.given = some (.int r.seq) ∧ IsNumber r.seq ∧
      Json.under "command" found.given = some (.str r.command) ∧
      r.arguments = given? (.obj found.given) := by
  have hGiven : found.orElse "arguments" (Json.Reading.option Json.Reading.any) none = .ok (given? (.obj found.given)) := by
    rw [given?, Json.get?_obj]
    have hValue : found.value? "arguments" = Json.under "arguments" found.given := rfl
    rw [Json.Found.orElse, hValue]
    cases Json.under "arguments" found.given with
    | none => rfl
    | some j => cases j <;> rfl
  rw [build, hGiven]
  constructor
  · intro h
    cases hSeq : found.required "seq" Json.Reading.int64 with
    | error why =>
      rw [hSeq] at h
      cases h
    | ok seq =>
      cases hCommand : found.required "command" Json.Reading.text with
      | error why =>
        rw [hSeq, hCommand] at h
        cases h
      | ok command =>
        rw [hSeq, hCommand] at h
        cases h
        obtain ⟨j, hUnder, hRead⟩ := required_iff.mp hSeq
        obtain ⟨k, hUnder', hRead'⟩ := required_iff.mp hCommand
        obtain ⟨rfl, hNumber⟩ := int64_iff.mp hRead
        obtain rfl := text_iff.mp hRead'
        exact ⟨hUnder, hNumber, hUnder', rfl⟩
  · rintro ⟨hSeq, hNumber, hCommand, hArguments⟩
    rw [required_iff.mpr ⟨_, hSeq, int64_iff.mpr ⟨rfl, hNumber⟩⟩, required_iff.mpr ⟨_, hCommand, text_iff.mpr rfl⟩,
      ← hArguments]
    rfl

theorem given?_known (fields : List (String × Json)) : given? (.obj (Json.known slots fields)) = given? (.obj fields) := by
  have hUnder : Json.under "arguments" (Json.known slots fields) = Json.under "arguments" fields :=
    Json.under_known arguments_mem
  rw [given?, given?, Json.get?_obj, Json.get?_obj, hUnder]

/-- A request is read of an object that says it is one exactly if its fields make one. -/
theorem read_iff {fields : List (String × Json)} (hOrdered : Json.Ordered fields)
    (hKind : Json.under "type" fields = some (.str "request")) (r : Request) :
    read (.obj fields) = .ok r ↔ ofMessage? (.obj fields) = some r := by
  have hPlain : ∀ slot ∈ slots, slot.other = none := by simp [slots, Json.Slot.of]
  have hOnce : (slots.map (·.name)).Nodup := by decide
  have hSeq : Json.under "seq" (Json.known slots fields) = Json.under "seq" fields :=
    Json.under_known seq_mem
  have hCommand : Json.under "command" (Json.known slots fields) = Json.under "command" fields :=
    Json.under_known command_mem
  have hMessage : ofMessage? (.obj fields) = some r ↔ Json.under "seq" fields = some (.int r.seq) ∧ IsNumber r.seq ∧
      Json.under "command" fields = some (.str r.command) ∧ r.arguments = given? (.obj fields) := by
    rw [ofMessage?, Json.get?_obj, Json.get?_obj, Json.get?_obj, hKind]
    constructor
    · intro h
      split at h
      · next seq command hKindEq hSeq hCommand =>
        split at h
        · next hNumber =>
          cases h
          exact ⟨hSeq, hNumber.2, hCommand, rfl⟩
        · cases h
      · cases h
    · rintro ⟨hSeq, hNumber, hCommand, hArguments⟩
      rw [hSeq, hCommand]
      simp only [hNumber, and_self, if_true, ← hArguments]
  rw [read_eq, hMessage]
  constructor
  · intro h
    obtain ⟨-, found, hGiven, -, hBuild⟩ := Json.sound_of_record hPlain hOnce hOrdered.names h
    rwa [build_iff, hGiven, hSeq, hCommand, given?_known] at hBuild
  · intro h
    have hSound : Json.Sound slots fields := by
      rw [Json.sound_iff hOrdered.names]
      intro slot hSlot j hUnder
      simp only [slots, List.mem_cons, List.not_mem_nil, or_false] at hSlot
      rcases hSlot with rfl | rfl | rfl
      · obtain rfl : .int r.seq = j := Option.some.inj (h.1.symm.trans hUnder)
        exact Json.check_of.mpr ⟨r.seq, int64_iff.mpr ⟨rfl, h.2.1⟩⟩
      · obtain rfl : .str r.command = j := Option.some.inj (h.2.2.1.symm.trans hUnder)
        exact Json.check_of.mpr ⟨r.command, rfl⟩
      · exact Json.check_of.mpr ⟨j, rfl⟩
    refine Json.record_of_sound hPlain hOnce hOrdered.names hSound fun found hGiven _ => ?_
    rwa [build_iff, hGiven, hSeq, hCommand, given?_known]

end Dap.Request

namespace Server
set_option autoImplicit false

/-- The request that a text from the client is. -/
def requestIn? (body : String) : Option Dap.Request := (Json.parse? body).bind Dap.Request.ofMessage?

/-- Notes records of the server, and hands over the request that is still to be handed over. -/
inductive Handing : Option Dap.Request → Activity Unit → Prop where
  | note {q : Option Dap.Request} {r : Log.Record} {next : Activity Unit} :
      r.part = .server → Handing q next → Handing q (.note r next)
  | handsOver {q : Dap.Request} {next : Server → Activity Unit} :
      (∀ s, Handing none (next s)) → Handing (some q) (.atomic (dispatch q) next)
  | done : Handing none (.done ())

theorem isRequest_iff (message : Json) :
    isRequest message = true ↔ ∃ fields, message = .obj fields ∧ Json.under "type" fields = some (.str "request") := by
  rw [isRequest, decide_eq_true_eq, Option.bind_eq_some_iff]
  constructor
  · rintro ⟨j, hType, hText⟩
    obtain ⟨fields, rfl⟩ := Json.exists_fields hType
    cases j with
    | str kind =>
      obtain rfl := Option.some.inj hText
      exact ⟨fields, rfl, hType⟩
    | _ => cases hText
  · rintro ⟨fields, rfl, hType⟩
    exact ⟨.str "request", hType, rfl⟩

theorem receiveMessage_handing {message : Json} (hParsed : ∀ fields, message = .obj fields → Json.Ordered fields) :
    Handing (Dap.Request.ofMessage? message) (receiveMessage message) := by
  rw [receiveMessage]
  split
  · next hKind =>
    obtain ⟨fields, rfl, hType⟩ := (isRequest_iff message).mp hKind
    have hRead := Dap.Request.read_iff (hParsed fields rfl) hType
    split
    · next r hOk =>
      rw [(hRead r).mp hOk]
      exact .handsOver fun _ => .done
    · next why hError =>
      cases hMessage : Dap.Request.ofMessage? (.obj fields) with
      | none => exact .note rfl .done
      | some r =>
        rw [(hRead r).mpr hMessage] at hError
        cases hError
  · next hKind =>
    have hNone : Dap.Request.ofMessage? message = none := by
      rw [Dap.Request.ofMessage?]
      split
      · next kind seq command hType _ _ =>
        obtain ⟨fields, rfl⟩ := Json.exists_fields hType
        refine if_neg fun h => hKind ((isRequest_iff _).mpr ⟨fields, rfl, ?_⟩)
        rw [Json.get?_obj, h.1] at hType
        exact hType
      · rfl
    rw [hNone]
    exact .note rfl .done

/-- Of a text the request that it is, and nothing else, is handed over. -/
theorem receiveText_handing (body : String) : Handing (requestIn? body) (receiveText body) := by
  rw [requestIn?]
  refine .note rfl ?_
  cases hParse : Json.parse? body with
  | none =>
    exact .note rfl .done
  | some message =>
    exact receiveMessage_handing fun fields hMessage => Json.ordered_of_parse (hParse.trans (congrArg some hMessage))

end Server
end JvmDebug
