import JvmDebug.Session.Requests

/-!
# The handles in messages

Which frames and which references a message tells the client, read off the message as it is sent.
-/

namespace JvmDebug
set_option autoImplicit false

namespace Json

theorem find?_insertField (name other : String) (value : Json) (fields : List (String × Json)) :
    ((insertField name value fields).find? (·.1 == other)).map (·.2) =
      if name = other then some value else (fields.find? (·.1 == other)).map (·.2) := by
  induction fields with
  | nil => by_cases h : name = other <;> simp [insertField, h]
  | cons f rest ih =>
    obtain ⟨n, v⟩ := f
    rw [insertField]
    split
    · by_cases h : name = other <;> simp [h]
    · split
      next hSame =>
        subst hSame
        by_cases h : n = other <;> simp [h]
      next hNe =>
        by_cases h : n = other
        · have hOther : name ≠ other := fun hEq => hNe (h.trans hEq.symm)
          simp [h, hOther]
        · simpa [h] using ih

/-- Of several fields of one name the last one counts. -/
theorem get?_object (name : String) (fields : List (String × Json)) :
    (object fields).get? name = fields.foldl (fun found f => if f.1 = name then some f.2 else found) none := by
  have hFold : ∀ ordered : List (String × Json),
      ((fields.foldl (fun ordered f => insertField f.1 f.2 ordered) ordered).find? (·.1 == name)).map (·.2) =
        fields.foldl (fun found f => if f.1 = name then some f.2 else found)
          ((ordered.find? (·.1 == name)).map (·.2)) := by
    induction fields with
    | nil => exact fun _ => rfl
    | cons f rest ih =>
      intro ordered
      rw [List.foldl_cons, List.foldl_cons, ih, find?_insertField]
  exact hFold []

theorem get?_object_of_absent {name : String} {fields : List (String × Json)} (h : ∀ f ∈ fields, f.1 ≠ name) :
    (object fields).get? name = none := by
  rw [get?_object]
  induction fields with
  | nil => rfl
  | cons f rest ih =>
    rw [List.foldl_cons, if_neg (h f (by simp))]
    exact ih fun x hx => h x (by simp [hx])

/-- The whole number under a name. -/
def intAt? (name : String) (j : Json) : Option Int :=
  match j.get? name with
  | some (.int n) => some n
  | _ => none

/-- The text under a name. -/
def textAt? (name : String) (j : Json) : Option String :=
  match j.get? name with
  | some (.str text) => some text
  | _ => none

/-- The items of the list under a name. -/
def itemsAt (name : String) (j : Json) : List Json :=
  match j.get? name with
  | some (.arr items) => items
  | _ => []

end Json

namespace Dap

/-- The ids of frames in the body of a response. -/
def frameIds (body : Json) : List Int := (body.itemsAt "stackFrames").filterMap (·.intAt? "id")

/-- The references in the body of a response; 0 stands for none. -/
def references (body : Json) : List Int :=
  (((body.itemsAt "scopes" ++ body.itemsAt "variables").filterMap (·.intAt? "variablesReference")) ++
    (body.intAt? "variablesReference").toList).filter (· ≠ 0)

namespace Outgoing

def isEvent : Outgoing → Prop
  | response _ => False
  | event _ => True

def frameIds : Outgoing → List Int
  | response r => (r.body.map Dap.frameIds).getD []
  | event _ => []

def references : Outgoing → List Int
  | response r => (r.body.map Dap.references).getD []
  | event _ => []

/-- A message that tells no handles. -/
def tellsNone (m : Outgoing) : Prop := m.frameIds = [] ∧ m.references = []

theorem tellsNone_of_event {m : Outgoing} (h : m.isEvent) : m.tellsNone := by
  cases m with
  | response _ => exact h.elim
  | event _ => exact ⟨rfl, rfl⟩

end Outgoing

/-- The fields in which handles are told. -/
def handleFields : List String := ["stackFrames", "scopes", "variables", "variablesReference"]

/-- A body that tells no handles. -/
def Handless (body : Json) : Prop := frameIds body = [] ∧ references body = []

theorem handless_object {fields : List (String × Json)} (h : ∀ f ∈ fields, f.1 ∉ handleFields) :
    Handless (Json.object fields) := by
  have hNone : ∀ name ∈ handleFields, (Json.object fields).get? name = none := fun name hName =>
    Json.get?_object_of_absent fun f hf hEq => h f hf (hEq ▸ hName)
  simp only [handleFields, List.mem_cons, List.not_mem_nil, or_false, forall_eq_or_imp, forall_eq] at hNone
  obtain ⟨hFrames, hScopes, hVariables, hReference⟩ := hNone
  constructor
  · simp [frameIds, Json.itemsAt, hFrames]
  · simp [references, Json.itemsAt, Json.intAt?, hScopes, hVariables, hReference]

theorem handless_listBody {name : String} {items : List Json} (h : name ∉ handleFields) :
    Handless (listBody name items) :=
  handless_object (by simpa using h)

theorem intAt?_frame_json (f : FrameView) : f.json.intAt? "id" = some f.id := by
  cases hSource : f.source <;>
    simp [FrameView.json, Json.intAt?, Json.get?_object, Json.optional, hSource]

theorem intAt?_scope_json (s : ScopeView) : s.json.intAt? "variablesReference" = some s.reference := by
  simp [ScopeView.json, Json.intAt?, Json.get?_object]

theorem intAt?_variable_json (v : VariableView) : v.json.intAt? "variablesReference" = some v.reference := by
  cases hType : v.type <;>
    simp [VariableView.json, Json.intAt?, Json.get?_object, Json.optional, hType]

theorem textAt?_scope_json (s : ScopeView) : s.json.textAt? "name" = some s.name := by
  simp [ScopeView.json, Json.textAt?, Json.get?_object]

theorem textAt?_variable_json (v : VariableView) : v.json.textAt? "name" = some v.name ∧
    v.json.textAt? "value" = some v.value ∧ v.json.textAt? "type" = v.type := by
  cases hType : v.type <;>
    simp [VariableView.json, Json.textAt?, Json.get?_object, Json.optional, hType]

theorem textAt?_evaluated (v : VariableView) : (evaluated v).textAt? "result" = some v.value ∧
    (evaluated v).textAt? "type" = v.type ∧ (evaluated v).intAt? "variablesReference" = some v.reference := by
  cases hType : v.type <;> simp [evaluated, Json.textAt?, Json.intAt?, Json.get?_object, hType]

theorem itemsAt_listBody (name : String) (items : List Json) : (listBody name items).itemsAt name = items := by
  simp [listBody, Json.itemsAt, Json.get?_object]

theorem filterMap_json {α : Type} {json : α → Json} {number : α → Int} {name : String}
    (h : ∀ a, (json a).intAt? name = some (number a)) (items : List α) :
    (items.map json).filterMap (·.intAt? name) = items.map number := by
  have hSome : (fun x : Json => x.intAt? name) ∘ json = some ∘ number := funext h
  rw [List.filterMap_map, hSome, List.filterMap_eq_map]

/-- A list of things that may have references, and no reference beside it. -/
theorem references_of_items {α : Type} {body : Json} {json : α → Json} {number : α → Int} {items : List α}
    (hItems : body.itemsAt "scopes" ++ body.itemsAt "variables" = items.map json)
    (hNone : body.intAt? "variablesReference" = none)
    (h : ∀ a, (json a).intAt? "variablesReference" = some (number a)) :
    references body = (items.map number).filter (· ≠ 0) := by
  rw [references, hItems, hNone, filterMap_json h, Option.toList_none, List.append_nil]

theorem handles_stackTrace (shown : List FrameView) (total : Int) :
    let body := Json.object [("stackFrames", .arr (shown.map (·.json))), ("totalFrames", .int total)]
    frameIds body = shown.map (·.id) ∧ references body = [] := by
  intro body
  have hItems : body.itemsAt "stackFrames" = shown.map (·.json) := by
    simp [body, Json.itemsAt, Json.get?_object]
  refine ⟨?_, ?_⟩
  · rw [frameIds, hItems, filterMap_json intAt?_frame_json]
  · simp [body, references, Json.itemsAt, Json.intAt?, Json.get?_object]

theorem handles_scopes (shown : List ScopeView) :
    let body := listBody "scopes" (shown.map (·.json))
    frameIds body = [] ∧ references body = (shown.map (·.reference)).filter (· ≠ 0) := by
  intro body
  refine ⟨?_, references_of_items ?_ ?_ intAt?_scope_json⟩
  all_goals simp [body, listBody, frameIds, Json.itemsAt, Json.intAt?, Json.get?_object]

theorem handles_variables (shown : List VariableView) :
    let body := listBody "variables" (shown.map (·.json))
    frameIds body = [] ∧ references body = (shown.map (·.reference)).filter (· ≠ 0) := by
  intro body
  refine ⟨?_, references_of_items ?_ ?_ intAt?_variable_json⟩
  all_goals simp [body, listBody, frameIds, Json.itemsAt, Json.intAt?, Json.get?_object]

theorem handles_evaluated (v : VariableView) :
    frameIds (evaluated v) = [] ∧ references (evaluated v) = [v.reference].filter (· ≠ 0) := by
  simp [evaluated, frameIds, references, Json.itemsAt, Json.intAt?, Json.get?_object]

end Dap
end JvmDebug
