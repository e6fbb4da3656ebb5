import JvmDebug.Jdwp.Query
import JvmDebug.Proofs.Jdwp.Reading

/-!
# Requests are told apart

The body of a request is a list of modifiers of different lengths, with nothing between them. A machine that reads it by
the layout gets back the kind, the policy and the modifiers, each as it was; so two requests have the same body only if
they are the same.
-/

namespace JvmDebug.Jdwp
set_option autoImplicit false

namespace Modifier

/-- Whether there is a layout: the length of a text has four bytes. -/
def IsEncodable : Modifier → Prop
  | classMatch pattern | classExclude pattern => Layout.IsEncodable pattern
  | _ => True

def pattern? : Modifier → Option String
  | classMatch pattern | classExclude pattern => some pattern
  | _ => none

def location? : Modifier → Option Location
  | locationOnly location => some location
  | _ => none

end Modifier

/-- The policy of a request, by its byte. -/
def SuspendPolicy.ofByte? : UInt8 → Option SuspendPolicy
  | 0 => some none
  | 1 => some eventThread
  | 2 => some all
  | _ => Option.none

theorem SuspendPolicy.ofByte?_toByte (p : SuspendPolicy) : ofByte? p.toByte = some p := by cases p <;> rfl

namespace EventRequest

/-- The requests that there is a layout of: the number of their modifiers is a positive number of four bytes with a sign. -/
structure IsEncodable (r : EventRequest) : Prop where
  count : r.modifiers.length < 2 ^ 31
  modifiers : ∀ m ∈ r.modifiers, m.IsEncodable

/-- Where the modifier begins that comes behind these: behind the kind, the policy and the number of modifiers. -/
def placeAfter (before : List Modifier) : Nat := 6 + (before.flatMap Modifier.layout).length

/-- What the bodies tell that are made of requests, and a reader that makes requests of them again. -/
structure ToldBy (body : EventRequest → Bytes) (reader : Reader EventRequest) : Prop where
  apart : ∀ r r' : EventRequest, r.IsEncodable → r'.IsEncodable → body r = body r' → r = r'
  back : ∀ (r : EventRequest) (rest : Bytes), r.IsEncodable → reader.run (body r ++ rest) = (.ok r, rest)
  /-- Behind the byte for its kind, a modifier with a pattern has the text of it. -/
  pattern : ∀ (r : EventRequest) (before after : List Modifier) (m : Modifier) (pattern : String) (rest : Bytes),
    r.IsEncodable → r.modifiers = before ++ m :: after → m.pattern? = some pattern →
    Reader.string.run ((body r ++ rest).drop (placeAfter before + 1)) =
      (.ok pattern, after.flatMap Modifier.layout ++ rest)
  location : ∀ (r : EventRequest) (before after : List Modifier) (m : Modifier) (location : Location) (rest : Bytes),
    r.modifiers = before ++ m :: after → m.location? = some location →
    Reader.location.run ((body r ++ rest).drop (placeAfter before + 1)) =
      (.ok location, after.flatMap Modifier.layout ++ rest)

theorem drop_layout {r : EventRequest} {before after : List Modifier} (h : r.modifiers = before ++ after) (rest : Bytes) :
    (r.layout ++ rest).drop (placeAfter before) = after.flatMap Modifier.layout ++ rest := by
  have hLength : (r.kind :: r.policy.toByte :: (Layout.count r.modifiers.length ++ before.flatMap Modifier.layout)).length =
      placeAfter before := by
    simp only [placeAfter, Layout.count, List.length_cons, List.length_append, length_bigEndian]
    omega
  have hSplit : r.layout ++ rest = (r.kind :: r.policy.toByte ::
      (Layout.count r.modifiers.length ++ before.flatMap Modifier.layout)) ++ (after.flatMap Modifier.layout ++ rest) := by
    simp [layout, Layout.list, h]
  rw [hSplit, ← hLength, List.drop_left]

end EventRequest

namespace Reader

/-- How a machine reads a modifier. -/
def modifier : Reader Modifier := do
  match ← u8 with
  | 1 => return .count (← i32)
  | 3 => return .threadOnly (← u64)
  | 4 => return .classOnly (← u64)
  | 5 => return .classMatch (← string)
  | 6 => return .classExclude (← string)
  | 7 => return .locationOnly (← location)
  | 8 => return .exceptionOnly (← u64) ((← u8) ≠ 0) ((← u8) ≠ 0)
  | 10 => return .step (← u64) (← i32) (← i32)
  | kind => fail (.other s!"Unknown modifier kind: {kind}")

/-- How a machine reads what it is asked to tell about. -/
def eventRequest : Reader EventRequest := do
  let kind ← u8
  match SuspendPolicy.ofByte? (← u8) with
  | some policy => return { kind, policy, modifiers := ← list modifier }
  | none => fail (.other "Unknown suspend policy")

theorem readsBack_modifier : ReadsBack modifier Modifier.layout Modifier.IsEncodable := by
  intro m rest hEncodable
  cases m with
  | exceptionOnly classId caught uncaught =>
    cases caught <;> cases uncaught <;> simp [modifier, Modifier.layout, Layout.flag]
  | classMatch pattern | classExclude pattern =>
    simpa [modifier, Modifier.layout, Modifier.IsEncodable, Layout.IsEncodable] using hEncodable
  | _ => simp [modifier, Modifier.layout]

theorem readsBack_eventRequest : ReadsBack eventRequest EventRequest.layout EventRequest.IsEncodable := by
  rintro ⟨kind, policy, modifiers⟩ rest ⟨hCount, hModifiers⟩
  refine run_bind_ok.mpr ⟨kind, _, run_u8_ok.mpr rfl, run_bind_ok.mpr ⟨policy.toByte, _, run_u8_ok.mpr rfl, ?_⟩⟩
  rw [SuspendPolicy.ofByte?_toByte]
  exact run_bind_ok.mpr ⟨modifiers, rest, readsBack_modifier.list modifiers rest ⟨hCount, hModifiers⟩, rfl⟩

theorem requests_told_apart : EventRequest.ToldBy (fun r => (Query.setRequest r).command.body) eventRequest where
  apart _ _ hEncodable hEncodable' := readsBack_eventRequest.injective hEncodable hEncodable'
  back r rest hEncodable := readsBack_eventRequest r rest hEncodable
  pattern r before after m pattern rest hEncodable hModifiers hPattern := by
    have hText : m.layout = m.layout.headD 0 :: Layout.string pattern ∧ Layout.IsEncodable pattern := by
      have hProper := hEncodable.modifiers m (hModifiers ▸ by simp)
      cases m with
      | classMatch p | classExclude p =>
        obtain rfl : p = pattern := Option.some.inj hPattern
        exact ⟨rfl, hProper⟩
      | _ => cases hPattern
    change Reader.string.run ((r.layout ++ rest).drop _) = _
    rw [← List.drop_drop, EventRequest.drop_layout hModifiers, List.flatMap_cons, hText.1]
    exact run_string_ok.mpr ⟨hText.2, List.append_assoc ..⟩
  location r before after m location rest hModifiers hLocation := by
    have hPlace : m.layout = m.layout.headD 0 :: location.layout := by
      cases m with
      | locationOnly l =>
        obtain rfl : l = location := Option.some.inj hLocation
        rfl
      | _ => cases hLocation
    change Reader.location.run ((r.layout ++ rest).drop _) = _
    rw [← List.drop_drop, EventRequest.drop_layout hModifiers, List.flatMap_cons, hPlace]
    exact run_location_ok.mpr (List.append_assoc ..)

/-- Nothing marks where the pattern ends and the next modifier begins. -/
example :
    run eventRequest [8, 2, 0, 0, 0, 2, 6, 0, 0, 0, 3, 97, 46, 42, 1, 0, 0, 0, 9, 7] =
      (.ok ⟨8, .all, [.classExclude "a.*", .count 9]⟩, [7]) := by
  decide +kernel

end Reader
end JvmDebug.Jdwp
