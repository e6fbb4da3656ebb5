import JvmDebug.Jdwp.Event
import JvmDebug.Proofs.Jdwp.Reading

/-!
# Sets of events

A set of events is read off exactly the bytes of its layout. As no event says how long it is, a single field of the
wrong width would shift all that follow; and an event of an unknown kind leaves the rest of the set unreadable.
-/

namespace JvmDebug.Jdwp
set_option autoImplicit false

theorem EventKind.ofByte?_eq_some {b : UInt8} {k : EventKind} : ofByte? b = some k ↔ k.toByte = b := by
  constructor
  · intro h
    simpa using List.find?_some h
  · rintro rfl
    exact ofByte?_toByte k

namespace Happening

/-- Whether there is a layout: the length of a text has four bytes. -/
def IsEncodable : Happening → Prop
  | classPrepare _ _ _ signature _ => (Utf8.encode signature).length < 256 ^ 4
  | _ => True

/-- What is read of an event: an exception whose place has no class and no method is caught nowhere. -/
def normal : Happening → Happening
  | exception thread location thrown caughtAt => exception thread location thrown (caughtAt.filter (!·.isNull))
  | h => h

end Happening

def Event.normal (e : Event) : Event := { e with happening := e.happening.normal }

/-- The sets that there is a layout of: the number of their events is a positive number of four bytes with a sign. -/
structure EventSet.IsEncodable (s : EventSet) : Prop where
  count : s.events.length < 2 ^ 31
  events : ∀ e ∈ s.events, e.happening.IsEncodable

def EventSet.normal (s : EventSet) : EventSet := { s with events := s.events.map Event.normal }

/-- Every event begins with its kind and the number of its request. -/
theorem Event.le_length_layout (e : Event) : 5 ≤ e.layout.length := by
  simp [Event.layout, Layout.i32, Layout.u32, length_bigEndian]

namespace Reader

variable {bytes rest : Bytes} {h : Happening} {kind : EventKind} {e : Event} {s : EventSet}

theorem run_happening_layout (h : Happening) (hEncodable : h.IsEncodable) (rest : Bytes) :
    run (happening h.kind) (h.layout ++ rest) = (.ok h.normal, rest) := by
  cases h with
  | exception thread location thrown caughtAt =>
    simp only [Happening.kind, happening, Happening.layout, Happening.normal, List.append_assoc, run_bind_ok, run_u64_ok,
      run_location_ok, run_taggedObject_ok, run_location?_ok, run_pure_ok]
    refine ⟨_, _, rfl, _, _, rfl, _, _, rfl, _, _, ⟨_, ?_, rfl⟩, rfl, rfl⟩
    cases caughtAt with
    | none => rfl
    | some l => cases hNull : l.isNull <;> simp [Option.filter, hNull]
  | _ => simp_all [Happening.kind, happening, Happening.layout, Happening.normal, Happening.IsEncodable]

theorem layout_of_run_happening (hRun : run (happening kind) bytes = (.ok h, rest)) :
    ∃ raw : Happening, raw.kind = kind ∧ raw.IsEncodable ∧ raw.normal = h ∧ bytes = raw.layout ++ rest := by
  cases kind <;> simp only [happening, run_bind_ok, run_pure_ok, run_u64_ok, run_u8_ok, run_i32_ok, run_string_ok,
    run_location_ok, run_location?_ok, run_taggedObject_ok] at hRun
  case vmDeath =>
    obtain ⟨rfl, rfl⟩ := hRun
    exact ⟨.vmDeath, rfl, trivial, rfl, rfl⟩
  case vmStart | threadStart | threadDeath =>
    refine ⟨h, ?_⟩
    obtain ⟨thread, _, rfl, rfl, rfl⟩ := hRun
    exact ⟨rfl, trivial, rfl, rfl⟩
  case breakpoint | singleStep | methodEntry | methodExit =>
    refine ⟨h, ?_⟩
    obtain ⟨thread, _, rfl, location, _, rfl, rfl, rfl⟩ := hRun
    exact ⟨rfl, trivial, rfl, by simp [Happening.layout]⟩
  case classPrepare =>
    obtain ⟨thread, _, rfl, typeTag, _, rfl, classId, _, rfl, signature, _, ⟨hText, rfl⟩, status, _, rfl, rfl, rfl⟩ := hRun
    exact ⟨.classPrepare thread typeTag classId signature status, rfl, hText, rfl, by simp [Happening.layout]⟩
  case exception =>
    obtain ⟨thread, _, rfl, location, _, rfl, thrown, _, rfl, _, _, ⟨caughtAt, rfl, rfl⟩, rfl, rfl⟩ := hRun
    refine ⟨.exception thread location thrown (some caughtAt), rfl, trivial, ?_, by simp [Happening.layout]⟩
    cases hNull : caughtAt.isNull <;> simp [Happening.normal, Option.filter, hNull]

theorem run_event_ok (bytes : Bytes) (e : Event) (rest : Bytes) :
    run event bytes = (.ok e, rest) ↔
      ∃ raw : Event, raw.happening.IsEncodable ∧ raw.normal = e ∧ bytes = raw.layout ++ rest := by
  simp only [event, run_bind_ok, run_u8_ok, run_i32_ok]
  constructor
  · rintro ⟨code, _, rfl, request, left, rfl, hRun⟩
    split at hRun
    · next kind hKind =>
      obtain ⟨read, _, hHappening, hEq⟩ := run_bind_ok.mp hRun
      obtain ⟨rfl, rfl⟩ := run_pure_ok.mp hEq
      obtain ⟨raw, rfl, hEncodable, rfl, rfl⟩ := layout_of_run_happening hHappening
      obtain rfl := EventKind.ofByte?_eq_some.mp hKind
      exact ⟨⟨request, raw⟩, hEncodable, rfl, by simp [Event.layout, Event.kind]⟩
    · exact (run_fail_ok hRun).elim
  · rintro ⟨raw, hEncodable, rfl, rfl⟩
    refine ⟨raw.kind.toByte, _, rfl, raw.request, _, List.append_assoc .., ?_⟩
    rw [EventKind.ofByte?_toByte]
    exact run_bind_ok.mpr ⟨_, _, run_happening_layout raw.happening hEncodable rest, run_pure_ok.mpr ⟨rfl, rfl⟩⟩

theorem run_eventSet_ok :
    run eventSet bytes = (.ok s, rest) ↔
      ∃ raw : EventSet, raw.IsEncodable ∧ raw.normal = s ∧ bytes = raw.layout ++ rest := by
  simp only [eventSet, run_bind_ok, run_u8_ok, run_pure_ok, run_list_ok run_event_ok]
  constructor
  · rintro ⟨policy, _, rfl, _, _, ⟨events, hCount, hEvents, rfl, rfl⟩, rfl, rfl⟩
    exact ⟨⟨policy, events⟩, ⟨hCount, hEvents⟩, rfl, rfl⟩
  · rintro ⟨⟨policy, events⟩, hEncodable, rfl, rfl⟩
    exact ⟨policy, _, rfl, _, _, ⟨events, hEncodable.count, hEncodable.events, rfl, rfl⟩, rfl, rfl⟩

theorem regular_happening (kind : EventKind) : Regular (happening kind) := by
  cases kind with
  | vmDeath => exact regular_pure _
  | vmStart | threadStart | threadDeath => exact regular_bind (regular_number _ _ _) fun _ => regular_pure _
  | breakpoint | singleStep | methodEntry | methodExit =>
    exact regular_bind (regular_number _ _ _) fun _ => regular_bind regular_location fun _ => regular_pure _
  | classPrepare =>
    exact regular_bind (regular_number _ _ _) fun _ => regular_bind (regular_number _ _ _) fun _ =>
      regular_bind (regular_number _ _ _) fun _ => regular_bind regular_string fun _ =>
        regular_bind (regular_number _ _ _) fun _ => regular_pure _
  | exception =>
    exact regular_bind (regular_number _ _ _) fun _ => regular_bind regular_location fun _ =>
      regular_bind regular_taggedObject fun _ =>
        regular_bind (regular_bind regular_location fun _ => regular_pure _) fun _ => regular_pure _

theorem regular_event : Regular event := by
  refine regular_bind (regular_number _ _ _) fun kind => regular_bind (regular_number _ _ _) fun _ => ?_
  split
  · exact regular_bind (regular_happening _) fun _ => regular_pure _
  · exact regular_fail _

theorem plain_event : Plain event := regular_event.plain

theorem plain_eventSet : Plain eventSet :=
  (regular_bind (regular_number _ _ _) fun _ => regular_bind (regular_list regular_event) fun _ => regular_pure _).plain

/-- Why an event is not read that begins with an unsupported kind. -/
def rejection (kind : UInt8) (tail : Bytes) : Malformed :=
  if tail.length < 4 then .tooShort "i32" 4 tail.length else .unsupportedEvent kind

theorem run_event_unsupported {code : UInt8} (h : EventKind.ofByte? code = none) (tail : Bytes) :
    ∃ left, run event (code :: tail) = (.error (.malformed (rejection code tail)), left) := by
  rw [event, run_bind, run_u8_ok.mpr rfl]
  simp only [run_bind, rejection]
  by_cases hShort : tail.length < 4
  · have hTake : run i32 tail = (.error (.malformed (.tooShort "i32" 4 tail.length)), tail) := by
      rw [i32, run_bind, run_take_short hShort]
    rw [hTake, if_pos hShort]
    exact ⟨_, rfl⟩
  · have hTake : ∃ request left, run i32 tail = (.ok request, left) := by
      refine ⟨_, tail.drop 4, run_bind_ok.mpr ⟨tail.take 4, _, run_take_ok.mpr ⟨?_, ?_⟩, run_pure_ok.mpr ⟨rfl, rfl⟩⟩⟩
      · exact (List.take_append_drop 4 tail).symm
      · rw [List.length_take]
        omega
    obtain ⟨request, left, hTake⟩ := hTake
    rw [hTake, if_neg hShort]
    simp only [h]
    exact ⟨left, rfl⟩

theorem length_of_run_event (bytes : Bytes) (e : Event) (rest : Bytes) (h : run event bytes = (.ok e, rest)) :
    rest.length + 5 ≤ bytes.length := by
  obtain ⟨raw, -, -, rfl⟩ := (run_event_ok ..).mp h
  have hLayout := raw.le_length_layout
  rw [List.length_append]
  omega

theorem le_length_events (events : List Event) : 5 * events.length ≤ (events.flatMap Event.layout).length := by
  induction events with
  | nil => simp
  | cons e events ih =>
    have hLayout := e.le_length_layout
    rw [List.flatMap_cons, List.length_append, List.length_cons]
    omega

theorem value_eventSet_error {policy : UInt8} {n : Nat} {body left : Bytes} {e : Error} (hCount : n < 2 ^ 31)
    (h : run (times event n) body = (.error e, left)) : value eventSet (policy :: (Layout.count n ++ body)) = .error e := by
  rw [value, eventSet, run_bind, run_u8_ok.mpr rfl]
  simp only [list, run_bind, run_count_ok.mpr ⟨hCount, rfl⟩, h]

end Reader

/-- What a reader of sets of events should make of bytes. -/
structure EventSet.ReadBy (r : Reader EventSet) : Prop where
  /-- A set is read off its layout, whatever follows, and nothing else is read. -/
  layout : ∀ bytes s rest, r.run bytes = (.ok s, rest) ↔
    ∃ raw : EventSet, raw.IsEncodable ∧ raw.normal = s ∧ bytes = raw.layout ++ rest
  cut : ∀ (s : EventSet) (front : Bytes), s.IsEncodable → front <+: s.layout → front ≠ s.layout →
    ∃ why, r.value front = .error (.malformed why)
  negative : ∀ (policy : UInt8) (n : Int32) (rest : Bytes), n < 0 →
    r.value (policy :: (Layout.i32 n ++ rest)) = .error (.malformed (.negativeCount n))
  /-- A kind that is not known has the set refused, whatever events stand before it. -/
  unsupported : ∀ (policy : UInt8) (n : Nat) (before : List Event) (kind : UInt8) (tail : Bytes), n < 2 ^ 31 →
    before.length < n → (∀ e ∈ before, e.happening.IsEncodable) → EventKind.ofByte? kind = none →
    r.value (policy :: (Layout.count n ++ (before.flatMap Event.layout ++ kind :: tail))) =
      .error (.malformed (Reader.rejection kind tail))
  /-- There is always an answer, and a set has no more events than its bytes have room for. -/
  answer : ∀ bytes, (∃ s, r.value bytes = .ok s ∧ 5 + 5 * s.events.length ≤ bytes.length) ∨
    ∃ why, r.value bytes = .error (.malformed why)
  /-- A number of events that the bytes have no room for is refused, in the same way whatever number it is. -/
  announced : ∀ (policy : UInt8) (body : Bytes), ∃ why, ∀ n, n < 2 ^ 31 → body.length < 5 * n →
    r.value (policy :: (Layout.count n ++ body)) = .error (.malformed why)

namespace Reader

theorem eventSet_read : EventSet.ReadBy eventSet where
  layout _ _ _ := run_eventSet_ok
  cut s front hEncodable hPrefix hNe := by
    obtain ⟨others, hOthers⟩ := hPrefix
    cases hValue : value eventSet front with
    | error e =>
      obtain ⟨why, rfl⟩ := plain_eventSet front e hValue
      exact ⟨why, rfl⟩
    | ok read =>
      -- What is read of the front is read of the whole as well, which would leave the other bytes.
      have hFront : run eventSet front = (.ok read, (run eventSet front).2) := Prod.ext hValue rfl
      obtain ⟨raw, hRaw, hNormal, hLayout⟩ := run_eventSet_ok.mp hFront
      have hWhole : run eventSet s.layout = (.ok raw.normal, (run eventSet front).2 ++ others) :=
        run_eventSet_ok.mpr ⟨raw, hRaw, rfl, by rw [← hOthers, ← List.append_assoc, ← hLayout]⟩
      have hAll : run eventSet s.layout = (.ok s.normal, []) :=
        run_eventSet_ok.mpr ⟨s, hEncodable, rfl, (List.append_nil _).symm⟩
      have hNone := (List.append_eq_nil_iff.mp (congrArg Prod.snd (hWhole.symm.trans hAll))).2
      rw [hNone, List.append_nil] at hOthers
      exact (hNe hOthers).elim
  negative policy n rest hSign := by
    rw [value, eventSet, run_bind, run_u8_ok.mpr rfl]
    simp only [list, run_bind, run_count_negative hSign]
  unsupported policy n before kind tail hCount hLess hBefore hKind := by
    obtain ⟨left, hError⟩ := run_event_unsupported hKind tail
    have hRead : run (times event before.length) (before.flatMap Event.layout ++ kind :: tail) =
        (.ok (before.map Event.normal), kind :: tail) :=
      (run_times_ok run_event_ok).mpr ⟨before, rfl, hBefore, rfl, rfl⟩
    exact value_eventSet_error hCount (run_times_error hLess hRead hError)
  answer bytes := by
    cases hValue : value eventSet bytes with
    | error e =>
      obtain ⟨why, rfl⟩ := plain_eventSet bytes e hValue
      exact .inr ⟨why, rfl⟩
    | ok s =>
      obtain ⟨raw, -, rfl, hLayout⟩ := run_eventSet_ok.mp (Prod.ext hValue rfl : run eventSet bytes = (.ok s, _))
      have hEvents := le_length_events raw.events
      refine .inl ⟨_, rfl, ?_⟩
      rw [hLayout]
      simp only [EventSet.normal, EventSet.layout, Layout.list, Layout.count, List.length_map, List.length_append,
        List.length_cons, length_bigEndian]
      omega
  announced policy body := by
    have hRoom : body.length < 5 * (body.length / 5 + 1) := by omega
    cases hRun : run (times event (body.length / 5 + 1)) body with
    | mk outcome left =>
      cases outcome with
      | error e =>
        obtain ⟨why, rfl⟩ := plain_times plain_event _ body e (congrArg Prod.fst hRun)
        refine ⟨why, fun n hCount hLong => ?_⟩
        have hSame := run_times_of_long length_of_run_event hLong hRoom
        exact value_eventSet_error hCount (hSame.trans hRun)
      | ok events =>
        obtain ⟨raw, hLength, -, -, rfl⟩ := (run_times_ok run_event_ok).mp hRun
        have hEvents := le_length_events raw
        rw [List.length_append] at hLength hRoom
        omega

/-- A place with neither class nor method is none, and what stands behind the set is left there. -/
example :
    run eventSet ((⟨1, [⟨17, .exception 0x10 ⟨1, 0x20, 0x30, 4⟩ ⟨76, 0x40⟩ (some ⟨1, 0, 0, 9⟩)⟩]⟩ : EventSet).layout ++ [7]) =
      (.ok ⟨1, [⟨17, .exception 0x10 ⟨1, 0x20, 0x30, 4⟩ ⟨76, 0x40⟩ none⟩]⟩, [7]) := by
  decide +kernel

end Reader
end JvmDebug.Jdwp
