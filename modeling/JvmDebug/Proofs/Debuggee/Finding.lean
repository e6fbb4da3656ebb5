import JvmDebug.Debuggee.Inspect
import JvmDebug.Proofs.Routine.Phases

/-!
# What is found out about a machine

Whoever looks at a stopped machine asks it, or goes by what it has told before. Of the debuggee nothing is counted on
but that the machine has told what is known about its classes, so that others may look at the machine meanwhile.

What is shown of a value follows from the value, the type that it was declared with, and what the machine tells of the
object that it refers to. Values are shown in their order, each under its own name.
-/

namespace JvmDebug.Debuggee
set_option autoImplicit false

open Jdwp (ClassId Query)

/-- How a machine may reply to each command. -/
abbrev Replying := Jdwp.Command → Except Jdwp.Error Jdwp.Reply → Prop

variable {α β ε : Type} {replied : Replying}

/-- What a query may come to. -/
def Answered (replied : Replying) (q : Query α) (a : Except Jdwp.Error α) : Prop :=
  ∃ reply, replied q.command reply ∧ reply >>= q.answer = a

/-- All that is known of classes has been told when this was asked of them. -/
def AllTold (replied : Replying) (q : ClassId → Query α) (known : List (ClassId × α)) : Prop :=
  ∀ c a, (c, a) ∈ known → Answered replied (q c) (.ok a)

theorem AllTold.cons {q : ClassId → Query α} {known : List (ClassId × α)} {c : ClassId} {a : α}
    (hTold : Answered replied (q c) (.ok a)) (h : AllTold replied q known) : AllTold replied q ((c, a) :: known) := by
  intro c' a' hMem
  cases hMem with
  | head => exact hTold
  | tail _ hOld => exact h c' a' hOld

/-- The machine has told what is known about classes. -/
structure Learnt (replied : Replying) (d : Debuggee) : Prop where
  signatures : AllTold replied Query.signature d.types.signatures
  methods : AllTold replied Query.methods d.types.methods
  fields : AllTold replied Query.fields d.types.fields

theorem learnt_of_unlearnt {d : Debuggee} (h : d.types = {}) : Learnt replied d := by
  constructor <;> rw [h] <;> exact nofun

/-- To look at a machine that replies like this. It never means waiting for anyone but the machine. -/
def finding (replied : Replying) : Phases Unit Debuggee World where
  fits _ d := Learnt replied d
  moves _ _ _ d' _ := Learnt replied d'
  waits _ := False
  answered
    | .command c, reply => replied c reply
    | .publish _, _ | .exitCode, _ | .kill, _ => True
  keep _ d := d

/-- Work that comes to an end, and to what `found` says, whatever the machine replies and whoever else works at the
debuggee meanwhile. -/
def Finds (replied : Replying) (found : Except ε α → Prop) (w : Attempt ε Debuggee World α) : Prop :=
  w.run.Passes (finding replied) (fun a _ => found a) ()

variable {found found' : Except ε α → Prop} {w : Attempt ε Debuggee World α}

theorem Finds.mono (hFound : ∀ a, found a → found' a) (h : Finds replied found w) : Finds replied found' w :=
  Routine.Passes.mono (fun a _ => hFound a) h

theorem finds_pure {a : α} (h : found (.ok a)) : Finds replied found (pure a) := h

theorem finds_throw {e : ε} (h : found (.error e)) : Finds replied found (throw e) := h

theorem Finds.bind {found : Except ε β → Prop} {first : Except ε α → Prop} {k : α → Attempt ε Debuggee World β}
    (h : Finds replied first w) (hNext : ∀ a, first (.ok a) → Finds replied found (k a))
    (hFails : ∀ e, first (.error e) → found (.error e)) : Finds replied found (w >>= k) := by
  refine Attempt.passes_bind (Routine.Passes.mono ?_ h)
  rintro (e | a) _ ha
  · exact hFails e ha
  · exact hNext a ha

theorem Finds.of_bind {found : Except ε β → Prop} {k : α → Attempt ε Debuggee World β}
    (h : Finds replied found (w >>= k)) :
    Finds replied (Attempt.andThen (fun a => Finds replied found (k a)) fun e => found (.error e)) w :=
  Attempt.of_passes_bind h

/-- After what cannot fail. -/
theorem finds_after {found : Except ε β → Prop} (first : α → Prop) {r : Activity α} {k : α → Attempt ε Debuggee World β}
    (h : r.Passes (finding replied) (fun a _ => first a) ()) (hNext : ∀ a, first a → Finds replied found (k a)) :
    Finds replied found (ExceptT.lift r >>= k) :=
  Attempt.passes_bind (Attempt.passes_lift (h.mono fun a _ ha => hNext a ha))

theorem finds_after_note {found : Except ε α → Prop} {level : Log.Level} {part : Log.Part} {text : String}
    {k : Unit → Attempt ε Debuggee World α} (h : Finds replied found (k ())) :
    Finds replied found (ExceptT.lift (Routine.log level part text) >>= k) :=
  finds_after (fun _ => True) (fun _ hLearnt => ⟨(), hLearnt, trivial⟩) fun _ _ => h

/-- After what may fail with an error of the connection. -/
theorem finds_after_exchange {found : Except Error β → Prop} {told : Except Jdwp.Error α → Prop} {x : Exchange α}
    {k : α → Work β} (h : Finds replied told x) (hNext : ∀ a, told (.ok a) → Finds replied found (k a))
    (hFails : ∀ e, told (.error e) → found (.error (Error.ofJdwp e))) : Finds replied found (exchange x >>= k) := by
  have hExchange : Finds replied (fun a => ∃ answer, told answer ∧ a = answer.mapError Error.ofJdwp) (exchange x) :=
    Routine.Passes.map (Routine.Passes.mono (fun a _ ha => ⟨a, ha, rfl⟩) h)
  refine hExchange.bind ?_ ?_
  · rintro a ⟨_ | b, hTold, hSame⟩ <;> cases hSame
    exact hNext a hTold
  · rintro e ⟨e' | b, hTold, hSame⟩ <;> cases hSame
    exact hFails e' hTold

/-! ## Asking -/

section Asking

variable {q : Query α}

theorem finds_query {found : Except Jdwp.Error α → Prop} (h : ∀ a, Answered replied q a → found a) :
    Finds replied found (query q) :=
  fun _ hLearnt reply hReplied => ⟨(), hLearnt, h _ ⟨reply, hReplied, rfl⟩⟩

theorem finds_after_ask {found : Except Error β → Prop} {k : α → Work β}
    (hNext : ∀ a, Answered replied q (.ok a) → Finds replied found (k a))
    (hFails : ∀ e, Answered replied q (.error e) → found (.error (Error.ofJdwp e))) :
    Finds replied found (ask q >>= k) :=
  finds_after_exchange (finds_query fun _ hTold => hTold) hNext hFails

end Asking

/-! ## What is known about classes -/

/-- What is answered from a cache has been told, if the cache is one of what has been told. -/
theorem finds_cached {known : TypeCache → List (ClassId × α)} {keep : List (ClassId × α) → TypeCache → TypeCache}
    {q : ClassId → Query α} (hKnown : ∀ d, Learnt replied d → AllTold replied q (known d.types))
    (hKeep : ∀ d all, Learnt replied d → AllTold replied q all → Learnt replied { d with types := keep all d.types })
    (c : ClassId) : Finds replied (Answered replied (q c)) (cached known keep c (q c)) := by
  refine finds_after (Learnt replied) (fun _ hLearnt => ⟨(), hLearnt, hLearnt⟩) fun d hLearnt => ?_
  split
  · next a hFound => exact finds_pure (hKnown d hLearnt c a (mem_of_lookup hFound))
  have hAsk : Finds replied (Answered replied (q c)) (query (q c)) := finds_query fun a hTold => hTold
  refine hAsk.bind (fun a hTold => ?_) fun e hTold => hTold
  refine finds_after (fun _ => True) (fun d hLearnt => ?_) fun _ _ => finds_pure hTold
  exact ⟨(), hKeep d _ hLearnt (.cons hTold (hKnown d hLearnt)), trivial⟩

theorem finds_signature (c : ClassId) : Finds replied (Answered replied (Query.signature c)) (signature c) :=
  finds_cached (fun _ => Learnt.signatures) (fun _ _ hLearnt hAll => { hLearnt with signatures := hAll }) c

theorem finds_fields (c : ClassId) : Finds replied (Answered replied (Query.fields c)) (fields c) :=
  finds_cached (fun _ => Learnt.fields) (fun _ _ hLearnt hAll => { hLearnt with fields := hAll }) c

/-! ## A machine that stands still -/

section Still

variable {reply : Jdwp.Command → Except Jdwp.Error Jdwp.Reply} {q : Query α}

/-- A machine that replies to a command in the same way each time. -/
def still (reply : Jdwp.Command → Except Jdwp.Error Jdwp.Reply) : Replying := fun c a => a = reply c

/-- What it answers a query. -/
def told (reply : Jdwp.Command → Except Jdwp.Error Jdwp.Reply) (q : Query α) : Except Jdwp.Error α :=
  reply q.command >>= q.answer

theorem answered_still {a : Except Jdwp.Error α} : Answered (still reply) q a ↔ a = told reply q := by
  constructor
  · rintro ⟨_, rfl, rfl⟩
    rfl
  · rintro rfl
    exact ⟨_, rfl, rfl⟩

theorem Answered.only {a : Except Jdwp.Error α} {answer : α} (hTold : Answered (still reply) q a)
    (h : told reply q = .ok answer) : a = .ok answer :=
  (answered_still.mp hTold).trans h

/-- What work comes to on such a machine, if it comes to an end, for someone who knows nothing of it yet. -/
def outcome? (reply : Jdwp.Command → Except Jdwp.Error Jdwp.Reply) (w : Attempt ε Debuggee World α) :
    Option (Except ε α) :=
  let answer : (c : Call) → Answer c
    | .command c => reply c
    | .publish _ => ()
    | .exitCode => none
    | .kill => .ok ()
  let newcomer : Debuggee := { origin := .attached, book := {}, placer := { index := {}, root := ⟨""⟩ } }
  (Routine.advance (m := Id) answer (fun _ d => d) w.run newcomer).1.result?

/-- What such a machine does about a call. Nothing else happens. -/
def answerStill (reply : Jdwp.Command → Except Jdwp.Error Jdwp.Reply) : (c : Call) → Answer c
  | .command c => reply c
  | .publish _ => ()
  | .exitCode => none
  | .kill => .ok ()

/-- What always comes to something comes to it there, whatever has been learnt of the machine by then. -/
theorem comes_of_passes {r : Activity α} {found : α → Prop} {d : Debuggee}
    (h : r.Passes (finding (still reply)) (fun a _ => found a) ()) (hLearnt : Learnt (still reply) d) :
    ∃ a d', Routine.advance (m := Id) (answerStill reply) (fun _ d => d) r d = (.done a, d') ∧ found a ∧
      Learnt (still reply) d' := by
  have hAnswered : ∀ c, (finding (still reply)).answered c (answerStill reply c) := by
    intro c
    cases c <;> first | exact rfl | exact trivial
  induction r generalizing d with
  | done a => exact ⟨a, d, rfl, h, hLearnt⟩
  | atomic change next ih =>
    obtain ⟨⟨⟩, hLearnt', hNext⟩ := h d hLearnt
    exact ih d hNext hLearnt'
  | wait _ _ _ _ _ => exact h.1.elim
  | call c next ih =>
    obtain ⟨⟨⟩, -, hNext⟩ := h d hLearnt (answerStill reply c) (hAnswered c)
    exact ih (answerStill reply c) hNext hLearnt
  | note _ next ih =>
    obtain ⟨⟨⟩, -, hNext⟩ := h d hLearnt
    exact ih hNext hLearnt

/-- Work that always comes to something comes to it there. -/
theorem Finds.comes (h : Finds (still reply) found w) : ∃ a, outcome? reply w = some a ∧ found a := by
  have hLearnt : Learnt (still reply) { origin := .attached, book := {}, placer := { index := {}, root := ⟨""⟩ } } :=
    learnt_of_unlearnt rfl
  obtain ⟨a, _, hRun, ha, -⟩ := comes_of_passes h hLearnt
  exact ⟨a, congrArg (·.1.result?) hRun, ha⟩

end Still

/-! ## How values are shown -/

section Rendering

open Attempt (andThen)
open Jdwp (ClassId ObjectId ThreadId Query Value ReferenceKind)
open Jdwp.Signature (typeName)

variable {thread : ThreadId} {name : String} {declared : Option String} {v : Value}
  {x : Variable}

/-- A value under a name, as it is shown where the machine replies like this. -/
inductive Shows (replied : Replying) (thread : ThreadId) (name : String) (declared : Option String) :
    Value → Variable → Prop where
  | primitive {v : Value} : v.tag.isPrimitive = true → Shows replied thread name declared v
      ⟨name, v.text, some (typeName (String.ofList [v.tag.letter])), none⟩
  | void : Shows replied thread name declared .void ⟨name, "void", declared.map typeName, none⟩
  | null (kind : ReferenceKind) : Shows replied thread name declared (.reference kind 0)
      ⟨name, "null", declared.map typeName, none⟩
  | string {object : ObjectId} {text : String} : object ≠ 0 → Answered replied (Query.stringValue object) (.ok text) →
      Shows replied thread name declared (.reference .string object)
        ⟨name, "\"" ++ text ++ "\"", some "java.lang.String", none⟩
  | array {object : ObjectId} {c : ClassId} {s : String} {length : Int32} : object ≠ 0 →
      Answered replied (Query.classOf object) (.ok c) → Answered replied (Query.signature c) (.ok s) →
      Answered replied (Query.arrayLength object) (.ok length) →
      Shows replied thread name declared (.reference .array object)
        ⟨name, arrayText (typeName s) length, some (typeName s),
          if 0 < length then some (.array thread object length) else none⟩
  | object {kind : ReferenceKind} {object : ObjectId} {c : ClassId} {s : String} : object ≠ 0 → kind ≠ .string →
      kind ≠ .array → Answered replied (Query.classOf object) (.ok c) → Answered replied (Query.signature c) (.ok s) →
      Shows replied thread name declared (.reference kind object)
        ⟨name, s!"{simpleName (typeName s)} (id={object})", some (typeName s), some (.object thread object)⟩

theorem Shows.name_eq (h : Shows replied thread name declared v x) : x.name = name := by
  cases h <;> rfl

/-- The machine does not refuse a query. -/
def Willing (replied : Replying) (q : Query α) : Prop := ∀ e, ¬Answered replied q (.error e)

theorem willing_still {reply : Jdwp.Command → Except Jdwp.Error Jdwp.Reply} {q : Query α} {answer : α}
    (h : told reply q = .ok answer) : Willing (still reply) q := fun e hRefused => by
  cases hRefused.only h

/-- The machine tells what has to be known of an object to show it. -/
structure Introduces (replied : Replying) (kind : ReferenceKind) (object : ObjectId) : Prop where
  text : kind = .string → Willing replied (Query.stringValue object)
  classOf : kind ≠ .string → Willing replied (Query.classOf object)
  signature : kind ≠ .string → ∀ c, Answered replied (Query.classOf object) (.ok c) →
    Willing replied (Query.signature c)
  length : kind = .array → Willing replied (Query.arrayLength object)

/-- The machine tells what has to be known of a value to show it. -/
def Renderable (replied : Replying) (v : Value) : Prop :=
  ∀ kind object, v = .reference kind object → object ≠ 0 → Introduces replied kind object

theorem renderObject_of_other {kind : ReferenceKind} (hString : kind ≠ .string) (hArray : kind ≠ .array)
    (object : ObjectId) : renderObject thread name kind object = (do
      let c ← ask (Query.classOf object)
      let typeName := typeName (← exchange (signature c))
      return ⟨name, s!"{simpleName typeName} (id={object})", some typeName, some (.object thread object)⟩) := by
  cases kind <;> first | exact absurd rfl hString | exact absurd rfl hArray | rfl

theorem finds_renderObject (declared : Option String) (kind : ReferenceKind) {object : ObjectId}
    (hObject : object ≠ 0) : Finds replied (andThen (Shows replied thread name declared (.reference kind object))
      fun _ => ¬Introduces replied kind object) (renderObject thread name kind object) := by
  by_cases hString : kind = .string
  · subst hString
    refine finds_after_ask (fun text hText => ?_) fun e hRefused hTells => hTells.text rfl e hRefused
    exact finds_pure (.string hObject hText)
  by_cases hArray : kind = .array
  · subst hArray
    refine finds_after_ask (fun c hClass => ?_) fun e hRefused hTells => hTells.classOf nofun e hRefused
    refine finds_after_exchange (finds_signature c) (fun s hSignature => ?_) fun e hRefused hTells => ?_
    · refine finds_after_ask (fun length hLength => ?_) fun e hRefused hTells => hTells.length rfl e hRefused
      exact finds_pure (.array hObject hClass hSignature hLength)
    · exact hTells.signature nofun c hClass e hRefused
  rw [renderObject_of_other hString hArray]
  refine finds_after_ask (fun c hClass => ?_) fun e hRefused hTells => hTells.classOf hString e hRefused
  refine finds_after_exchange (finds_signature c) (fun s hSignature => ?_) fun e hRefused hTells => ?_
  · exact finds_pure (.object hObject hString hArray hClass hSignature)
  · exact hTells.signature hString c hClass e hRefused

theorem finds_renderValue (name : String) (declared : Option String) (v : Value) :
    Finds replied (andThen (Shows replied thread name declared v) fun _ => ¬Renderable replied v)
      (renderValue thread name declared v) := by
  cases v with
  | reference kind object =>
    unfold renderValue
    dsimp only
    split
    · next hNull =>
      subst hNull
      exact finds_pure (.null kind)
    · next hObject =>
      refine (finds_renderObject declared kind hObject).mono ?_
      rintro (e | x) h
      · exact fun hTells => h (hTells kind object rfl hObject)
      · exact h
  | void => exact finds_pure .void
  | _ => exact finds_pure (.primitive rfl)

/-- Values under their names, as they are shown in their order. -/
abbrev ShowsAll (replied : Replying) (thread : ThreadId) :
    List (String × Option String × Value) → List Variable → Prop :=
  List.Forall₂ fun v x => Shows replied thread v.1 v.2.1 v.2.2 x

theorem finds_renderAll (values : List (String × Option String × Value)) :
    Finds replied (andThen (ShowsAll replied thread values) fun _ => ¬∀ v ∈ values, Renderable replied v.2.2)
      (renderAll thread values) := by
  induction values with
  | nil => exact finds_pure .nil
  | cons v rest ih =>
    obtain ⟨name, declared, value⟩ := v
    refine (finds_renderValue name declared value).bind (fun x hx => ?_) fun e hFails hAll => ?_
    · refine ih.bind (fun xs hxs => finds_pure (.cons hx hxs)) fun e hFails hAll => hFails fun v hv => ?_
      exact hAll v (by simp [hv])
    · exact hFails (hAll (name, declared, value) (by simp))

theorem ShowsAll.names {values : List (String × Option String × Value)} {xs : List Variable}
    (h : ShowsAll replied thread values xs) : xs.map (·.name) = values.map (·.1) := by
  induction h with
  | nil => rfl
  | cons hFirst _ ih => simp [hFirst.name_eq, ih]

end Rendering

end JvmDebug.Debuggee
