import JvmDebug.Proofs.Debuggee.Finding
import JvmDebug.Proofs.Debuggee.Looking
import JvmDebug.Proofs.Jdwp.Reading

/-!
# What is kept about classes

A machine tells the same about a class whenever it is asked, whatever else it tells may change from one time to the
next. So nobody can see from what a look comes to whether it went by what was kept or asked anew, and what a machine has
told about a class it is never asked again.
-/

namespace JvmDebug.Debuggee
set_option autoImplicit false

open Jdwp (ClassId FieldId ObjectId ThreadId Query)

/-! ## Machines that change -/

/-- How a machine replies to a command where it stands, and where it stands then. -/
abbrev Responding (M : Type) := M → Jdwp.Command → Except Jdwp.Error Jdwp.Reply × M

/-- A command that was sent, with the reply to it. -/
abbrev Exchanged := Jdwp.Command × Except Jdwp.Error Jdwp.Reply

/-- The question for the class of all exceptions. -/
abbrev throwable := Query.classesBySignature throwableSignature

/-- The questions about classes: what each class is like, and which class is the one of all exceptions. -/
inductive OfClasses : Jdwp.Command → Prop where
  | trait (t : Trait) (c : ClassId) : OfClasses (t.query c).command
  | throwable : OfClasses throwable.command

variable {α β ε M : Type}

/-- The machine replies to questions about classes always in the same way, and stays where it stands. -/
def Constant (respond : Responding M) : Prop := ∀ c, OfClasses c → ∃ reply, ∀ m, respond m c = (reply, m)

def answerBy (respond : Responding M) : (c : Call) → StateM (M × List Exchanged) (Answer c)
  | .command c => fun (m, asked) => ((respond m c).1, (respond m c).2, asked ++ [(c, (respond m c).1)])
  | .publish _ => pure ()
  | .exitCode => pure none
  | .kill => pure (.ok ())

/-- What work comes to that need not wait, what the debuggee is then, and what has been asked by then. -/
def perform (respond : Responding M) (r : Activity α) (d : Debuggee) (m : M) (asked : List Exchanged) :
    Option α × Debuggee × List Exchanged :=
  let ((left, d'), _, asked') := (r.advance (answerBy respond) (fun _ d => d) d).run (m, asked)
  (left.result?, d', asked')

/-! ## Looks -/

inductive Look where
  | stackTrace (thread : ThreadId)
  | expand (reference : VariableRef)
  | evaluate (frame : FrameRef) (expression : String)
  | completions (frame : FrameRef) (text : String)
  | describe (exception : ObjectId) (caught : Bool)

namespace Look

abbrev Seen : Look → Type
  | stackTrace _ => Except Error (List StackFrame)
  | expand _ => Except Error (List Variable)
  | evaluate .. => Except Error (Option Variable)
  | completions .. => Except Error (List Completion)
  | describe .. => Except Error Thrown

def work : (l : Look) → Activity l.Seen
  | stackTrace thread => serve (.stackTrace thread)
  | expand reference => serve (.expand reference)
  | evaluate frame expression => serve (.evaluate frame expression)
  | completions frame text => serve (.completions frame text)
  | describe exception caught => (describeException exception caught).run

end Look

/-- The debuggee after some looks, each at the machine where it stood then, and what has been asked by then. -/
def afterLooks (respond : Responding M) (d : Debuggee) (past : List (Look × M)) : Debuggee × List Exchanged :=
  past.foldl (fun (d, asked) (l, m) => (perform respond l.work d m asked).2) (d, [])

/-! ## Questions about classes -/

theorem Trait.query_inj {t t' : Trait} {c c' : ClassId} (h : (t.query c).command = (t'.query c').command) :
    t = t' ∧ c = c' := by
  have hClass : Jdwp.Layout.u64 c = Jdwp.Layout.u64 c' → c = c' := fun hSame =>
    (Jdwp.Reader.append_inj_of_run Jdwp.Reader.run_u64_ok (congrArg (· ++ []) hSame)).1
  cases t <;> cases t' <;> simp_all [Trait.query, Query.signature, Query.methods, Query.fields, Query.of]

theorem Trait.isOfClasses_query (t : Trait) (c : ClassId) : (t.query c).command.isOfClasses = true := by
  cases t <;> rfl

@[simp] theorem Trait.known_keep (t : Trait) (all : List (ClassId × t.Told)) (types : TypeCache) :
    t.known (t.keep all types) = all := by
  cases t <;> rfl

theorem Trait.known_keep_of_ne {t t' : Trait} (h : t' ≠ t) (all : List (ClassId × t.Told)) (types : TypeCache) :
    t'.known (t.keep all types) = t'.known types := by
  cases t <;> cases t' <;> first | rfl | exact absurd rfl h

/-! ## What is remembered -/

/-- What a machine answers where it stands. -/
def tells (respond : Responding M) (m : M) (q : Query α) : Except Jdwp.Error α := (respond m q.command).1 >>= q.answer

theorem Constant.stays {respond : Responding M} (h : Constant respond) {c : Jdwp.Command} (hClasses : OfClasses c)
    (m : M) : (respond m c).2 = m := by
  obtain ⟨_, hReply⟩ := h c hClasses
  rw [hReply]

theorem Constant.tells_eq {respond : Responding M} (h : Constant respond) {q : Query α} (hClasses : OfClasses q.command)
    (m m' : M) : tells respond m q = tells respond m' q := by
  obtain ⟨_, hReply⟩ := h q.command hClasses
  rw [tells, tells, hReply, hReply]

/-- The field that holds the message of an exception, as a machine tells it. -/
def tellsDetail (respond : Responding M) (m : M) : Except Error (Option FieldId) := do
  match ← (tells respond m throwable).mapError Error.ofJdwp with
  | [] => return none
  | c :: _ => do
    let fields ← (tells respond m (Query.fields c.id)).mapError Error.ofJdwp
    return (fields.find? (·.name = detailName)).map (·.id)

theorem Constant.tellsDetail_eq {respond : Responding M} (h : Constant respond) (m m' : M) :
    tellsDetail respond m = tellsDetail respond m' := by
  have hFields : ∀ c, tells respond m (Query.fields c) = tells respond m' (Query.fields c) := fun c =>
    h.tells_eq (OfClasses.trait .fields c) m m'
  unfold tellsDetail
  rw [h.tells_eq .throwable m m']
  simp only [hFields]

/-- The question was put, and answered. -/
def IsAnswered (q : Query α) (x : Exchanged) : Prop := x.1 = q.command ∧ ∃ a, x.2 >>= q.answer = .ok a

/-- What is kept has been told, what has been told is kept, and nothing was asked again after that. Nothing else about the
debuggee has changed. -/
structure Remembers (respond : Responding M) (base d : Debuggee) (asked : List Exchanged) : Prop where
  same : ∃ types detailField, d = { base with types, detailField }
  told : ∀ t c a, (c, a) ∈ Trait.known t d.types → ∀ m, tells respond m (t.query c) = .ok a
  detail : ∀ field, d.detailField = some field → ∀ m, tellsDetail respond m = .ok (some field)
  knows : ∀ t c, ∀ x ∈ asked, IsAnswered (Trait.query t c) x → (lookup c (t.known d.types)).isSome
  once : ∀ t c, asked.Pairwise fun x y => IsAnswered (Trait.query t c) x → y.1 ≠ (t.query c).command

section Remembering

variable {respond : Responding M} {base d : Debuggee} {asked : List Exchanged} {t : Trait} {c : ClassId} {m : M}
  {x : Exchanged}

theorem remembers_nothing (hTypes : d.types = {}) (hDetail : d.detailField = none) : Remembers respond d d [] where
  same := ⟨d.types, d.detailField, rfl⟩
  told t c a hMem := by
    rw [hTypes] at hMem
    cases t <;> cases hMem
  detail field hField := by
    rw [hDetail] at hField
    cases hField
  knows _ _ _ hMem := nomatch hMem
  once _ _ := .nil

/-- Something is asked that has not been answered yet. -/
theorem Remembers.once_snoc (h : Remembers respond base d asked)
    (hNew : ∀ t c, x.1 = (Trait.query t c).command → lookup c (t.known d.types) = none) (t : Trait) (c : ClassId) :
    (asked ++ [x]).Pairwise fun x y => IsAnswered (t.query c) x → y.1 ≠ (t.query c).command := by
  refine List.pairwise_append.mpr ⟨h.once t c, List.pairwise_singleton .., fun y hy x' hx' hSettled hCommand => ?_⟩
  obtain rfl := List.mem_singleton.mp hx'
  have hKnown := h.knows t c y hy hSettled
  rw [hNew t c hCommand] at hKnown
  cases hKnown

theorem Remembers.asks (h : Remembers respond base d asked)
    (hNew : ∀ t c, x.1 = (Trait.query t c).command → lookup c (t.known d.types) = none ∧ ¬IsAnswered (t.query c) x) :
    Remembers respond base d (asked ++ [x]) where
  same := h.same
  told := h.told
  detail := h.detail
  knows t c y hy hSettled := by
    rcases List.mem_append.mp hy with hy | hy
    · exact h.knows t c y hy hSettled
    · obtain rfl := List.mem_singleton.mp hy
      exact absurd hSettled (hNew t c hSettled.1).2
  once := h.once_snoc fun t c hCommand => (hNew t c hCommand).1

theorem Remembers.asks_other (h : Remembers respond base d asked)
    (hOther : x.1.isOfClasses = false ∨ x.1 = throwable.command) : Remembers respond base d (asked ++ [x]) := by
  refine h.asks fun t c hCommand => ?_
  rw [hCommand] at hOther
  rcases hOther with hOther | hThrowable
  · rw [t.isOfClasses_query] at hOther
    cases hOther
  · cases t <;> cases hThrowable

theorem Remembers.refused {e : Jdwp.Error} (h : Remembers respond base d asked)
    (hNew : lookup c (t.known d.types) = none) (hCommand : x.1 = (t.query c).command)
    (hRefused : x.2 >>= (t.query c).answer = .error e) : Remembers respond base d (asked ++ [x]) := by
  refine h.asks fun t' c' hCommand' => ?_
  obtain ⟨rfl, rfl⟩ := Trait.query_inj (hCommand.symm.trans hCommand')
  refine ⟨hNew, ?_⟩
  rintro ⟨-, a, hAnswer⟩
  rw [hRefused] at hAnswer
  cases hAnswer

theorem lookup_cons (c c' : ClassId) (a : α) (known : List (ClassId × α)) :
    lookup c' ((c, a) :: known) = if c = c' then some a else lookup c' known := by
  unfold lookup
  rw [List.find?_cons]
  split <;> simp_all

theorem Remembers.learns {a : t.Told} (h : Remembers respond base d asked) (hNew : lookup c (t.known d.types) = none)
    (hTold : ∀ m, tells respond m (t.query c) = .ok a) (hCommand : x.1 = (t.query c).command) :
    Remembers respond base { d with types := t.keep ((c, a) :: t.known d.types) d.types } (asked ++ [x]) where
  same := by
    obtain ⟨types, detailField, rfl⟩ := h.same
    exact ⟨_, detailField, rfl⟩
  told t' c' a' hMem := by
    by_cases hSame : t' = t
    · subst hSame
      rw [Trait.known_keep] at hMem
      rcases List.mem_cons.mp hMem with hFirst | hRest
      · cases hFirst
        exact hTold
      · exact h.told _ c' a' hRest
    · rw [Trait.known_keep_of_ne hSame] at hMem
      exact h.told t' c' a' hMem
  detail := h.detail
  knows t' c' y hy hAnswered := by
    -- What was known is known still.
    have hMore : (lookup c' (t'.known d.types)).isSome →
        (lookup c' (t'.known (t.keep ((c, a) :: t.known d.types) d.types))).isSome := by
      intro hKnown
      by_cases hSame : t' = t
      · subst hSame
        rw [Trait.known_keep, lookup_cons]
        split
        · rfl
        · exact hKnown
      · rwa [Trait.known_keep_of_ne hSame]
    rcases List.mem_append.mp hy with hy | hy
    · exact hMore (h.knows t' c' y hy hAnswered)
    · obtain rfl := List.mem_singleton.mp hy
      obtain ⟨rfl, rfl⟩ := Trait.query_inj (hCommand.symm.trans hAnswered.1)
      rw [Trait.known_keep, lookup_cons, if_pos rfl]
      rfl
  once := by
    refine h.once_snoc fun t' c' hCommand' => ?_
    obtain ⟨rfl, rfl⟩ := Trait.query_inj (hCommand.symm.trans hCommand')
    exact hNew

theorem Remembers.finds {field : FieldId} (h : Remembers respond base d asked)
    (hTold : ∀ m, tellsDetail respond m = .ok (some field)) :
    Remembers respond base { d with detailField := some field } asked where
  same := by
    obtain ⟨types, detailField, rfl⟩ := h.same
    exact ⟨types, _, rfl⟩
  told := h.told
  detail := by
    rintro _ ⟨⟩
    exact hTold
  knows := h.knows
  once := h.once

end Remembering

/-! ## What looks come to -/

/-- The answers of the machine, and the list of what has been asked. -/
def answering (respond : Responding M) : Answering World (M × List Exchanged) :=
  fun w c a w' => (answerBy respond c).run w = (a, w')

/-- Work comes to the same from whatever is remembered; it depends on nothing but where the machine stands. -/
def Steady (respond : Responding M) (base : Debuggee) (r : Activity α) : Prop :=
  ∃ f : M → α × M, ∀ d m asked, Remembers respond base d asked →
    Routine.Ensures (answering respond) (fun a d' w => (a, w.1) = f m ∧ Remembers respond base d' w.2) r d (m, asked)

section Steadiness

variable {respond : Responding M} {base d : Debuggee} {asked : List Exchanged} {m : M}

theorem Steady.bind {r : Activity α} {k : α → Activity β} (h : Steady respond base r)
    (hNext : ∀ a, Steady respond base (k a)) : Steady respond base (r >>= k) := by
  obtain ⟨f, hFirst⟩ := h
  choose g hRest using hNext
  refine ⟨fun m => g (f m).1 (f m).2, fun d m asked hRemembers => ?_⟩
  refine Routine.Ensures.bind (Routine.Ensures.mono ?_ (hFirst d m asked hRemembers))
  rintro a d' ⟨m', asked'⟩ ⟨hSame, hRemembers'⟩
  dsimp only at hSame ⊢
  rw [← hSame]
  exact hRest a d' m' asked' hRemembers'

theorem ensures_query {q : Query α} {post : Except Jdwp.Error α → Debuggee → M × List Exchanged → Prop}
    (h : post (tells respond m q) d ((respond m q.command).2, asked ++ [(q.command, (respond m q.command).1)])) :
    Routine.Ensures (answering respond) post (query q).run d (m, asked) := by
  rintro _ _ ⟨⟩
  exact h

theorem steady_query {q : Query α} (hOther : q.command.isOfClasses = false) : Steady respond base (query q).run :=
  ⟨fun m => (tells respond m q, (respond m q.command).2), fun _ _ _ hRemembers =>
    ensures_query ⟨rfl, hRemembers.asks_other (.inl hOther)⟩⟩

/-- What is learnt of a class is what the machine tells of it, and leaves the machine where it stands. -/
theorem ensures_learn (hConstant : Constant respond) (t : Trait) (c : ClassId)
    (hRemembers : Remembers respond base d asked) :
    Routine.Ensures (answering respond)
      (fun a d' w => a = tells respond m (t.query c) ∧ w.1 = m ∧ Remembers respond base d' w.2)
      (t.learn c).run d (m, asked) := by
  have hClasses : OfClasses (t.query c).command := .trait t c
  refine Attempt.ensures_get ?_
  split
  · next a hKnown => exact ⟨(hRemembers.told t c a (mem_of_lookup hKnown) m).symm, rfl, hRemembers⟩
  · next hNew =>
    refine Attempt.ensures_bind (ensures_query ?_)
    cases hAnswer : tells respond m (t.query c) with
    | error e => exact ⟨rfl, hConstant.stays hClasses m, hRemembers.refused hNew rfl hAnswer⟩
    | ok a =>
      refine Attempt.ensures_modify ⟨rfl, hConstant.stays hClasses m, hRemembers.learns hNew (fun m' => ?_) rfl⟩
      rw [hConstant.tells_eq hClasses m' m, hAnswer]

theorem ensures_detailField? (hConstant : Constant respond) (hRemembers : Remembers respond base d asked) :
    Routine.Ensures (answering respond)
      (fun a d' w => a = tellsDetail respond m ∧ w.1 = m ∧ Remembers respond base d' w.2)
      detailField?.run d (m, asked) := by
  refine Attempt.ensures_get ?_
  split
  · next field hField => exact ⟨(hRemembers.detail field hField m).symm, rfl, hRemembers⟩
  · refine Attempt.ensures_bind (Attempt.ensures_mapError (ensures_query ?_))
    have hRemembers' : Remembers respond base d (asked ++ [(throwable.command, (respond m throwable.command).1)]) :=
      hRemembers.asks_other (.inr rfl)
    have hStays := hConstant.stays .throwable m
    cases hFound : tells respond m throwable with
    | error e => exact ⟨by rw [tellsDetail, hFound]; rfl, hStays, hRemembers'⟩
    | ok found =>
      cases found with
      | nil => exact ⟨by rw [tellsDetail, hFound]; rfl, hStays, hRemembers'⟩
      | cons c rest =>
        rw [hStays]
        refine Attempt.ensures_bind (Attempt.ensures_mapError ?_)
        refine Routine.Ensures.mono ?_ (ensures_learn hConstant .fields c.id hRemembers')
        rintro fields d' ⟨m', asked'⟩ ⟨hFields, hSame, hRemembers'⟩
        have hDetail : tellsDetail respond m =
            (fields.mapError Error.ofJdwp).map fun fields => (fields.find? (·.name = detailName)).map (·.id) := by
          rw [tellsDetail, hFound, hFields]
          rfl
        cases fields with
        | error e => exact ⟨hDetail.symm, hSame, hRemembers'⟩
        | ok fields =>
          dsimp only [Except.mapError, Except.map] at hDetail ⊢
          generalize (fields.find? (·.name = detailName)).map (·.id) = field at hDetail ⊢
          cases field with
          | none => exact ⟨hDetail.symm, hSame, hRemembers'⟩
          | some field =>
            refine Attempt.ensures_modify ⟨hDetail.symm, hSame, hRemembers'.finds fun m'' => ?_⟩
            rw [hConstant.tellsDetail_eq m'' m, hDetail]

/-- Whoever looks sees nothing of what is remembered. -/
theorem Inspects.steady (hConstant : Constant respond) {r : Activity α} (h : Inspects r) : Steady respond base r := by
  induction h with
  | done a => exact ⟨fun m => (a, m), fun d m asked hRemembers => ⟨rfl, hRemembers⟩⟩
  | query _ hOther => exact steady_query hOther
  | learn t c =>
    refine ⟨fun m => (tells respond m (t.query c), m), fun d m asked hRemembers => ?_⟩
    refine Routine.Ensures.mono ?_ (ensures_learn hConstant t c hRemembers)
    rintro a d' ⟨_, asked'⟩ ⟨rfl, rfl, hRemembers'⟩
    exact ⟨rfl, hRemembers'⟩
  | detailField? =>
    refine ⟨fun m => (tellsDetail respond m, m), fun d m asked hRemembers => ?_⟩
    refine Routine.Ensures.mono ?_ (ensures_detailField? hConstant hRemembers)
    rintro a d' ⟨_, asked'⟩ ⟨rfl, rfl, hRemembers'⟩
    exact ⟨rfl, hRemembers'⟩
  | sources _ ih =>
    obtain ⟨f, hNext⟩ := ih base.placer
    refine ⟨f, fun d m asked hRemembers => ?_⟩
    obtain ⟨types, detailField, rfl⟩ := hRemembers.same
    exact hNext _ m asked hRemembers
  | note _ _ ih => exact ih
  | bind _ _ ih ihNext => exact ih.bind ihNext

theorem Look.inspects : (l : Look) → Inspects l.work
  | .stackTrace thread => (inspects_stackTrace thread).map _
  | .expand reference => (inspects_expand reference).map _
  | .evaluate frame expression => (inspects_evaluate frame expression).map _
  | .completions frame text => (inspects_completions frame text).map _
  | .describe exception caught => inspects_describeException exception caught

theorem Steady.perform {r : Activity α} (h : Steady respond base r) :
    ∃ f : M → α, ∀ d m asked, Remembers respond base d asked → (perform respond r d m asked).1 = some (f m) ∧
      Remembers respond base (perform respond r d m asked).2.1 (perform respond r d m asked).2.2 := by
  obtain ⟨f, hSteady⟩ := h
  refine ⟨fun m => (f m).1, fun d m asked hRemembers => ?_⟩
  obtain ⟨a, d', ⟨m', asked'⟩, hRun, hSame, hRemembers'⟩ := (hSteady d m asked hRemembers).advance
  have hResult : (some a : Option α) = some (f m).1 := congrArg (fun x => some x.1) hSame
  unfold Debuggee.perform
  rw [hRun]
  exact ⟨hResult, hRemembers'⟩

theorem afterLooks_remembers (hConstant : Constant respond) (hTypes : d.types = {}) (hDetail : d.detailField = none)
    (past : List (Look × M)) : Remembers respond d (afterLooks respond d past).1 (afterLooks respond d past).2 := by
  refine List.foldlRecOn past _ (motive := fun (d', asked) => Remembers respond d d' asked) ?_ ?_
  · exact remembers_nothing hTypes hDetail
  · rintro ⟨d', asked⟩ hRemembers ⟨l, m⟩ -
    have hSteady : Steady respond d l.work := l.inspects.steady hConstant
    obtain ⟨_, hSteady⟩ := hSteady.perform
    exact (hSteady d' m asked hRemembers).2

/-- Of a machine that always tells the same about classes one sees what one would see if nothing had been kept, whatever
was looked at before and however the machine has changed since; and what it has once told about a class it is not asked
again. -/
theorem looks_see_nothing_kept (hConstant : Constant respond) (hTypes : d.types = {}) (hDetail : d.detailField = none)
    (past : List (Look × M)) (l : Look) (m : M) :
    (∃ seen, (perform respond l.work (afterLooks respond d past).1 m (afterLooks respond d past).2).1 = some seen ∧
      (perform respond l.work d m []).1 = some seen) ∧
    ∀ (t : Trait) c, (afterLooks respond d past).2.Pairwise fun x y =>
      IsAnswered (t.query c) x → y.1 ≠ (t.query c).command := by
  have hPast := afterLooks_remembers hConstant hTypes hDetail past
  have hSteady : Steady respond d l.work := l.inspects.steady hConstant
  obtain ⟨f, hSteady⟩ := hSteady.perform
  exact ⟨⟨f m, (hSteady _ m _ hPast).1, (hSteady d m [] (remembers_nothing hTypes hDetail)).1⟩, hPast.once⟩

end Steadiness

section Oops

open Jdwp (Layout.count Layout.u64 Layout.i32 Layout.string)

/-- A machine on which the message of an exception changes. -/
def oopsReply (late : Bool) (c : Jdwp.Command) : Except Jdwp.Error Jdwp.Reply :=
  match c.set, c.number with
  | 1, 2 => .ok ⟨1, 0, Layout.count 1 ++ [1] ++ Layout.u64 9 ++ Layout.i32 7⟩
  | 2, 1 => .ok ⟨1, 0, Layout.string "LOops;"⟩
  | 2, 4 => .ok ⟨1, 0, Layout.count 1 ++ Layout.u64 3 ++ Layout.string detailName ++ Layout.string "LText;" ++ Layout.i32 0⟩
  | 9, 1 => .ok ⟨1, 0, [1] ++ Layout.u64 7⟩
  | 9, 2 => .ok ⟨1, 0, Layout.count 1 ++ [115] ++ Layout.u64 6⟩
  | 10, 1 => .ok ⟨1, 0, Layout.string (if late then "late" else "early")⟩
  | _, _ => .error .closed

def oopsRespond : Responding Bool := fun late c => (oopsReply late c, late)

theorem oops_constant : Constant oopsRespond := by
  have hLate : ∀ c, OfClasses c → oopsReply true c = oopsReply false c := by
    rintro _ (⟨t, c⟩ | _)
    · cases t <;> rfl
    · rfl
  intro c hClasses
  exact ⟨oopsReply false c, Bool.rec rfl (congrArg (·, true) (hLate c hClasses))⟩

def oopsDebuggee : Debuggee := { origin := .attached, book := {}, placer := { index := {}, root := ⟨""⟩ } }

def oopsOnce : Debuggee × List Exchanged := afterLooks oopsRespond oopsDebuggee [(.describe 5 true, false)]

theorem message_of_oops_is_seen_anew :
    Constant oopsRespond ∧
    (perform oopsRespond (Look.describe 5 true).work oopsOnce.1 true oopsOnce.2).1 =
      some (.ok ⟨"Oops", some "late", "Oops", "Oops", true⟩) ∧
    (perform oopsRespond (Look.describe 5 true).work oopsDebuggee true []).1 =
      some (.ok ⟨"Oops", some "late", "Oops", "Oops", true⟩) ∧
    ∀ (t : Trait) c, oopsOnce.2.Pairwise fun x y => IsAnswered (t.query c) x → y.1 ≠ (t.query c).command := by
  obtain ⟨⟨seen, hKept, hBare⟩, hOnce⟩ :=
    looks_see_nothing_kept oops_constant (d := oopsDebuggee) rfl rfl [(.describe 5 true, false)] (.describe 5 true) true
  have hSeen : (perform oopsRespond (Look.describe 5 true).work oopsOnce.1 true oopsOnce.2).1 =
      some (.ok ⟨"Oops", some "late", "Oops", "Oops", true⟩) := by decide +kernel
  exact ⟨oops_constant, hSeen, hBare.trans (hKept.symm.trans hSeen), hOnce⟩

-- The name of the class and where its messages are is asked the first time only.
example : (afterLooks oopsRespond oopsDebuggee [(.describe 5 true, false), (.describe 5 true, true)]).2.map
    (fun x => (x.1.set, x.1.number)) =
      [(9, 1), (2, 1), (1, 2), (2, 4), (9, 2), (10, 1), (9, 1), (9, 2), (10, 1)] := by
  decide +kernel

end Oops

end JvmDebug.Debuggee
