import JvmDebug.Proofs.Routine.Bounds

/-!
# How far a routine has come

What a worker has done in its job is a way from the beginning of the job to what is left of it, whatever the others did
meanwhile. A way through two routines one after the other is a way through the first, and then one through the second.
-/

namespace JvmDebug
set_option autoImplicit false

variable {S T M : Type} {I : Interface} {α β : Type}

namespace Routine

/-- By these steps of its own a routine comes from its beginning to what is left of it. -/
inductive Advances (answers : Answering I M) (keep : Log.Record → S → S) (r : Routine S I α) :
    List (Doing S I) → Routine S I α → Prop where
  | nil : Advances answers keep r [] r
  | snoc {did : List (Doing S I)} {r' r'' : Routine S I α} {asked : Option (Asked I)} {s s' : S} {m m' : M} :
      Advances answers keep r did r' → r'.Step answers keep s m asked r'' s' m' →
      Advances answers keep r (did ++ [⟨asked, s, s'⟩]) r''

/-- A routine comes to its end by these steps. -/
def Performs (answers : Answering I M) (keep : Log.Record → S → S) (r : Routine S I α) (did : List (Doing S I)) (a : α) :
    Prop :=
  r.Advances answers keep did (.done a)

variable {answers : Answering I M} {keep : Log.Record → S → S} {r r' : Routine S I α} {did : List (Doing S I)} {a : α}
  {b : β}

/-- The first step, and the way from there. -/
theorem Advances.first (h : r.Advances answers keep did r') :
    (did = [] ∧ r' = r) ∨ ∃ asked s s' m m' r₁ rest, r.Step answers keep s m asked r₁ s' m' ∧
      did = ⟨asked, s, s'⟩ :: rest ∧ r₁.Advances answers keep rest r' := by
  induction h with
  | nil => exact .inl ⟨rfl, rfl⟩
  | snoc _ hStep ih =>
    rcases ih with ⟨rfl, rfl⟩ | ⟨asked, s, s', m, m', r₁, rest, hFirst, rfl, hRest⟩
    · exact .inr ⟨_, _, _, _, _, _, [], hStep, rfl, .nil⟩
    · exact .inr ⟨asked, s, s', m, m', r₁, _, hFirst, rfl, hRest.snoc hStep⟩

theorem Advances.trans {r'' : Routine S I α} {after : List (Doing S I)} (h : r.Advances answers keep did r')
    (h' : r'.Advances answers keep after r'') : r.Advances answers keep (did ++ after) r'' := by
  induction h' with
  | nil => rwa [List.append_nil]
  | snoc _ hStep ih =>
    rw [← List.append_assoc]
    exact ih.snoc hStep

/-- What is left of a routine keeps within the bounds of the whole. -/
theorem Advances.within {b : Bounds S I} {post : α → Prop} (h : r.Advances answers b.keep did r')
    (hWithin : r.Within b post) : r'.Within b post := by
  induction h with
  | nil => exact hWithin
  | snoc _ hStep ih => exact (ih.step hStep).2.1

theorem Advances.of_atomic {change : S → S} {next : S → Routine S I α}
    (h : (atomic change next).Advances answers keep did r') :
    (did = [] ∧ r' = atomic change next) ∨
      ∃ s rest, did = ⟨none, s, change s⟩ :: rest ∧ (next s).Advances answers keep rest r' := by
  rcases h.first with hNone | ⟨_, _, _, _, _, _, rest, hStep, rfl, hRest⟩
  · exact .inl hNone
  · cases hStep
    exact .inr ⟨_, rest, rfl, hRest⟩

theorem Advances.of_call {c : I.Call} {next : I.Answer c → Routine S I α}
    (h : (call c next).Advances answers keep did r') :
    (did = [] ∧ r' = call c next) ∨
      ∃ x s rest, did = ⟨some ⟨c, x⟩, s, s⟩ :: rest ∧ (next x).Advances answers keep rest r' := by
  rcases h.first with hNone | ⟨_, _, _, _, _, _, rest, hStep, rfl, hRest⟩
  · exact .inl hNone
  · cases hStep
    exact .inr ⟨_, _, rest, rfl, hRest⟩

theorem Performs.done {x : α} (h : (done x : Routine S I α).Performs answers keep did a) : did = [] ∧ a = x := by
  rcases h.first with ⟨rfl, hEq⟩ | ⟨_, _, _, _, _, _, _, hStep, -, -⟩
  · cases hEq
    exact ⟨rfl, rfl⟩
  · cases hStep

theorem Performs.atomic {change : S → S} {next : S → Routine S I α}
    (h : (atomic change next).Performs answers keep did a) :
    ∃ s rest, did = ⟨none, s, change s⟩ :: rest ∧ (next s).Performs answers keep rest a := by
  rcases h.first with ⟨-, hEq⟩ | ⟨_, _, _, _, _, _, rest, hStep, rfl, hRest⟩
  · cases hEq
  · cases hStep
    exact ⟨_, rest, rfl, hRest⟩

theorem Performs.note {x : Log.Record} {next : Routine S I α} (h : (note x next).Performs answers keep did a) :
    ∃ s rest, did = ⟨none, s, keep x s⟩ :: rest ∧ next.Performs answers keep rest a := by
  rcases h.first with ⟨-, hEq⟩ | ⟨_, _, _, _, _, _, rest, hStep, rfl, hRest⟩
  · cases hEq
  · cases hStep
    exact ⟨_, rest, rfl, hRest⟩

/-- A step of two routines, one after the other, is one of the first as long as that is not at its end. -/
theorem Step.of_bind {k : α → Routine S I β} {x : Routine S I β} {s s' : S} {m m' : M} {asked : Option (Asked I)}
    (h : (r >>= k).Step answers keep s m asked x s' m') :
    (∃ a, r = .done a) ∨ ∃ r', r.Step answers keep s m asked r' s' m' ∧ x = r' >>= k := by
  change (r.bind k).Step answers keep s m asked x s' m' at h
  cases r with
  | done a => exact .inl ⟨a, rfl⟩
  | atomic change next =>
    cases h
    exact .inr ⟨_, .atomic .., rfl⟩
  | wait ready change limit next =>
    cases h with
    | ready _ _ _ _ hReady => exact .inr ⟨_, .ready change limit next m hReady, rfl⟩
    | expired => exact .inr ⟨_, .expired .., rfl⟩
  | call c next =>
    cases h with
    | call _ _ hAnswer => exact .inr ⟨_, .call next s hAnswer, rfl⟩
  | note x next =>
    cases h
    exact .inr ⟨_, .note .., rfl⟩

theorem Step.bind {s s' : S} {m m' : M} {asked : Option (Asked I)} (h : r.Step answers keep s m asked r' s' m')
    (k : α → Routine S I β) : (r >>= k).Step answers keep s m asked (r' >>= k) s' m' := by
  change (r.bind k).Step answers keep s m asked (r'.bind k) s' m'
  cases h with
  | atomic => exact .atomic ..
  | ready _ _ _ _ hReady => exact .ready _ _ _ _ hReady
  | expired => exact .expired ..
  | call _ _ hAnswer => exact .call _ _ hAnswer
  | note => exact .note ..

theorem Advances.bind (h : r.Advances answers keep did r') (k : α → Routine S I β) :
    (r >>= k).Advances answers keep did (r' >>= k) := by
  induction h with
  | nil => exact .nil
  | snoc _ hStep ih => exact ih.snoc (hStep.bind k)

theorem Performs.bind {k : α → Routine S I β} {after : List (Doing S I)} (h : r.Performs answers keep did a)
    (h' : (k a).Performs answers keep after b) : (r >>= k).Performs answers keep (did ++ after) b :=
  (Advances.bind h k).trans h'

theorem Advances.of_bind {k : α → Routine S I β} {x : Routine S I β} (h : (r >>= k).Advances answers keep did x) :
    (∃ r', r.Advances answers keep did r' ∧ x = r' >>= k) ∨
      ∃ a first rest, did = first ++ rest ∧ r.Performs answers keep first a ∧ (k a).Advances answers keep rest x := by
  induction h with
  | nil => exact .inl ⟨r, .nil, rfl⟩
  | snoc _ hStep ih =>
    rcases ih with ⟨r', hFirst, rfl⟩ | ⟨a, first, rest, rfl, hFirst, hRest⟩
    · rcases hStep.of_bind with ⟨a, rfl⟩ | ⟨r'', hStep', rfl⟩
      · exact .inr ⟨a, _, _, rfl, hFirst, Advances.snoc .nil hStep⟩
      · exact .inl ⟨r'', hFirst.snoc hStep', rfl⟩
    · exact .inr ⟨a, first, _, List.append_assoc .., hFirst, hRest.snoc hStep⟩

/-- To come to the end of two routines is to come to the end of the first, and then of the second. -/
theorem Performs.of_bind {k : α → Routine S I β} (h : (r >>= k).Performs answers keep did b) :
    ∃ a first rest, did = first ++ rest ∧ r.Performs answers keep first a ∧ (k a).Performs answers keep rest b := by
  rcases Advances.of_bind h with ⟨r', hFirst, hEq⟩ | ⟨a, first, rest, hRest⟩
  · cases r' with
    | done a =>
      have hRest : k a = .done b := hEq.symm
      refine ⟨a, did, [], (List.append_nil did).symm, hFirst, ?_⟩
      rw [Performs, hRest]
      exact .nil
    | _ => cases hEq
  · exact ⟨a, first, rest, hRest⟩

/-! Routines within routines -/

theorem zoom_bind {view : S → T} {put : T → S → S} {r : Routine T I α} {k : α → Routine T I β} :
    (r >>= k).zoom view put = r.zoom view put >>= fun a => (k a).zoom view put := by
  change (r.bind k).zoom view put = (r.zoom view put).bind fun a => (k a).zoom view put
  induction r with
  | done _ => rfl
  | atomic _ _ ih => exact congrArg _ (funext fun s => ih (view s))
  | wait _ _ _ _ ih => exact congrArg _ (funext ih)
  | call _ _ ih => exact congrArg _ (funext ih)
  | note _ _ ih => exact congrArg _ ih

end Routine

/-! What a worker has done -/

variable {K L : Type} {ρ : K → Type} [DecidableEq K] {t : Setting K L S I M ρ} {start s : Scene K L S I M ρ}
  {past : List (Moment K L S I)}

/-- What a worker has done since it took up its job leads from the job to what it has left of it. -/
theorem Setting.Leads.advances (hLeads : t.Leads start past s) {k : K} (hIdle : start.busy k = none) {job : L}
    {r : Routine S I (ρ k)} (hBusy : s.busy k = some (job, r)) :
    ∃ s₀ r₀ s₁, t.takes k job s₀ r₀ s₁ ∧ r₀.Advances t.answers t.keep (deeds k past) r := by
  induction hLeads generalizing r with
  | nil => simp [hIdle] at hBusy
  | @snoc past e a b _ hHappens ih =>
    rcases hHappens.busy_cases hBusy with ⟨hTurn, hTakes⟩ | ⟨asked, r', hTurn, hBefore, hStep⟩ | ⟨hOther, hBefore⟩
    · refine ⟨_, r, _, hTakes, ?_⟩
      rw [deeds_of_takesUp hTurn past []]
      exact .nil
    · obtain ⟨s₀, r₀, s₁, hTakes, hWay⟩ := ih hBefore
      refine ⟨s₀, r₀, s₁, hTakes, ?_⟩
      have hDid : deeds k (past ++ [e]) = deeds k past ++ [⟨asked, e.before, e.after⟩] := by
        simp [deeds_snoc, Moment.addTo, hTurn]
      rw [hDid, hHappens.before, hHappens.after]
      exact hWay.snoc hStep
    · rw [deeds_snoc, Moment.addTo_of_other hOther]
      exact ih hBefore

end JvmDebug
