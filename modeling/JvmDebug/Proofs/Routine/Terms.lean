import JvmDebug.Proofs.Routine.Bounds

/-!
# The terms of working together

A routine works on a state that others change too. It may count on what the others do not do, and has to keep to what
they count on: these are its terms. What it may do can depend on what it has done before. `Heeds` says that a routine
keeps to its terms wherever others come in, and what holds when it is done. What each worker of a scene heeds is true of
every moment of the scene.
-/

namespace JvmDebug
set_option autoImplicit false

structure Terms (S : Type) (I : Interface) where
  /-- What is true of every state. -/
  valid : S → Prop := fun _ => True
  /-- What others may do meanwhile. -/
  others : S → S → Prop
  refl : ∀ s, others s s
  trans : ∀ {a b c}, others a b → others b c → others a c
  /-- What the routine may ask, and what it may do, after what it has done. -/
  asks : List (Doing S I) → I.Call → S → Prop
  does : List (Doing S I) → Doing S I → Prop
  /-- How calls are answered. -/
  answered : (c : I.Call) → I.Answer c → Prop := fun _ _ => True
  keep : Log.Record → S → S

variable {S : Type} {I : Interface} {α β ε : Type} {t : Terms S I}

/-- The routine may do this, and goes on after it as `next` says. -/
def Terms.Goes (t : Terms S I) (next : List (Doing S I) → S → Prop) (did : List (Doing S I)) (d : Doing S I) : Prop :=
  t.does did d ∧ next (did ++ [d]) d.after

namespace Routine

/-- The routine keeps to its terms from a state on, and ends as `post` says if it ends. -/
def Heeds (t : Terms S I) (post : α → List (Doing S I) → S → Prop) :
    Routine S I α → List (Doing S I) → S → Prop
  | .done a, did, s => ∀ s', t.others s s' → t.valid s' → post a did s'
  | .atomic change next, did, s => ∀ s', t.others s s' → t.valid s' →
    t.Goes (Heeds t post (next s')) did ⟨none, s', change s'⟩
  | .wait ready change limit next, did, s => ∀ s', t.others s s' → t.valid s' →
    (ready s' = true → t.Goes (Heeds t post (next true)) did ⟨none, s', change s'⟩) ∧
      (limit.isSome → t.Goes (Heeds t post (next false)) did ⟨none, s', s'⟩)
  | .call c next, did, s => ∀ s', t.others s s' → t.valid s' →
    t.asks did c s' ∧ ∀ a, t.answered c a → t.Goes (Heeds t post (next a)) did ⟨some ⟨c, a⟩, s', s'⟩
  | .note r next, did, s => ∀ s', t.others s s' → t.valid s' →
    t.Goes (Heeds t post next) did ⟨none, s', t.keep r s'⟩

variable {post post' : α → List (Doing S I) → S → Prop} {r : Routine S I α} {did : List (Doing S I)} {s s' : S}

/-- Others may always have been at work before. -/
theorem heeds_iff_later :
    r.Heeds t post did s ↔ ∀ s', t.others s s' → t.valid s' → r.Heeds t post did s' := by
  constructor
  · intro h s₁ h₁ _
    cases r <;> exact fun s₂ h₂ => h s₂ (t.trans h₁ h₂)
  · intro h
    cases r <;> exact fun s₁ h₁ hValid => h s₁ h₁ hValid s₁ (t.refl s₁) hValid

theorem Heeds.later (h : r.Heeds t post did s) (hOthers : t.others s s') (hValid : t.valid s') :
    r.Heeds t post did s' :=
  heeds_iff_later.mp h s' hOthers hValid

theorem Heeds.mono (hPost : ∀ a did s, post a did s → post' a did s) (h : r.Heeds t post did s) :
    r.Heeds t post' did s := by
  induction r generalizing did s with
  | done a =>
    intro s₁ h₁ hValid
    exact hPost a did s₁ (h s₁ h₁ hValid)
  | atomic change next ih =>
    intro s₁ h₁ hValid
    obtain ⟨hDoes, hNext⟩ := h s₁ h₁ hValid
    exact ⟨hDoes, ih s₁ hNext⟩
  | wait ready change limit next ih =>
    intro s₁ h₁ hValid
    obtain ⟨hReady, hLimit⟩ := h s₁ h₁ hValid
    exact ⟨fun hr => ⟨(hReady hr).1, ih true (hReady hr).2⟩, fun hl => ⟨(hLimit hl).1, ih false (hLimit hl).2⟩⟩
  | call c next ih =>
    intro s₁ h₁ hValid
    obtain ⟨hAsks, hNext⟩ := h s₁ h₁ hValid
    exact ⟨hAsks, fun a ha => ⟨(hNext a ha).1, ih a (hNext a ha).2⟩⟩
  | note _ next ih =>
    intro s₁ h₁ hValid
    obtain ⟨hDoes, hNext⟩ := h s₁ h₁ hValid
    exact ⟨hDoes, ih hNext⟩

theorem Heeds.bind {post : β → List (Doing S I) → S → Prop} {k : α → Routine S I β}
    (h : r.Heeds t (fun a did s => (k a).Heeds t post did s) did s) : (r >>= k).Heeds t post did s := by
  change (r.bind k).Heeds t post did s
  induction r generalizing did s with
  | done a => exact heeds_iff_later.mpr h
  | atomic change next ih =>
    intro s₁ h₁ hValid
    obtain ⟨hDoes, hNext⟩ := h s₁ h₁ hValid
    exact ⟨hDoes, ih s₁ hNext⟩
  | wait ready change limit next ih =>
    intro s₁ h₁ hValid
    obtain ⟨hReady, hLimit⟩ := h s₁ h₁ hValid
    exact ⟨fun hr => ⟨(hReady hr).1, ih true (hReady hr).2⟩, fun hl => ⟨(hLimit hl).1, ih false (hLimit hl).2⟩⟩
  | call c next ih =>
    intro s₁ h₁ hValid
    obtain ⟨hAsks, hNext⟩ := h s₁ h₁ hValid
    exact ⟨hAsks, fun a ha => ⟨(hNext a ha).1, ih a (hNext a ha).2⟩⟩
  | note _ next ih =>
    intro s₁ h₁ hValid
    obtain ⟨hDoes, hNext⟩ := h s₁ h₁ hValid
    exact ⟨hDoes, ih hNext⟩

/-- What holds at the end, others leave standing. -/
theorem Heeds.stands (h : r.Heeds t post did s) :
    r.Heeds t (fun a did s => ∀ s', t.others s s' → t.valid s' → post a did s') did s := by
  induction r generalizing did s with
  | done a => exact fun s₁ h₁ _ s₂ h₂ => h s₂ (t.trans h₁ h₂)
  | atomic change next ih =>
    intro s₁ h₁ hValid
    obtain ⟨hDoes, hNext⟩ := h s₁ h₁ hValid
    exact ⟨hDoes, ih s₁ hNext⟩
  | wait ready change limit next ih =>
    intro s₁ h₁ hValid
    obtain ⟨hReady, hLimit⟩ := h s₁ h₁ hValid
    exact ⟨fun hr => ⟨(hReady hr).1, ih true (hReady hr).2⟩, fun hl => ⟨(hLimit hl).1, ih false (hLimit hl).2⟩⟩
  | call c next ih =>
    intro s₁ h₁ hValid
    obtain ⟨hAsks, hNext⟩ := h s₁ h₁ hValid
    exact ⟨hAsks, fun a ha => ⟨(hNext a ha).1, ih a (hNext a ha).2⟩⟩
  | note _ next ih =>
    intro s₁ h₁ hValid
    obtain ⟨hDoes, hNext⟩ := h s₁ h₁ hValid
    exact ⟨hDoes, ih hNext⟩

theorem Heeds.map {post : β → List (Doing S I) → S → Prop} {f : α → β}
    (h : r.Heeds t (fun a => post (f a)) did s) : (f <$> r).Heeds t post did s := by
  rw [map_eq_pure_bind]
  exact h.stands.bind

/-- A routine with bounds keeps to terms that hold within them. What `keeps` says has to stand whatever comes. -/
theorem Within.heeds {b : Bounds S I} {yields : α → Prop} (h : r.Within b yields)
    (keeps : List (Doing S I) → S → Prop) (hKeep : t.keep = b.keep)
    (hOthers : ∀ {did s s'}, keeps did s → t.others s s' → t.valid s' → keeps did s')
    (hDoes : ∀ {did} asked {s s'}, keeps did s → t.valid s → b.changes s s' → (∀ x ∈ asked, b.calls x.1) →
      t.Goes keeps did ⟨asked, s, s'⟩)
    (hAsks : ∀ {did c s}, keeps did s → t.valid s → b.calls c → t.asks did c s) (hHere : keeps did s) :
    r.Heeds t (fun a did s => yields a ∧ keeps did s) did s := by
  induction r generalizing did s with
  | done a =>
    intro s₁ h₁ hValid
    exact ⟨h, hOthers hHere h₁ hValid⟩
  | atomic change next ih =>
    intro s₁ h₁ hValid
    obtain ⟨hMay, hNext⟩ := hDoes none (hOthers hHere h₁ hValid) hValid (h s₁).1 (by simp)
    exact ⟨hMay, ih s₁ (h s₁).2 hNext⟩
  | wait ready change limit next ih =>
    intro s₁ h₁ hValid
    have hThere := hOthers hHere h₁ hValid
    constructor
    · intro hReady
      obtain ⟨hMay, hNext⟩ := hDoes none hThere hValid ((h.1 s₁).1 hReady) (by simp)
      exact ⟨hMay, ih true (h.2 true) hNext⟩
    · intro hLimit
      obtain ⟨hMay, hNext⟩ := hDoes none hThere hValid ((h.1 s₁).2 hLimit) (by simp)
      exact ⟨hMay, ih false (h.2 false) hNext⟩
  | call c next ih =>
    intro s₁ h₁ hValid
    have hThere := hOthers hHere h₁ hValid
    refine ⟨hAsks hThere hValid h.1, fun a _ => ?_⟩
    obtain ⟨hMay, hNext⟩ := hDoes (some ⟨c, a⟩) hThere hValid (h.2.1 s₁) (by simpa using h.1)
    exact ⟨hMay, ih a (h.2.2 a) hNext⟩
  | note x next ih =>
    intro s₁ h₁ hValid
    obtain ⟨hMay, hNext⟩ := hDoes none (hOthers hHere h₁ hValid) hValid (h.1 s₁) (by simp)
    rw [← hKeep] at hMay hNext
    exact ⟨hMay, ih h.2 hNext⟩

/-- One step of a routine that keeps to its terms. -/
theorem Step.heeds {M : Type} {answers : Answering I M} {keep : Log.Record → S → S} {r' : Routine S I α} {m m' : M}
    {asked : Option (Asked I)} (hStep : r.Step answers keep s m asked r' s' m') (hHeeds : r.Heeds t post did s)
    (hValid : t.valid s) (hKeep : keep = t.keep) (hAnswered : ∀ c x, asked = some ⟨c, x⟩ → t.answered c x) :
    t.Goes (r'.Heeds t post) did ⟨asked, s, s'⟩ := by
  cases hStep with
  | atomic change next => exact hHeeds s (t.refl s) hValid
  | ready change limit next _ hReady => exact (hHeeds s (t.refl s) hValid).1 hReady
  | expired ready change limit next => exact (hHeeds s (t.refl s) hValid).2 rfl
  | call next _ hAnswer => exact (hHeeds s (t.refl s) hValid).2 _ (hAnswered _ _ rfl)
  | note r next =>
    rw [hKeep]
    exact hHeeds s (t.refl s) hValid

end Routine

/-! Routines that may fail -/

namespace Attempt

variable {w : Attempt ε S I α} {did : List (Doing S I)} {s : S}

theorem heeds_bind {post : Except ε β → List (Doing S I) → S → Prop} {k : α → Attempt ε S I β}
    (h : w.run.Heeds t (fun e did s => andThen (fun a => (k a).run.Heeds t post did s)
      (fun x => (pure (.error x) : Routine S I _).Heeds t post did s) e) did s) :
    (w >>= k).run.Heeds t post did s := by
  refine Routine.Heeds.bind (h.mono ?_)
  rintro (x | a) did s hNext <;> exact hNext

end Attempt

/-! Along a scene -/

/-- All workers have terms that fit together, and heed them in whatever they take up. -/
structure Accord {K L M : Type} {ρ : K → Type} [DecidableEq K] (u : Setting K L S I M ρ) (holds : S → Prop)
    (terms : K → L → Terms S I) (post : (k : K) → L → ρ k → List (Doing S I) → S → Prop) : Prop where
  valid : ∀ k job, (terms k job).valid = holds
  keep : ∀ k job, u.keep = (terms k job).keep
  answered : ∀ {k job m c x m'}, u.answers m c x m' → (terms k job).answered c x
  takes : ∀ {k job s r s'}, holds s → u.takes k job s r s' → holds s' ∧ r.Heeds (terms k job) (post k job) [] s'
  own : ∀ {k job did asked s s'}, holds s → (terms k job).does did ⟨asked, s, s'⟩ → holds s'
  outside : ∀ {s m s' m'}, holds s → u.outside s m s' m' → holds s'
  others_own : ∀ {j k job job' did asked s s'}, j ≠ k → (terms j job).does did ⟨asked, s, s'⟩ →
    (terms k job').others s s'
  others_takes : ∀ {j k job job' s r s'}, j ≠ k → u.takes j job s r s' → (terms k job').others s s'
  others_outside : ∀ {k job s m s' m'}, u.outside s m s' m' → (terms k job).others s s'

/-- What is true of every scene and its past when the workers keep to their terms. -/
structure Kept {K L M : Type} {ρ : K → Type} [DecidableEq K] (holds : S → Prop) (terms : K → L → Terms S I)
    (post : (k : K) → L → ρ k → List (Doing S I) → S → Prop) (past : List (Moment K L S I)) (s : Scene K L S I M ρ) :
    Prop where
  valid : holds s.state
  busy : ∀ {k job r}, s.busy k = some (job, r) → r.Heeds (terms k job) (post k job) (deeds k past) s.state

section Scenes

variable {K L M : Type} {ρ : K → Type} [DecidableEq K] {u : Setting K L S I M ρ} {holds : S → Prop}
  {terms : K → L → Terms S I} {post : (k : K) → L → ρ k → List (Doing S I) → S → Prop} {start s s' : Scene K L S I M ρ}
  {e : Moment K L S I} {past since : List (Moment K L S I)} {k : K} {job : L} {r r' : Routine S I (ρ k)}
  {asked : Option (Asked I)} {state : S} {world : M}

theorem Kept.goes (hKept : Kept holds terms post past s) (hAccord : Accord u holds terms post)
    (hBusy : s.busy k = some (job, r)) (hStep : r.Step u.answers u.keep s.state s.world asked r' state world) :
    (terms k job).Goes (r'.Heeds (terms k job) (post k job)) (deeds k past) ⟨asked, s.state, state⟩ := by
  have hHere : (terms k job).valid s.state := hAccord.valid k job ▸ hKept.valid
  refine hStep.heeds (hKept.busy hBusy) hHere (hAccord.keep k job) ?_
  rintro c x rfl
  cases hStep with
  | call _ _ hAnswer => exact hAccord.answered hAnswer

theorem Kept.valid_after (hKept : Kept holds terms post past s) (hAccord : Accord u holds terms post)
    (hHappens : u.Happens s e s') : holds s'.state := by
  cases hHappens with
  | takesUp _ hTakes => exact (hAccord.takes hKept.valid hTakes).1
  | goesOn hBusy hStep => exact hAccord.own hKept.valid (hKept.goes hAccord hBusy hStep).1
  | isDone _ => exact hKept.valid
  | outside hOutside => exact hAccord.outside hKept.valid hOutside

/-- What a worker finds that others have done. -/
theorem Kept.others (hKept : Kept holds terms post past s) (hAccord : Accord u holds terms post)
    (hHappens : u.Happens s e s') (hTurn : e.turn.worker? ≠ some k) : (terms k job).others s.state s'.state := by
  have hNe : ∀ {j}, e.turn.worker? = some j → j ≠ k := fun hj hEq => hTurn (hEq ▸ hj)
  cases hHappens with
  | takesUp _ hTakes => exact hAccord.others_takes (hNe rfl) hTakes
  | goesOn hBusy hStep => exact hAccord.others_own (hNe rfl) (hKept.goes hAccord hBusy hStep).1
  | isDone _ => exact (terms k job).refl _
  | outside hOutside => exact hAccord.others_outside hOutside

theorem Kept.step (hKept : Kept holds terms post past s) (hAccord : Accord u holds terms post)
    (hHappens : u.Happens s e s') : Kept holds terms post (past ++ [e]) s' := by
  have hValid := hKept.valid_after hAccord hHappens
  refine ⟨hValid, ?_⟩
  intro k job r hBusy
  rw [deeds_snoc]
  rcases hHappens.busy_cases hBusy with ⟨hTurn, hTakes⟩ | ⟨asked, r', hTurn, hBefore, hStep⟩ | ⟨hOther, hBefore⟩
  · simpa [Moment.addTo, hTurn] using (hAccord.takes hKept.valid hTakes).2
  · simpa [Moment.addTo, hTurn, hHappens.before, hHappens.after] using (hKept.goes hAccord hBefore hStep).2
  · rw [Moment.addTo_of_other hOther]
    exact (hKept.busy hBefore).later (hKept.others hAccord hHappens hOther) (hAccord.valid k job ▸ hValid)

theorem Setting.Leads.kept (hLeads : u.Leads start past s) (hAccord : Accord u holds terms post) (hIdle : ∀ k, start.busy k = none)
    (hHolds : holds start.state) : Kept holds terms post past s := by
  induction hLeads with
  | nil =>
    refine ⟨hHolds, ?_⟩
    intro k job r hBusy
    rw [hIdle k] at hBusy
    cases hBusy
  | snoc _ hHappens ih => exact ih.step hAccord hHappens

end Scenes
end JvmDebug
