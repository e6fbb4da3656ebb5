import JvmDebug.Proofs.Routine.Phases

/-!
# Routines that spare a part of the state when they fail

A routine that may change a part of the state, but only where nothing can go wrong any more, leaves that part alone
whenever it fails. So it does not matter where it fails, nor what it has done beside until then. To spare a part is
carried over to larger states, and through the routines that answer calls.
-/

namespace JvmDebug
set_option autoImplicit false

variable {S T X M : Type} {I J : Interface} {α β ε : Type} {b : Bounds S I}

namespace Routine

variable {r : Routine S I α}

/-! ## What is yielded in a larger state -/

theorem Gives.zoom {answered : (c : I.Call) → I.Answer c → Prop} {post : α → Prop} {view : T → S} {put : S → T → T}
    (h : r.Gives answered post) : (r.zoom view put).Gives answered post := by
  induction r with
  | done _ => exact h
  | atomic _ _ ih => exact fun t => ih _ (h (view t))
  | wait _ _ _ _ ih => exact fun x => ih x (h x)
  | call _ _ ih => exact fun a hAnswered => ih a (h a hAnswered)
  | note _ _ ih => exact ih h

theorem Gives.interpret {answered : (c : I.Call) → I.Answer c → Prop} {answered' : (c : J.Call) → J.Answer c → Prop}
    {answer : (c : I.Call) → Routine S J (I.Answer c)} {post : α → Prop} (h : r.Gives answered post)
    (hAnswer : ∀ c, (answer c).Gives answered' (answered c)) : (r.interpret answer).Gives answered' post := by
  induction r with
  | done _ => exact h
  | atomic _ _ ih => exact fun s => ih s (h s)
  | wait _ _ _ _ ih => exact fun x => ih x (h x)
  | call c _ ih => exact gives_bind.mpr ((hAnswer c).mono fun a hAnswered => ih a (h a hAnswered))
  | note _ _ ih => exact ih h

/-! ## Sparing -/

/-- Whatever is answered, the routine does not end in this way. -/
abbrev Never (way : α → Prop) (r : Routine S I α) : Prop := r.Gives (fun _ _ => True) fun a => ¬way a

/-- If the routine ends in this way, it has left a part of the state alone, and no call was answered so that it spoils
that part: where it does the one, or is answered the other, it never ends in this way any more. -/
def Spares (part : S → X) (spoils : Asked I → Prop) (way : α → Prop) : Routine S I α → Prop
  | .done _ => True
  | .atomic change next => ∀ s,
    part (change s) = part s ∧ Spares part spoils way (next s) ∨ (next s).Never way
  | .wait ready change _ next =>
    (∀ s, ready s = true → part (change s) = part s ∧ Spares part spoils way (next true) ∨ (next true).Never way) ∧
      Spares part spoils way (next false)
  | .call c next => ∀ a, ¬spoils ⟨c, a⟩ ∧ Spares part spoils way (next a) ∨ (next a).Never way
  | .note _ next => Spares part spoils way next

variable {part : S → X} {spoils : Asked I → Prop} {way way' : α → Prop}

theorem Gives.spares (h : r.Never way) : r.Spares part spoils way := by
  induction r with
  | done _ => trivial
  | atomic _ _ _ => exact fun s => .inr (h s)
  | wait _ _ _ _ ih => exact ⟨fun _ _ => .inr (h true), ih false (h false)⟩
  | call _ _ _ => exact fun a => .inr (h a trivial)
  | note _ _ ih => exact ih h

/-- Whoever spares the part in more cases spares it in these. -/
theorem Spares.mono (hWay : ∀ a, way a → way' a) (h : r.Spares part spoils way') : r.Spares part spoils way := by
  have hLost : ∀ {r : Routine S I α}, r.Never way' → r.Never way := fun h => h.mono fun a hNot ha => hNot (hWay a ha)
  induction r with
  | done _ => trivial
  | atomic _ _ ih => exact fun s => (h s).imp (fun hSame => ⟨hSame.1, ih s hSame.2⟩) hLost
  | wait _ _ _ _ ih =>
    exact ⟨fun s hReady => (h.1 s hReady).imp (fun hSame => ⟨hSame.1, ih true hSame.2⟩) hLost, ih false h.2⟩
  | call _ _ ih => exact fun a => (h a).imp (fun hSame => ⟨hSame.1, ih a hSame.2⟩) hLost
  | note _ _ ih => exact ih h

/-- What keeps within bounds that leave the part alone spares it, however it ends. -/
theorem Within.spares {yields : α → Prop} (h : r.Within b yields) (hChanges : ∀ s s', b.changes s s' → part s' = part s)
    (hCalls : ∀ c a, b.calls c → ¬spoils ⟨c, a⟩) : r.Spares part spoils way := by
  induction r with
  | done _ => trivial
  | atomic _ _ ih => exact fun s => .inl ⟨hChanges _ _ (h s).1, ih s (h s).2⟩
  | wait _ _ _ _ ih =>
    exact ⟨fun s hReady => .inl ⟨hChanges _ _ ((h.1 s).1 hReady), ih true (h.2 true)⟩, ih false (h.2 false)⟩
  | call c _ ih => exact fun a => .inl ⟨hCalls c a h.1, ih a (h.2.2 a)⟩
  | note _ _ ih => exact ih h.2

/-- What goes on after a routine spares the part where that one has, and never ends in this way where it may not
have. -/
theorem Spares.bind {way : β → Prop} {k : α → Routine S I β} (h : r.Spares part spoils way')
    (hNext : ∀ a, way' a → (k a).Spares part spoils way) (hRest : ∀ a, ¬way' a → (k a).Never way) :
    (r >>= k).Spares part spoils way := by
  have hLost : ∀ {r : Routine S I α}, r.Never way' → (r.bind k).Never way := fun h =>
    gives_bind.mpr (h.mono fun a ha => hRest a ha)
  change (r.bind k).Spares part spoils way
  induction r with
  | done a =>
    by_cases ha : way' a
    · exact hNext a ha
    · exact (hRest a ha).spares
  | atomic _ _ ih => exact fun s => (h s).imp (fun hSame => ⟨hSame.1, ih s hSame.2⟩) hLost
  | wait _ _ _ _ ih =>
    exact ⟨fun s hReady => (h.1 s hReady).imp (fun hSame => ⟨hSame.1, ih true hSame.2⟩) hLost, ih false h.2⟩
  | call _ _ ih => exact fun a => (h a).imp (fun hSame => ⟨hSame.1, ih a hSame.2⟩) hLost
  | note _ _ ih => exact ih h

/-- After what leaves the part alone. -/
theorem Within.before_sparing {yields : α → Prop} {way : β → Prop} {k : α → Routine S I β} (h : r.Within b yields)
    (hChanges : ∀ s s', b.changes s s' → part s' = part s) (hCalls : ∀ c a, b.calls c → ¬spoils ⟨c, a⟩)
    (hNext : ∀ a, (k a).Spares part spoils way) : (r >>= k).Spares part spoils way := by
  have hFirst : r.Spares part spoils fun _ => True := h.spares hChanges hCalls
  exact hFirst.bind (fun a _ => hNext a) fun _ hNot => absurd trivial hNot

theorem Spares.zoom {Y : Type} {part' : T → Y} {view : T → S} {put : S → T → T} (h : r.Spares part spoils way)
    (hPut : ∀ s t, part s = part (view t) → part' (put s t) = part' t) : (r.zoom view put).Spares part' spoils way := by
  induction r with
  | done _ => trivial
  | atomic _ _ ih => exact fun t => (h (view t)).imp (fun hSame => ⟨hPut _ t hSame.1, ih _ hSame.2⟩) Gives.zoom
  | wait _ _ _ _ ih =>
    refine ⟨fun t hReady => ?_, ih false h.2⟩
    exact (h.1 (view t) hReady).imp (fun hSame => ⟨hPut _ t hSame.1, ih true hSame.2⟩) Gives.zoom
  | call _ _ ih => exact fun a => (h a).imp (fun hSame => ⟨hSame.1, ih a hSame.2⟩) Gives.zoom
  | note _ _ ih => exact ih h

/-- Where a call is answered by a routine, that one spares the part unless its answer is told to spoil it. -/
theorem Spares.interpret {spoils' : Asked J → Prop} {answer : (c : I.Call) → Routine S J (I.Answer c)}
    (h : r.Spares part spoils way)
    (hAnswer : ∀ c, (answer c).Spares part spoils' fun a => ¬spoils ⟨c, a⟩) :
    (r.interpret answer).Spares part spoils' way := by
  have hLost : ∀ {r : Routine S I α}, r.Never way → (r.interpret answer).Never way := fun h =>
    h.interpret fun c => gives_anything _
  induction r with
  | done _ => trivial
  | atomic _ _ ih => exact fun s => (h s).imp (fun hSame => ⟨hSame.1, ih s hSame.2⟩) hLost
  | wait _ _ _ _ ih =>
    exact ⟨fun s hReady => (h.1 s hReady).imp (fun hSame => ⟨hSame.1, ih true hSame.2⟩) hLost, ih false h.2⟩
  | call c next ih =>
    refine Spares.bind (hAnswer c) (fun a hKept => ?_) fun a hSpoilt => ?_
    · rcases h a with ⟨-, hNext⟩ | hNext
      · exact ih a hNext
      · exact (hLost hNext).spares
    · rcases h a with ⟨hKept, -⟩ | hNext
      · exact absurd hKept hSpoilt
      · exact hLost hNext
  | note _ _ ih => exact ih h

/-- Where no end is in this way, there is nothing to spare. -/
theorem spares_of_none (h : ∀ a, ¬way a) : r.Spares part spoils way :=
  Gives.spares ((gives_anything _).mono fun a _ => h a)

/-- A step of a routine that spares the part. -/
theorem Step.spares {answers : Answering I M} {keep : Log.Record → S → S} {r' : Routine S I α} {s s' : S} {m m' : M}
    {asked : Option (Asked I)} (hStep : r.Step answers keep s m asked r' s' m') (h : r.Spares part spoils way)
    (hKeep : ∀ x s, part (keep x s) = part s) :
    part s' = part s ∧ r'.Spares part spoils way ∨ r'.Never way := by
  cases hStep with
  | atomic => exact h s
  | ready _ _ _ _ hReady => exact h.1 s hReady
  | expired => exact .inl ⟨rfl, h.2⟩
  | call => exact (h _).imp (fun hSame => ⟨rfl, hSame.2⟩) id
  | note x => exact .inl ⟨hKeep x s, h⟩

theorem Step.never {answers : Answering I M} {keep : Log.Record → S → S} {r' : Routine S I α} {s s' : S} {m m' : M}
    {asked : Option (Asked I)} (hStep : r.Step answers keep s m asked r' s' m') (h : r.Never way) : r'.Never way := by
  cases hStep with
  | atomic => exact h s
  | ready => exact h true
  | expired => exact h false
  | call => exact h _ trivial
  | note => exact h

end Routine

/-! ## Routines that may fail -/

/-- That something has failed. -/
def Failed : Except ε α → Prop
  | .ok _ => False
  | .error _ => True

@[simp] theorem not_failed_ok (a : α) : ¬Failed (.ok a : Except ε α) := id

namespace Attempt

variable {w : Attempt ε S I α} {k : α → Attempt ε S I β} {part : S → X} {spoils : Asked I → Prop}

theorem never_pure (a : α) : (pure a : Attempt ε S I α).run.Never Failed := id

theorem never_bind (h : w.run.Never Failed) (hNext : ∀ a, (k a).run.Never Failed) : (w >>= k).run.Never Failed := by
  refine Routine.gives_bind.mpr (h.mono ?_)
  rintro (e | a) hOk
  · exact absurd trivial hOk
  · exact hNext a

theorem never_lift {r : Routine S I α} : (ExceptT.lift r : Attempt ε S I α).run.Never Failed := by
  change (Except.ok <$> r).Never Failed
  rw [map_eq_pure_bind]
  exact Routine.gives_bind.mpr ((Routine.gives_anything _).mono fun _ _ => id)

theorem never_mapM {f : α → Attempt ε S I β} (h : ∀ a, (f a).run.Never Failed) (items : List α) :
    (items.mapM f).run.Never Failed := by
  induction items with
  | nil => exact never_pure []
  | cons a rest ih =>
    rw [List.mapM_cons]
    exact never_bind (h a) fun _ => never_bind ih fun _ => never_pure _

/-- After work that leaves the part alone. -/
theorem spares_after {yields : Except ε α → Prop} (h : w.run.Within b yields)
    (hChanges : ∀ s s', b.changes s s' → part s' = part s) (hCalls : ∀ c a, b.calls c → ¬spoils ⟨c, a⟩)
    (hNext : ∀ a, (k a).run.Spares part spoils Failed) : (w >>= k).run.Spares part spoils Failed := by
  refine Routine.Within.before_sparing h hChanges hCalls ?_
  rintro (e | a)
  · trivial
  · exact hNext a

/-- Before work that never fails. -/
theorem spares_then (h : w.run.Spares part spoils Failed) (hNext : ∀ a, (k a).run.Never Failed) :
    (w >>= k).run.Spares part spoils Failed := by
  refine Routine.Spares.bind h ?_ ?_
  · rintro (e | a) hFailed
    · trivial
    · exact hFailed.elim
  · rintro (e | a) hOk
    · exact absurd trivial hOk
    · exact hNext a

end Attempt

/-! ## Along a scene -/

namespace Setting

variable {K L : Type} {ρ : K → Type} [DecidableEq K] {t : Setting K L S I M ρ} {start now : Scene K L S I M ρ}
  {past : List (Moment K L S I)} {k : K} {job : L} {part : S → X}

variable {spoils : Asked I → Prop} {way : ρ k → Prop} {r r' : Routine S I (ρ k)} {job' : L}

/-- As long as a worker is at a job in which it spares the part, it has left it alone so far, or what is left to be done
never ends in this way. -/
theorem Leads.sparing (hLeads : t.Leads start past now) (hKeep : ∀ x s, part (t.keep x s) = part s)
    (hStart : start.busy k = some (job, r)) (hSpares : r.Spares part spoils way)
    (hOnly : ∀ e ∈ past, ∀ job, e.turn ≠ .takesUp k job) (hNow : now.busy k = some (job', r')) :
    (r'.Spares part spoils way ∧ ∀ e ∈ past, e.turn.worker? = some k → part e.after = part e.before) ∨
      r'.Never way := by
  induction hLeads generalizing job' r' with
  | nil =>
    obtain ⟨rfl, rfl⟩ : job = job' ∧ r = r' := by simpa [hStart] using hNow
    exact .inl ⟨hSpares, nofun⟩
  | @snoc past e s s' _ hHappens ih =>
    have hBefore : ∀ x ∈ past, ∀ job, x.turn ≠ .takesUp k job := fun x hx => hOnly x (by simp [hx])
    have hSnoc : (∀ x ∈ past, x.turn.worker? = some k → part x.after = part x.before) →
        (e.turn.worker? = some k → part s'.state = part s.state) →
        ∀ x ∈ past ++ [e], x.turn.worker? = some k → part x.after = part x.before := by
      intro hPast hLast x hx
      rcases List.mem_append.mp hx with hx | hx
      · exact hPast x hx
      · rw [List.mem_singleton.mp hx, hHappens.before, hHappens.after]
        exact hLast
    rcases hHappens.busy_cases hNow with ⟨hTurn, -⟩ | ⟨asked, r₁, -, hThen, hStep⟩ | ⟨hOther, hThen⟩
    · exact absurd hTurn (hOnly e (by simp) job')
    · rcases ih hBefore hThen with ⟨hRest, hPast⟩ | hNever
      · exact (hStep.spares hRest hKeep).imp (fun hSame => ⟨hSame.2, hSnoc hPast fun _ => hSame.1⟩) id
      · exact .inr (hStep.never hNever)
    · exact (ih hBefore hThen).imp (fun hPast => ⟨hPast.1, hSnoc hPast.2 fun hTurn => absurd hTurn hOther⟩) id

/-- A worker that has come to the end of its job in a way in which it spares the part has left it alone all the time. -/
theorem Leads.spared (hLeads : t.Leads start past now) (hKeep : ∀ x s, part (t.keep x s) = part s)
    (hStart : start.busy k = some (job, r)) (hSpares : r.Spares part spoils way)
    (hOnly : ∀ e ∈ past, ∀ job, e.turn ≠ .takesUp k job) {a : ρ k} (hNow : now.busy k = some (job', .done a))
    (hWay : way a) : ∀ e ∈ past, e.turn.worker? = some k → part e.after = part e.before := by
  rcases hLeads.sparing hKeep hStart hSpares hOnly hNow with ⟨-, hSame⟩ | hNever
  · exact hSame
  · exact absurd hWay hNever

/-- What every moment leaves alone is in the end as it was in the beginning. -/
theorem Leads.same (hLeads : t.Leads start past now) (hSame : ∀ e ∈ past, part e.after = part e.before) :
    part now.state = part start.state := by
  induction hLeads with
  | nil => rfl
  | @snoc past e s s' _ hHappens ih =>
    have hLast := hSame e (by simp)
    rw [hHappens.before, hHappens.after] at hLast
    exact hLast.trans (ih fun x hx => hSame x (by simp [hx]))

end Setting
end JvmDebug
