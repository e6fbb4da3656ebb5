import JvmDebug.Proofs.Routine.Bounds
import JvmDebug.Proofs.Routine.Jobs

/-!
# Phases

A routine passes through phases. In each phase it counts on something about the state, and is bound to certain moves,
each of which may lead to another phase. Phases are not part of the state: they say what a routine has done, and what it
still owes to those with whom it works. Workers that pass through phases play together as long as what one of them
moves leaves true what the others count on.
-/

namespace JvmDebug
set_option autoImplicit false

structure Phases (G S : Type) (I : Interface) where
  /-- What the routine counts on in a phase. -/
  fits : G → S → Prop
  /-- What it may do in a phase, and in which phase it is then. -/
  moves : G → Option (Asked I) → S → S → G → Prop
  /-- In which phases it may have to wait. -/
  waits : G → Prop := fun _ => True
  /-- How calls are answered. -/
  answered : (c : I.Call) → I.Answer c → Prop
  keep : Log.Record → S → S

variable {G S M : Type} {I : Interface} {α β ε : Type} {t : Phases G S I}

/-- The routine moves on from a state to another, and is then as `next` says. -/
def Phases.Moves (t : Phases G S I) (next : G → Prop) (g : G) (asked : Option (Asked I)) (s s' : S) : Prop :=
  ∃ g', t.moves g asked s s' g' ∧ next g'

theorem Phases.Moves.mono {next next' : G → Prop} {g : G} {asked : Option (Asked I)} {s s' : S}
    (hNext : ∀ g, next g → next' g) (h : t.Moves next g asked s s') : t.Moves next' g asked s s' := by
  obtain ⟨g', hMoves, hg⟩ := h
  exact ⟨g', hMoves, hNext g' hg⟩

/-- The same phases, with something beside them that does not change. -/
def Phases.beside (t : Phases G S I) (X : Type) : Phases (X × G) S I where
  fits y := t.fits y.2
  moves y asked s s' y' := y'.1 = y.1 ∧ t.moves y.2 asked s s' y'.2
  waits y := t.waits y.2
  answered := t.answered
  keep := t.keep

/-- The same phases, where something more is counted on, which nobody changes. -/
def Phases.also (t : Phases G S I) (holds : S → Prop) : Phases G S I where
  fits g s := t.fits g s ∧ holds s
  moves g asked s s' g' := t.moves g asked s s' g' ∧ holds s'
  waits := t.waits
  answered := t.answered
  keep := t.keep

namespace Routine

/-- The routine passes through the phases, and ends in one as `post` says. -/
def Passes (t : Phases G S I) (post : α → G → Prop) : Routine S I α → G → Prop
  | .done a, g => post a g
  | .atomic change next, g => ∀ s, t.fits g s → t.Moves (Passes t post (next s)) g none s (change s)
  | .wait ready change limit next, g => t.waits g ∧ ∀ s, t.fits g s →
    (ready s = true → t.Moves (Passes t post (next true)) g none s (change s)) ∧
      (limit.isSome → t.Moves (Passes t post (next false)) g none s s)
  | .call c next, g => ∀ s, t.fits g s → ∀ a, t.answered c a → t.Moves (Passes t post (next a)) g (some ⟨c, a⟩) s s
  | .note r next, g => ∀ s, t.fits g s → t.Moves (Passes t post next) g none s (t.keep r s)

variable {post post' : α → G → Prop} {r : Routine S I α} {g : G}

theorem Passes.mono (hPost : ∀ a g, post a g → post' a g) (h : r.Passes t post g) : r.Passes t post' g := by
  induction r generalizing g with
  | done a => exact hPost a g h
  | atomic change next ih => exact fun s hs => (h s hs).mono fun g' => ih s
  | wait ready change limit next ih =>
    exact ⟨h.1, fun s hs => ⟨fun hr => ((h.2 s hs).1 hr).mono fun g' => ih true,
      fun hl => ((h.2 s hs).2 hl).mono fun g' => ih false⟩⟩
  | call c next ih => exact fun s hs a ha => (h s hs a ha).mono fun g' => ih a
  | note _ next ih => exact fun s hs => (h s hs).mono fun g' => ih

theorem Passes.bind {post : β → G → Prop} {k : α → Routine S I β}
    (h : r.Passes t (fun a g => (k a).Passes t post g) g) : (r >>= k).Passes t post g := by
  change (r.bind k).Passes t post g
  induction r generalizing g with
  | done a => exact h
  | atomic change next ih => exact fun s hs => (h s hs).mono fun g' => ih s
  | wait ready change limit next ih =>
    exact ⟨h.1, fun s hs => ⟨fun hr => ((h.2 s hs).1 hr).mono fun g' => ih true,
      fun hl => ((h.2 s hs).2 hl).mono fun g' => ih false⟩⟩
  | call c next ih => exact fun s hs a ha => (h s hs a ha).mono fun g' => ih a
  | note _ next ih => exact fun s hs => (h s hs).mono fun g' => ih

/-- What a routine and its continuation pass to, the continuation passes to from wherever the routine got. -/
theorem Passes.of_bind {post : β → G → Prop} {k : α → Routine S I β} (h : (r >>= k).Passes t post g) :
    r.Passes t (fun a g => (k a).Passes t post g) g := by
  change (r.bind k).Passes t post g at h
  induction r generalizing g with
  | done a => exact h
  | atomic change next ih => exact fun s hs => (h s hs).mono fun g' => ih s
  | wait ready change limit next ih =>
    exact ⟨h.1, fun s hs => ⟨fun hr => ((h.2 s hs).1 hr).mono fun g' => ih true,
      fun hl => ((h.2 s hs).2 hl).mono fun g' => ih false⟩⟩
  | call c next ih => exact fun s hs a ha => (h s hs a ha).mono fun g' => ih a
  | note _ next ih => exact fun s hs => (h s hs).mono fun g' => ih

theorem Passes.map {post : β → G → Prop} {f : α → β} (h : r.Passes t (fun a => post (f a)) g) :
    (f <$> r).Passes t post g := by
  rw [map_eq_pure_bind]
  exact h.bind

theorem Passes.beside {X : Type} (x : X) (h : r.Passes t post g) :
    r.Passes (t.beside X) (fun a y => y.1 = x ∧ post a y.2) (x, g) := by
  have hMoves : ∀ {next : G → Prop} {next' : X × G → Prop} {g asked s s'}, (∀ g, next g → next' (x, g)) →
      t.Moves next g asked s s' → (t.beside X).Moves next' (x, g) asked s s' := by
    rintro next next' g asked s s' hNext ⟨g', hMoves, hg⟩
    exact ⟨(x, g'), ⟨rfl, hMoves⟩, hNext g' hg⟩
  induction r generalizing g with
  | done a => exact ⟨rfl, h⟩
  | atomic change next ih => exact fun s hs => hMoves (fun _ => ih s) (h s hs)
  | wait ready change limit next ih =>
    exact ⟨h.1, fun s hs => ⟨fun hr => hMoves (fun _ => ih true) ((h.2 s hs).1 hr),
      fun hl => hMoves (fun _ => ih false) ((h.2 s hs).2 hl)⟩⟩
  | call c next ih => exact fun s hs a ha => hMoves (fun _ => ih a) (h s hs a ha)
  | note _ next ih => exact fun s hs => hMoves (fun _ => ih) (h s hs)

theorem Passes.also {b : Bounds S I} {holds : S → Prop} {yields : α → Prop} (h : r.Passes t post g)
    (hWithin : r.Within b yields) (hKeep : b.keep = t.keep) (hHolds : ∀ s s', b.changes s s' → holds s → holds s') :
    r.Passes (t.also holds) post g := by
  have hMoves : ∀ {next next' : G → Prop} {g asked s s'}, b.changes s s' → holds s → (∀ g, next g → next' g) →
      t.Moves next g asked s s' → (t.also holds).Moves next' g asked s s' := by
    rintro next next' g asked s s' hChanges hs hNext ⟨g', hMoves, hg⟩
    exact ⟨g', ⟨hMoves, hHolds s s' hChanges hs⟩, hNext g' hg⟩
  induction r generalizing g with
  | done a => exact h
  | atomic change next ih =>
    exact fun s hs => hMoves (hWithin s).1 hs.2 (fun _ hg => ih s hg (hWithin s).2) (h s hs.1)
  | wait ready change limit next ih =>
    refine ⟨h.1, fun s hs => ⟨fun hReady => ?_, fun hLimit => ?_⟩⟩
    · exact hMoves ((hWithin.1 s).1 hReady) hs.2 (fun _ hg => ih true hg (hWithin.2 true)) ((h.2 s hs.1).1 hReady)
    · exact hMoves ((hWithin.1 s).2 hLimit) hs.2 (fun _ hg => ih false hg (hWithin.2 false)) ((h.2 s hs.1).2 hLimit)
  | call c next ih =>
    exact fun s hs a ha => hMoves (hWithin.2.1 s) hs.2 (fun _ hg => ih a hg (hWithin.2.2 a)) (h s hs.1 a ha)
  | note record next ih =>
    exact fun s hs => hMoves (hKeep ▸ hWithin.1 s) hs.2 (fun _ hg => ih hg hWithin.2) (h s hs.1)

/-- What the routine yields, wherever it finds the state, if its calls are answered like this. -/
def Gives (answered : (c : I.Call) → I.Answer c → Prop) (post : α → Prop) : Routine S I α → Prop
  | .done a => post a
  | .atomic _ next => ∀ s, Gives answered post (next s)
  | .wait _ _ _ next => ∀ x, Gives answered post (next x)
  | .call c next => ∀ a, answered c a → Gives answered post (next a)
  | .note _ next => Gives answered post next

theorem gives_bind {answered : (c : I.Call) → I.Answer c → Prop} {post : β → Prop} {k : α → Routine S I β} :
    (r >>= k).Gives answered post ↔ r.Gives answered fun a => (k a).Gives answered post := by
  change (r.bind k).Gives answered post ↔ _
  induction r with
  | done a => rfl
  | atomic _ _ ih => exact forall_congr' ih
  | wait _ _ _ _ ih => exact forall_congr' ih
  | call _ _ ih => exact forall_congr' fun a => imp_congr_right fun _ => ih a
  | note _ _ ih => exact ih

theorem Gives.mono {answered : (c : I.Call) → I.Answer c → Prop} {post post' : α → Prop} (hPost : ∀ a, post a → post' a)
    (h : r.Gives answered post) : r.Gives answered post' := by
  induction r with
  | done a => exact hPost a h
  | atomic _ _ ih => exact fun s => ih s (h s)
  | wait _ _ _ _ ih => exact fun x => ih x (h x)
  | call _ _ ih => exact fun a ha => ih a (h a ha)
  | note _ _ ih => exact ih h

theorem Gives.restrict {answered answered' : (c : I.Call) → I.Answer c → Prop} {post : α → Prop}
    (hSub : ∀ c a, answered' c a → answered c a) (h : r.Gives answered post) : r.Gives answered' post := by
  induction r with
  | done a => exact h
  | atomic _ _ ih => exact fun s => ih s (h s)
  | wait _ _ _ _ ih => exact fun x => ih x (h x)
  | call c _ ih => exact fun a ha => ih a (h a (hSub c a ha))
  | note _ _ ih => exact ih h

theorem Gives.and {answered : (c : I.Call) → I.Answer c → Prop} {post post' : α → Prop} (h : r.Gives answered post)
    (h' : r.Gives answered post') : r.Gives answered fun a => post a ∧ post' a := by
  induction r with
  | done a => exact ⟨h, h'⟩
  | atomic _ _ ih => exact fun s => ih s (h s) (h' s)
  | wait _ _ _ _ ih => exact fun x => ih x (h x) (h' x)
  | call c _ ih => exact fun a ha => ih a (h a ha) (h' a ha)
  | note _ _ ih => exact ih h h'

theorem gives_anything (answered : (c : I.Call) → I.Answer c → Prop) : r.Gives answered fun _ => True := by
  induction r with
  | done _ => trivial
  | atomic _ _ ih => exact fun s => ih s
  | wait _ _ _ _ ih => exact fun x => ih x
  | call _ _ ih => exact fun a _ => ih a
  | note _ _ ih => exact ih

/-- What the routine yields anyway, it yields where it passes through phases. -/
theorem Passes.and_gives {yields : α → Prop} (h : r.Passes t post g) (hGives : r.Gives t.answered yields) :
    r.Passes t (fun a g => yields a ∧ post a g) g := by
  induction r generalizing g with
  | done a => exact ⟨hGives, h⟩
  | atomic _ next ih => exact fun s hs => (h s hs).mono fun g' hNext => ih s hNext (hGives s)
  | wait _ _ _ next ih =>
    exact ⟨h.1, fun s hs => ⟨fun hr => ((h.2 s hs).1 hr).mono fun g' hNext => ih true hNext (hGives true),
      fun hl => ((h.2 s hs).2 hl).mono fun g' hNext => ih false hNext (hGives false)⟩⟩
  | call _ next ih => exact fun s hs a ha => (h s hs a ha).mono fun g' hNext => ih a hNext (hGives a ha)
  | note _ next ih => exact fun s hs => (h s hs).mono fun g' hNext => ih hNext hGives

/-- A routine with bounds passes through phases of one kind, if whatever it may do leads from such a phase to such a
phase. -/
theorem Within.passes {b : Bounds S I} {yields : α → Prop} {kind : G → Prop} (h : r.Within b fun _ => True)
    (hGives : r.Gives t.answered yields) (hKeep : t.keep = b.keep) (hWaits : ∀ g, kind g → t.waits g)
    (hMoves : ∀ g s s', kind g → t.fits g s → b.changes s s' → t.Moves kind g none s s')
    (hCalls : ∀ g s c a, kind g → t.fits g s → b.calls c → t.answered c a → t.Moves kind g (some ⟨c, a⟩) s s)
    (hg : kind g) : r.Passes t (fun a g' => yields a ∧ kind g') g := by
  induction r generalizing g with
  | done a => exact ⟨hGives, hg⟩
  | atomic change next ih =>
    exact fun s hs => (hMoves g s _ hg hs (h s).1).mono fun g' => ih s (h s).2 (hGives s)
  | wait ready change limit next ih =>
    refine ⟨hWaits g hg, fun s hs => ⟨fun hr => ?_, fun hl => ?_⟩⟩
    · exact (hMoves g s _ hg hs ((h.1 s).1 hr)).mono fun g' => ih true (h.2 true) (hGives true)
    · exact (hMoves g s s hg hs ((h.1 s).2 hl)).mono fun g' => ih false (h.2 false) (hGives false)
  | call c next ih =>
    exact fun s hs a ha => (hCalls g s c a hg hs h.1 ha).mono fun g' => ih a (h.2.2 a) (hGives a ha)
  | note x next ih => exact fun s hs => (hMoves g s _ hg hs (hKeep ▸ h.1 s)).mono fun g' => ih h.2 hGives

/-- The phases of a routine with bounds, whatever it yields. -/
theorem Within.passes_in {b : Bounds S I} {kind : G → Prop} (h : r.Within b fun _ => True) (hKeep : t.keep = b.keep)
    (hWaits : ∀ g, kind g → t.waits g)
    (hMoves : ∀ g s s', kind g → t.fits g s → b.changes s s' → t.Moves kind g none s s')
    (hCalls : ∀ g s c a, kind g → t.fits g s → b.calls c → t.answered c a → t.Moves kind g (some ⟨c, a⟩) s s)
    (hg : kind g) : r.Passes t (fun _ => kind) g :=
  (h.passes (gives_anything _) hKeep hWaits hMoves hCalls hg).mono fun _ _ hHere => hHere.2

/-- What is left of a routine after a step yields what the routine does. -/
theorem Gives.step {answers : Answering I M} {keep : Log.Record → S → S} {answered : (c : I.Call) → I.Answer c → Prop}
    {post : α → Prop} {r' : Routine S I α} {s s' : S} {m m' : M} {asked : Option (Asked I)} (h : r.Gives answered post)
    (hStep : r.Step answers keep s m asked r' s' m') (hAnswered : ∀ {m c a m'}, answers m c a m' → answered c a) :
    r'.Gives answered post := by
  cases hStep with
  | atomic => exact h s
  | ready => exact h true
  | expired => exact h false
  | call _ _ hAnswer => exact h _ (hAnswered hAnswer)
  | note => exact h

theorem Step.passes {answers : Answering I M} {keep : Log.Record → S → S} {r' : Routine S I α} {s s' : S} {m m' : M}
    {asked : Option (Asked I)} (hStep : r.Step answers keep s m asked r' s' m') (h : r.Passes t post g)
    (hFits : t.fits g s) (hKeep : keep = t.keep) (hAnswered : ∀ m c a m', answers m c a m' → t.answered c a) :
    t.Moves (r'.Passes t post) g asked s s' := by
  cases hStep with
  | atomic change next => exact h s hFits
  | ready change limit next _ hReady => exact (h.2 s hFits).1 hReady
  | expired ready change limit next => exact (h.2 s hFits).2 rfl
  | call next _ hAnswer => exact h s hFits _ (hAnswered _ _ _ _ hAnswer)
  | note r next =>
    rw [hKeep]
    exact h s hFits

end Routine

/-! Routines that may fail -/

namespace Attempt

variable {w : Attempt ε S I α} {g : G}

theorem passes_bind {post : Except ε β → G → Prop} {k : α → Attempt ε S I β}
    (h : w.run.Passes t (fun e g => andThen (fun a => (k a).run.Passes t post g) (fun x => post (.error x) g) e) g) :
    (w >>= k).run.Passes t post g := by
  refine Routine.Passes.bind (h.mono ?_)
  rintro (x | a) g hNext <;> exact hNext

theorem of_passes_bind {post : Except ε β → G → Prop} {k : α → Attempt ε S I β}
    (h : (w >>= k).run.Passes t post g) :
    w.run.Passes t (fun e g => andThen (fun a => (k a).run.Passes t post g) (fun x => post (.error x) g) e) g := by
  refine (Routine.Passes.of_bind h).mono ?_
  rintro (x | a) g hNext <;> exact hNext

theorem passes_lift {post : Except ε α → G → Prop} {r : Routine S I α} (h : r.Passes t (fun a => post (.ok a)) g) :
    (ExceptT.lift r : Attempt ε S I α).run.Passes t post g :=
  Routine.Passes.map h

/-- Items are gone through one after the other, without leaving the phase. -/
theorem passes_mapM {f : α → Attempt ε S I β} {p : α → Except ε β}
    (h : ∀ a, (f a).run.Passes t (fun found g' => found = p a ∧ g' = g) g) (items : List α) :
    (items.mapM f).run.Passes t (fun found g' => found = items.mapM p ∧ g' = g) g := by
  induction items with
  | nil => exact ⟨rfl, rfl⟩
  | cons a rest ih =>
    rw [List.mapM_cons, List.mapM_cons]
    refine passes_bind ((h a).mono ?_)
    rintro _ _ ⟨rfl, rfl⟩
    cases hFirst : p a with
    | error e => exact ⟨rfl, rfl⟩
    | ok b =>
      refine passes_bind (ih.mono ?_)
      rintro _ _ ⟨rfl, rfl⟩
      cases rest.mapM p with
      | error e => exact ⟨rfl, rfl⟩
      | ok bs => exact ⟨rfl, rfl⟩

theorem passes_items {f : α → Attempt ε S I β} {yields : α → β → Prop}
    (h : ∀ a, (f a).run.Passes t (fun found g' => (∃ b, found = .ok b ∧ yields a b) ∧ g' = g) g) (items : List α) :
    (items.mapM f).run.Passes t (fun found g' => (∃ bs, found = .ok bs ∧ List.Forall₂ yields items bs) ∧ g' = g) g := by
  induction items with
  | nil => exact ⟨⟨[], rfl, .nil⟩, rfl⟩
  | cons a rest ih =>
    rw [List.mapM_cons]
    refine passes_bind ((h a).mono ?_)
    rintro _ _ ⟨⟨b, rfl, hFirst⟩, rfl⟩
    refine passes_bind (ih.mono ?_)
    rintro _ _ ⟨⟨bs, rfl, hRest⟩, rfl⟩
    exact ⟨⟨b :: bs, rfl, .cons hFirst hRest⟩, rfl⟩

end Attempt

/-! Workers that pass through phases -/

section Concert

variable {K L : Type} {ρ : K → Type} [DecidableEq K]

/-- What each worker of a setting passes through. -/
structure Concert (u : Setting K L S I M ρ) (Γ : K → Type) where
  phases : (k : K) → Phases (Γ k) S I
  /-- The phases in which a worker is free. -/
  home : (k : K) → Γ k → Prop
  /-- In which phase a worker is when it is done with a job. -/
  post : (k : K) → L → ρ k → Γ k → Prop

variable {Γ : K → Type} {u : Setting K L S I M ρ} {c : Concert u Γ} {φ : (k : K) → Γ k}
  {past : List (Moment K L S I)} {s s' start : Scene K L S I M ρ} {e : Moment K L S I}

/-- Each worker is at what its phase allows. -/
def Concert.Plays (c : Concert u Γ) (φ : (k : K) → Γ k) (s : Scene K L S I M ρ) (k : K) : Prop :=
  match s.busy k with
  | none => c.home k (φ k)
  | some (job, r) => r.Passes (c.phases k) (c.post k job) (φ k)

/-- What is true of the phases, the past and the state, whatever the workers do of what they are allowed to. -/
structure Concert.Keeps (c : Concert u Γ) (allowed : ((k : K) → Γ k) → Moment K L S I → Prop)
    (holds : ((k : K) → Γ k) → List (Moment K L S I) → S → Prop) : Prop where
  keep : ∀ k, u.keep = (c.phases k).keep
  answered : ∀ k m x a m', u.answers m x a m' → (c.phases k).answered x a
  fits : ∀ {φ past s} k, holds φ past s → (c.phases k).fits (φ k) s
  takes : ∀ {φ past s k job r s'}, holds φ past s → c.home k (φ k) → u.takes k job s r s' →
    allowed φ ⟨.takesUp k job, s, s'⟩ → ∃ g, r.Passes (c.phases k) (c.post k job) g ∧
      holds (Function.update φ k g) (past ++ [⟨.takesUp k job, s, s'⟩]) s'
  goes : ∀ {φ past s k job asked s' g}, holds φ past s → (c.phases k).moves (φ k) asked s s' g →
    allowed φ ⟨.goesOn k job asked, s, s'⟩ →
    holds (Function.update φ k g) (past ++ [⟨.goesOn k job asked, s, s'⟩]) s'
  done : ∀ {φ past s k job a}, holds φ past s → c.post k job a (φ k) →
    c.home k (φ k) ∧ holds φ (past ++ [⟨.isDone k job, s, s⟩]) s
  outside : ∀ {φ past s m s' m'}, holds φ past s → u.outside s m s' m' → holds φ (past ++ [⟨.outside, s, s'⟩]) s'

variable {allowed : ((k : K) → Γ k) → Moment K L S I → Prop} {holds : ((k : K) → Γ k) → List (Moment K L S I) → S → Prop}

theorem Concert.Plays.of_other (h : ∀ k, c.Plays φ s k) {j : K} {g : Γ j} (hOther : ∀ k, k ≠ j → s'.busy k = s.busy k)
    (hHere : c.Plays (Function.update φ j g) s' j) (k : K) : c.Plays (Function.update φ j g) s' k := by
  by_cases hk : k = j
  · exact hk ▸ hHere
  · have hThere := h k
    rw [Plays] at hThere ⊢
    rwa [hOther k hk, Function.update_of_ne hk]

/-- What becomes of the world by a step: only a call that is answered changes it. -/
def Setting.Replied (u : Setting K L S I M ρ) (asked : Option (Asked I)) (m m' : M) : Prop :=
  match asked with
  | none => m' = m
  | some x => u.answers m x.1 x.2 m'

omit [DecidableEq K] in
theorem Setting.replied_of_step {r r' : Routine S I α} {state state' : S} {m m' : M} {asked : Option (Asked I)}
    (h : r.Step u.answers u.keep state m asked r' state' m') : u.Replied asked m m' := by
  cases h with
  | call _ _ hAnswer => exact hAnswer
  | _ => rfl

/-- The same of what is true of the world as well. -/
structure Concert.KeepsIn (c : Concert u Γ) (allowed : ((k : K) → Γ k) → Moment K L S I → Prop)
    (holds : ((k : K) → Γ k) → List (Moment K L S I) → S → M → Prop) : Prop where
  keep : ∀ k, u.keep = (c.phases k).keep
  answered : ∀ k m x a m', u.answers m x a m' → (c.phases k).answered x a
  fits : ∀ {φ past s m} k, holds φ past s m → (c.phases k).fits (φ k) s
  takes : ∀ {φ past s m k job r s'}, holds φ past s m → c.home k (φ k) → u.takes k job s r s' →
    allowed φ ⟨.takesUp k job, s, s'⟩ → ∃ g, r.Passes (c.phases k) (c.post k job) g ∧
      holds (Function.update φ k g) (past ++ [⟨.takesUp k job, s, s'⟩]) s' m
  goes : ∀ {φ past s m k job asked s' m' g}, holds φ past s m → (c.phases k).moves (φ k) asked s s' g →
    u.Replied asked m m' → allowed φ ⟨.goesOn k job asked, s, s'⟩ →
    holds (Function.update φ k g) (past ++ [⟨.goesOn k job asked, s, s'⟩]) s' m'
  done : ∀ {φ past s m k job a}, holds φ past s m → c.post k job a (φ k) →
    c.home k (φ k) ∧ holds φ (past ++ [⟨.isDone k job, s, s⟩]) s m
  outside : ∀ {φ past s m s' m'}, holds φ past s m → u.outside s m s' m' → holds φ (past ++ [⟨.outside, s, s'⟩]) s' m'

theorem Concert.Keeps.keepsIn (h : c.Keeps allowed holds) : c.KeepsIn allowed fun φ past s _ => holds φ past s where
  keep := h.keep
  answered := h.answered
  fits := h.fits
  takes := h.takes
  goes hHolds hMoves _ := h.goes hHolds hMoves
  done := h.done
  outside := h.outside

section World

variable {holdsIn : ((k : K) → Γ k) → List (Moment K L S I) → S → M → Prop}

theorem Concert.KeepsIn.goesOn (hKeeps : c.KeepsIn allowed holdsIn) (hPlays : ∀ k, c.Plays φ s k)
    (hHolds : holdsIn φ past s.state s.world) {k : K} {job : L} {r r' : Routine S I (ρ k)} {asked : Option (Asked I)}
    {state : S} {world : M} (hBusy : s.busy k = some (job, r))
    (hStep : r.Step u.answers u.keep s.state s.world asked r' state world)
    (hAllowed : allowed φ ⟨.goesOn k job asked, s.state, state⟩) :
    ∃ g, (c.phases k).moves (φ k) asked s.state state g ∧
      (∀ j, c.Plays (Function.update φ k g) { s.put k (some (job, r')) with state, world } j) ∧
      holdsIn (Function.update φ k g) (past ++ [⟨.goesOn k job asked, s.state, state⟩]) state world := by
  have hHere := hPlays k
  rw [Concert.Plays, hBusy] at hHere
  obtain ⟨g, hMoves, hPasses⟩ := hStep.passes hHere (hKeeps.fits k hHolds) (hKeeps.keep k) (hKeeps.answered k)
  refine ⟨g, hMoves, Concert.Plays.of_other hPlays (fun j hj => Scene.busy_put_of_ne hj ..) ?_,
    hKeeps.goes hHolds hMoves (Setting.replied_of_step hStep) hAllowed⟩
  simpa [Concert.Plays, Scene.put] using hPasses

/-- A worker whose turn it is not stays in its phase. -/
theorem Concert.KeepsIn.step (hKeeps : c.KeepsIn allowed holdsIn) (hPlays : ∀ k, c.Plays φ s k)
    (hHolds : holdsIn φ past s.state s.world) (hHappens : u.Happens s e s') (hAllowed : allowed φ e) :
    ∃ φ', (∀ k, c.Plays φ' s' k) ∧ holdsIn φ' (past ++ [e]) s'.state s'.world ∧
      ∀ k, e.turn.worker? ≠ some k → φ' k = φ k := by
  have hOthers : ∀ {k} (g : Γ k) (j : K), some k ≠ some j → Function.update φ k g j = φ j := fun g j hj =>
    Function.update_of_ne (fun hEq => hj (congrArg some hEq.symm)) ..
  cases hHappens with
  | @takesUp k job r state hFree hTakes =>
    have hHome := hPlays k
    rw [Concert.Plays, hFree] at hHome
    obtain ⟨g, hPasses, hNext⟩ := hKeeps.takes hHolds hHome hTakes hAllowed
    refine ⟨_, Concert.Plays.of_other hPlays (fun j hj => Scene.busy_put_of_ne hj ..) ?_, hNext, hOthers g⟩
    simpa [Concert.Plays, Scene.put] using hPasses
  | goesOn hBusy hStep =>
    obtain ⟨g, -, hPlays', hNext⟩ := hKeeps.goesOn hPlays hHolds hBusy hStep hAllowed
    exact ⟨_, hPlays', hNext, hOthers g⟩
  | @isDone k job a hBusy =>
    have hHere := hPlays k
    rw [Concert.Plays, hBusy] at hHere
    obtain ⟨hHome, hNext⟩ := hKeeps.done hHolds hHere
    refine ⟨φ, fun j => ?_, hNext, fun _ _ => rfl⟩
    by_cases hj : j = k
    · subst hj
      simpa [Concert.Plays] using hHome
    · have hThere := hPlays j
      rw [Concert.Plays] at hThere ⊢
      rwa [Scene.busy_put_of_ne hj]
  | outside hOutside => exact ⟨φ, hPlays, hKeeps.outside hHolds hOutside, fun _ _ => rfl⟩

/-- What holds of the world in a scene holds along every run from there, and a worker that does nothing stays in its
phase. -/
theorem Setting.Leads.plays_from (hLeads : u.Leads start past s) (hKeeps : c.KeepsIn (fun _ _ => True) holdsIn)
    {before : List (Moment K L S I)} (hPlays : ∀ k, c.Plays φ start k) (hHolds : holdsIn φ before start.state start.world) :
    ∃ φ', (∀ k, c.Plays φ' s k) ∧ holdsIn φ' (before ++ past) s.state s.world ∧
      ∀ k, (∀ e ∈ past, e.turn.worker? ≠ some k) → φ' k = φ k := by
  induction hLeads with
  | nil => exact ⟨φ, hPlays, by rwa [List.append_nil], fun _ _ => rfl⟩
  | snoc _ hHappens ih =>
    obtain ⟨φ', hPlays', hHere, hSame⟩ := ih
    obtain ⟨φ'', hPlays'', hNext, hStays⟩ := hKeeps.step hPlays' hHere hHappens trivial
    refine ⟨φ'', hPlays'', by rwa [← List.append_assoc], fun k hk => ?_⟩
    exact (hStays k (hk _ (by simp))).trans (hSame k fun e he => hk e (by simp [he]))

/-- What holds of the world in the beginning holds along every run. -/
theorem Setting.Leads.plays_in (hLeads : u.Leads start past s) (hKeeps : c.KeepsIn (fun _ _ => True) holdsIn)
    (hIdle : ∀ k, start.busy k = none) (hHome : ∀ k, c.home k (φ k)) (hHolds : holdsIn φ [] start.state start.world) :
    ∃ φ', (∀ k, c.Plays φ' s k) ∧ holdsIn φ' past s.state s.world := by
  have hBegins : ∀ k, c.Plays φ start k := by
    intro k
    rw [Concert.Plays, hIdle k]
    exact hHome k
  obtain ⟨φ', hPlays, hHere, -⟩ := hLeads.plays_from hKeeps hBegins hHolds
  exact ⟨φ', hPlays, hHere⟩

end World

theorem Concert.Keeps.goesOn (hKeeps : c.Keeps allowed holds) (hPlays : ∀ k, c.Plays φ s k) (hHolds : holds φ past s.state)
    {k : K} {job : L} {r r' : Routine S I (ρ k)} {asked : Option (Asked I)} {state : S} {world : M}
    (hBusy : s.busy k = some (job, r)) (hStep : r.Step u.answers u.keep s.state s.world asked r' state world)
    (hAllowed : allowed φ ⟨.goesOn k job asked, s.state, state⟩) :
    ∃ g, (c.phases k).moves (φ k) asked s.state state g ∧
      (∀ j, c.Plays (Function.update φ k g) { s.put k (some (job, r')) with state, world } j) ∧
      holds (Function.update φ k g) (past ++ [⟨.goesOn k job asked, s.state, state⟩]) state :=
  hKeeps.keepsIn.goesOn hPlays hHolds hBusy hStep hAllowed

theorem Concert.Keeps.step (hKeeps : c.Keeps allowed holds) (hPlays : ∀ k, c.Plays φ s k) (hHolds : holds φ past s.state)
    (hHappens : u.Happens s e s') (hAllowed : allowed φ e) :
    ∃ φ', (∀ k, c.Plays φ' s' k) ∧ holds φ' (past ++ [e]) s'.state := by
  obtain ⟨φ', hPlays', hNext, -⟩ := hKeeps.keepsIn.step hPlays hHolds hHappens hAllowed
  exact ⟨φ', hPlays', hNext⟩

/-- What holds in a scene in which all workers play their parts holds along every run from there that keeps to a rule. -/
theorem Setting.LeadsBy.plays_on {rule : Scene K L S I M ρ → Moment K L S I → Prop} (hLeads : u.LeadsBy rule start past s)
    (hKeeps : c.Keeps allowed holds)
    (hRule : ∀ {φ past s e}, (∀ k, c.Plays φ s k) → holds φ past s.state → rule s e → allowed φ e)
    (hPlays : ∀ k, c.Plays φ start k) (hHolds : holds φ [] start.state) :
    ∃ φ', (∀ k, c.Plays φ' s k) ∧ holds φ' past s.state := by
  induction hLeads with
  | nil => exact ⟨φ, hPlays, hHolds⟩
  | snoc _ hHappens hRuled ih =>
    obtain ⟨φ', hPlays, hHere⟩ := ih
    exact hKeeps.step hPlays hHere hHappens (hRule hPlays hHere hRuled)

theorem Setting.LeadsBy.plays {rule : Scene K L S I M ρ → Moment K L S I → Prop} (hLeads : u.LeadsBy rule start past s)
    (hKeeps : c.Keeps allowed holds)
    (hRule : ∀ {φ past s e}, (∀ k, c.Plays φ s k) → holds φ past s.state → rule s e → allowed φ e)
    (hIdle : ∀ k, start.busy k = none) (hHome : ∀ k, c.home k (φ k)) (hHolds : holds φ [] start.state) :
    ∃ φ', (∀ k, c.Plays φ' s k) ∧ holds φ' past s.state := by
  refine hLeads.plays_on hKeeps hRule (fun k => ?_) hHolds
  rw [Concert.Plays, hIdle k]
  exact hHome k

/-- What holds in the beginning holds along every run. -/
theorem Setting.Leads.plays (hLeads : u.Leads start past s) (hKeeps : c.Keeps (fun _ _ => True) holds)
    (hIdle : ∀ k, start.busy k = none) (hHome : ∀ k, c.home k (φ k)) (hHolds : holds φ [] start.state) :
    ∃ φ', (∀ k, c.Plays φ' s k) ∧ holds φ' past s.state :=
  hLeads.by_rule.plays hKeeps (fun _ _ _ => trivial) hIdle hHome hHolds

/-- A worker comes to the end of its job by itself if whatever it may wait for is there, and if what it does keeps it
there. -/
theorem Concert.Keeps.ends (hKeeps : c.Keeps (fun _ _ => True) holds) {k : K} {job : L} {awaited : S → Bool} {free : S → Prop}
    (hReady : ∀ {φ past s}, holds φ past s → (c.phases k).waits (φ k) → free s → awaited s = true)
    (hFree : ∀ {φ : (k : K) → Γ k} {asked s s' g}, (c.phases k).moves (φ k) asked s s' g → free s → free s')
    (hAnswers : ∀ m x, ∃ a m', u.answers m x a m') {r : Routine S I (ρ k)} (hWaits : r.WaitsFor awaited)
    (hPlays : ∀ k, c.Plays φ s k) (hHolds : holds φ past s.state) (hBusy : s.busy k = some (job, r)) (hHere : free s.state) :
    u.Ends k job s := by
  have hOn : ∀ {r r' : Routine S I (ρ k)} {φ past s asked state world}, (∀ k, c.Plays φ s k) → holds φ past s.state →
      s.busy k = some (job, r) → free s.state → r.Step u.answers u.keep s.state s.world asked r' state world →
      ∃ φ' past', (∀ j, c.Plays φ' { s.put k (some (job, r')) with state, world } j) ∧ holds φ' past' state ∧ free state := by
    intro r r' φ past s asked state world hPlays hHolds hBusy hHere hStep
    obtain ⟨g, hMoves, hPlays', hHolds'⟩ := hKeeps.goesOn hPlays hHolds hBusy hStep trivial
    exact ⟨_, _, hPlays', hHolds', hFree hMoves hHere⟩
  induction r generalizing φ past s with
  | done a => exact .done hBusy
  | atomic change next ih =>
    refine .of_steps hBusy nofun ⟨_, _, _, _, .atomic change next _ _⟩ fun hStep => ?_
    obtain ⟨φ', past', hPlays', hHolds', hHere'⟩ := hOn hPlays hHolds hBusy hHere hStep
    cases hStep with
    | atomic => exact ih _ (hWaits _) hPlays' hHolds' (s.busy_put k _) hHere'
  | wait ready change limit next ih =>
    obtain ⟨rfl, hNext⟩ := hWaits
    have hNow := hPlays k
    rw [Concert.Plays, hBusy] at hNow
    have hAwaited := hReady hHolds hNow.1 hHere
    refine .of_steps hBusy nofun ⟨_, _, _, _, .ready change limit next _ hAwaited⟩ fun hStep => ?_
    obtain ⟨φ', past', hPlays', hHolds', hHere'⟩ := hOn hPlays hHolds hBusy hHere hStep
    cases hStep with
    | ready => exact ih true (hNext true) hPlays' hHolds' (s.busy_put k _) hHere'
    | expired => exact ih false (hNext false) hPlays' hHolds' (s.busy_put k _) hHere'
  | call x next ih =>
    obtain ⟨a, m', hAnswer⟩ := hAnswers s.world x
    refine .of_steps hBusy nofun ⟨_, _, _, _, .call next _ hAnswer⟩ fun hStep => ?_
    obtain ⟨φ', past', hPlays', hHolds', hHere'⟩ := hOn hPlays hHolds hBusy hHere hStep
    cases hStep with
    | call => exact ih _ (hWaits _) hPlays' hHolds' (s.busy_put k _) hHere'
  | note x next ih =>
    refine .of_steps hBusy nofun ⟨_, _, _, _, .note x next _ _⟩ fun hStep => ?_
    obtain ⟨φ', past', hPlays', hHolds', hHere'⟩ := hOn hPlays hHolds hBusy hHere hStep
    cases hStep with
    | note => exact ih hWaits hPlays' hHolds' (s.busy_put k _) hHere'

end Concert
end JvmDebug
