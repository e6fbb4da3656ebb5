import JvmDebug.Routine.Basic

/-!
# What a routine comes to

A routine is run against a world that answers its calls, each answer being one that the world allows where it then
stands. `Ensures` speaks of all the answers that may come, `Run` of the ones that did come; what is ensured holds after
every run. Every routine that never has to wait comes to an end, so that `Ensures` also says that it does.
-/

namespace JvmDebug
set_option autoImplicit false

/-- The answers that a world may give to a call where it stands, and where it stands then. -/
abbrev Answering (I : Interface) (M : Type) := M → (c : I.Call) → I.Answer c → M → Prop

namespace Routine

variable {S M : Type} {I : Interface} {α β : Type} {answers : Answering I M}

/-- Whatever is answered, the routine never has to wait, and it ends as `post` says. -/
def Ensures (answers : Answering I M) (post : α → S → M → Prop) : Routine S I α → S → M → Prop
  | .done a, s, m => post a s m
  | .atomic change next, s, m => Ensures answers post (next s) (change s) m
  | .wait ready change _ next, s, m => ready s = true ∧ Ensures answers post (next true) (change s) m
  | .call c next, s, m => ∀ a m', answers m c a m' → Ensures answers post (next a) s m'
  | .note _ next, s, m => Ensures answers post next s m

/-- One way in which a routine may go from beginning to end. -/
inductive Run (answers : Answering I M) : Routine S I α → S → M → α → S → M → Prop where
  | done {a : α} {s : S} {m : M} : Run answers (.done a) s m a s m
  | atomic {change : S → S} {next : S → Routine S I α} {s s' : S} {m m' : M} {a : α} :
      Run answers (next s) (change s) m a s' m' → Run answers (.atomic change next) s m a s' m'
  | wait {ready : S → Bool} {change : S → S} {limit : Option Nat} {next : Bool → Routine S I α} {s s' : S} {m m' : M}
      {a : α} : ready s = true → Run answers (next true) (change s) m a s' m' →
        Run answers (.wait ready change limit next) s m a s' m'
  | call {c : I.Call} {next : I.Answer c → Routine S I α} {x : I.Answer c} {s s' : S} {m m₁ m' : M} {a : α} :
      answers m c x m₁ → Run answers (next x) s m₁ a s' m' → Run answers (.call c next) s m a s' m'
  | note {r : Log.Record} {next : Routine S I α} {s s' : S} {m m' : M} {a : α} :
      Run answers next s m a s' m' → Run answers (.note r next) s m a s' m'

theorem Run.satisfies {post : α → S → M → Prop} {r : Routine S I α} {s s' : S} {m m' : M} {a : α}
    (run : Run answers r s m a s' m') (h : Ensures answers post r s m) : post a s' m' := by
  induction run with
  | done => exact h
  | atomic _ ih => exact ih h
  | wait _ _ ih => exact ih h.2
  | call hAnswer _ ih => exact ih (h _ _ hAnswer)
  | note _ ih => exact ih h

theorem Run.weaken {answers' : Answering I M} (hSub : ∀ m c a m', answers' m c a m' → answers m c a m')
    {r : Routine S I α} {s s' : S} {m m' : M} {a : α} (run : Run answers' r s m a s' m') :
    Run answers r s m a s' m' := by
  induction run with
  | done => exact .done
  | atomic _ ih => exact .atomic ih
  | wait hReady _ ih => exact .wait hReady ih
  | call hAnswer _ ih => exact .call (hSub _ _ _ _ hAnswer) ih
  | note _ ih => exact .note ih

theorem Run.keeps {keeps : M → Prop} (hStep : ∀ m c a m', keeps m → answers m c a m' → keeps m')
    {r : Routine S I α} {s s' : S} {m m' : M} {a : α} (run : Run answers r s m a s' m') (hm : keeps m) : keeps m' := by
  induction run with
  | done => exact hm
  | atomic _ ih => exact ih hm
  | wait _ _ ih => exact ih hm
  | call hAnswer _ ih => exact ih (hStep _ _ _ _ hm hAnswer)
  | note _ ih => exact ih hm

theorem Ensures.mono {post post' : α → S → M → Prop} (hPost : ∀ a s m, post a s m → post' a s m)
    {r : Routine S I α} {s : S} {m : M} (h : Ensures answers post r s m) : Ensures answers post' r s m := by
  induction r generalizing s m with
  | done => exact hPost _ _ _ h
  | atomic _ _ ih => exact ih _ h
  | wait _ _ _ _ ih => exact ⟨h.1, ih _ h.2⟩
  | call _ _ ih => exact fun a m' hAnswer => ih a (h a m' hAnswer)
  | note _ _ ih => exact ih h

theorem Ensures.bind {post : β → S → M → Prop} {r : Routine S I α} {k : α → Routine S I β} {s : S} {m : M}
    (h : Ensures answers (fun a s m => Ensures answers post (k a) s m) r s m) :
    Ensures answers post (r >>= k) s m := by
  change Ensures answers post (r.bind k) s m
  induction r generalizing s m with
  | done => exact h
  | atomic _ _ ih => exact ih _ h
  | wait _ _ _ _ ih => exact ⟨h.1, ih _ h.2⟩
  | call _ _ ih => exact fun a m' hAnswer => ih a (h a m' hAnswer)
  | note _ _ ih => exact ih h

theorem Ensures.restrict {answers' : Answering I M} (hSub : ∀ m c a m', answers' m c a m' → answers m c a m')
    {post : α → S → M → Prop} {r : Routine S I α} {s : S} {m : M} (h : Ensures answers post r s m) :
    Ensures answers' post r s m := by
  induction r generalizing s m with
  | done => exact h
  | atomic _ _ ih => exact ih _ h
  | wait _ _ _ _ ih => exact ⟨h.1, ih _ h.2⟩
  | call _ _ ih => exact fun a m' hAnswer => ih a (h a m' (hSub _ _ _ _ hAnswer))
  | note _ _ ih => exact ih h

/-- What every answer keeps true of the world is true of it at the end. -/
theorem Ensures.keeping {keeps : M → Prop} (hStep : ∀ m c a m', keeps m → answers m c a m' → keeps m')
    {post : α → S → M → Prop} {r : Routine S I α} {s : S} {m : M} (hm : keeps m) (h : Ensures answers post r s m) :
    Ensures answers (fun a s m => keeps m ∧ post a s m) r s m := by
  induction r generalizing s m with
  | done => exact ⟨hm, h⟩
  | atomic _ _ ih => exact ih _ hm h
  | wait _ _ _ _ ih => exact ⟨h.1, ih _ hm h.2⟩
  | call _ _ ih => exact fun a m' hAnswer => ih a (hStep _ _ _ _ hm hAnswer) (h a m' hAnswer)
  | note _ _ ih => exact ih hm h

/-- Nowhere does the routine wait. -/
def Unwaiting : Routine S I α → Prop
  | .done _ => True
  | .atomic _ next => ∀ s, Unwaiting (next s)
  | .wait .. => False
  | .call _ next => ∀ a, Unwaiting (next a)
  | .note _ next => Unwaiting next

theorem Unwaiting.bind {r : Routine S I α} {k : α → Routine S I β} (h : r.Unwaiting) (hNext : ∀ a, (k a).Unwaiting) :
    (r >>= k).Unwaiting := by
  change (r.bind k).Unwaiting
  induction r with
  | done a => exact hNext a
  | atomic _ _ ih => exact fun s => ih s (h s)
  | wait _ _ _ _ _ => exact h.elim
  | call _ _ ih => exact fun a => ih a (h a)
  | note _ _ ih => exact ih h

theorem Unwaiting.map {r : Routine S I α} {f : α → β} (h : r.Unwaiting) : (f <$> r).Unwaiting := by
  rw [map_eq_pure_bind]
  exact h.bind fun _ => trivial

theorem Unwaiting.zoom {T : Type} {view : T → S} {put : S → T → T} {r : Routine S I α} (h : r.Unwaiting) :
    (r.zoom view put).Unwaiting := by
  induction r with
  | done _ => trivial
  | atomic _ _ ih => exact fun s => ih _ (h (view s))
  | wait => exact h.elim
  | call _ _ ih => exact fun a => ih a (h a)
  | note _ _ ih => exact ih h

theorem Unwaiting.interpret {J : Interface} {answer : (c : I.Call) → Routine S J (I.Answer c)} {r : Routine S I α}
    (h : r.Unwaiting) (hAnswer : ∀ c, (answer c).Unwaiting) : (r.interpret answer).Unwaiting := by
  induction r with
  | done _ => trivial
  | atomic _ _ ih => exact fun s => ih s (h s)
  | wait => exact h.elim
  | call c _ ih => exact (hAnswer c).bind fun a => ih a (h a)
  | note _ _ ih => exact ih h

/-- The routine asks nothing, and each of its waits has a limit. -/
def Prompt : Routine S I α → Prop
  | .done _ => True
  | .atomic _ next => ∀ s, Prompt (next s)
  | .wait _ _ limit next => limit.isSome ∧ ∀ x, Prompt (next x)
  | .call .. => False
  | .note _ next => Prompt next

theorem Prompt.bind {r : Routine S I α} {k : α → Routine S I β} (h : r.Prompt) (hNext : ∀ a, (k a).Prompt) :
    (r >>= k).Prompt := by
  change (r.bind k).Prompt
  induction r with
  | done a => exact hNext a
  | atomic _ _ ih => exact fun s => ih s (h s)
  | wait _ _ _ _ ih => exact ⟨h.1, fun x => ih x (h.2 x)⟩
  | call => exact h.elim
  | note _ _ ih => exact ih h

/-- Wherever the routine waits, it waits until the state is as awaited. -/
def WaitsFor (awaited : S → Bool) : Routine S I α → Prop
  | .done _ => True
  | .atomic _ next => ∀ s, WaitsFor awaited (next s)
  | .wait ready _ _ next => ready = awaited ∧ ∀ x, WaitsFor awaited (next x)
  | .call _ next => ∀ a, WaitsFor awaited (next a)
  | .note _ next => WaitsFor awaited next

theorem Unwaiting.waitsFor {awaited : S → Bool} {r : Routine S I α} (h : r.Unwaiting) : r.WaitsFor awaited := by
  induction r with
  | done _ => trivial
  | atomic _ _ ih => exact fun s => ih s (h s)
  | wait => exact h.elim
  | call _ _ ih => exact fun a => ih a (h a)
  | note _ _ ih => exact ih h

theorem WaitsFor.bind {awaited : S → Bool} {r : Routine S I α} {k : α → Routine S I β} (h : r.WaitsFor awaited)
    (hNext : ∀ a, (k a).WaitsFor awaited) : (r >>= k).WaitsFor awaited := by
  change (r.bind k).WaitsFor awaited
  induction r with
  | done a => exact hNext a
  | atomic _ _ ih => exact fun s => ih s (h s)
  | wait _ _ _ _ ih => exact ⟨h.1, fun x => ih x (h.2 x)⟩
  | call _ _ ih => exact fun a => ih a (h a)
  | note _ _ ih => exact ih h

/-- Where the world's answers are computed, going on with them until the end is a run. -/
theorem Run.of_advance {answer : (c : I.Call) → StateT M Option (I.Answer c)}
    (sound : ∀ c m a m', (answer c).run m = some (a, m') → answers m c a m')
    {r : Routine S I α} {s s' : S} {m m' : M} {a : α}
    (h : (advance answer (fun _ s => s) r s).run m = some ((.done a, s'), m')) : Run answers r s m a s' m' := by
  induction r generalizing s m with
  | done b =>
    cases h
    exact .done
  | atomic _ _ ih => exact .atomic (ih _ h)
  | wait ready change limit next ih =>
    rw [advance] at h
    split at h
    · exact .wait ‹_› (ih _ h)
    · cases h
  | call c next ih =>
    obtain ⟨⟨x, m₁⟩, hx, h⟩ := Option.bind_eq_some_iff.mp h
    exact .call (sound c m x m₁ hx) (ih x h)
  | note _ _ ih => exact .note (ih h)

/-- Where the world's answers are computed, what is ensured comes to be. -/
theorem Ensures.advance {answer : (c : I.Call) → StateM M (I.Answer c)} {post : α → S → M → Prop} {r : Routine S I α}
    {s : S} {m : M} (h : Ensures (fun m c a m' => (answer c).run m = (a, m')) post r s m) :
    ∃ a s' m', (Routine.advance answer (fun _ s => s) r s).run m = ((.done a, s'), m') ∧ post a s' m' := by
  induction r generalizing s m with
  | done a => exact ⟨a, s, m, rfl, h⟩
  | atomic _ _ ih => exact ih _ h
  | wait ready change limit next ih =>
    obtain ⟨a, s', m', hRun, hPost⟩ := ih true h.2
    refine ⟨a, s', m', ?_, hPost⟩
    rw [Routine.advance, if_pos h.1, hRun]
  | call c next ih => exact ih _ (h _ _ rfl)
  | note _ _ ih => exact ih h

end Routine

/-! Routines that may fail -/

namespace Attempt

variable {S M : Type} {I : Interface} {α β ε : Type} {w : Attempt ε S I α} {k : α → Attempt ε S I β}
  {answers : Answering I M} {post : Except ε β → S → M → Prop} {s : S} {m : M}

theorem ensures_bind (h : Routine.Ensures answers (fun e s m => match e with
      | .ok a => Routine.Ensures answers post (k a).run s m
      | .error x => post (.error x) s m) w.run s m) : Routine.Ensures answers post (w >>= k).run s m := by
  refine Routine.Ensures.bind (Routine.Ensures.mono ?_ h)
  rintro (x | a) s m hNext <;> exact hNext

/-- After what cannot fail. -/
theorem ensures_after {r : Routine S I α}
    (h : Routine.Ensures answers (fun a s m => Routine.Ensures answers post (k a).run s m) r s m) :
    Routine.Ensures answers post (ExceptT.lift r >>= k).run s m := by
  refine ensures_bind ?_
  change Routine.Ensures _ _ (Except.ok <$> r) s m
  rw [map_eq_pure_bind]
  exact Routine.Ensures.bind h

theorem ensures_get {k : S → Attempt ε S I β} (h : Routine.Ensures answers post (k s).run s m) :
    Routine.Ensures answers post (ExceptT.lift Routine.get >>= k).run s m :=
  ensures_after h

theorem ensures_modify {change : S → S} {k : Unit → Attempt ε S I β}
    (h : Routine.Ensures answers post (k ()).run (change s) m) :
    Routine.Ensures answers post (ExceptT.lift (Routine.modify change) >>= k).run s m :=
  ensures_after h

theorem ensures_mapError {δ : Type} {f : δ → ε} {w : Attempt δ S I β}
    (h : Routine.Ensures answers (fun a s m => post (a.mapError f) s m) w.run s m) :
    Routine.Ensures answers post (w.mapError f).run s m := by
  change Routine.Ensures _ _ (Except.mapError f <$> w.run) s m
  rw [map_eq_pure_bind]
  exact Routine.Ensures.bind h

theorem unwaiting_bind (h : w.run.Unwaiting) (hNext : ∀ a, (k a).run.Unwaiting) : (w >>= k).run.Unwaiting := by
  refine Routine.Unwaiting.bind h ?_
  rintro (e | a)
  · trivial
  · exact hNext a

theorem prompt_bind (h : w.run.Prompt) (hNext : ∀ a, (k a).run.Prompt) : (w >>= k).run.Prompt := by
  refine Routine.Prompt.bind h ?_
  rintro (e | a)
  · trivial
  · exact hNext a

theorem prompt_mapM {f : α → Attempt ε S I β} (h : ∀ a, (f a).run.Prompt) (items : List α) : (items.mapM f).run.Prompt := by
  induction items with
  | nil => trivial
  | cons a rest ih =>
    rw [List.mapM_cons]
    exact prompt_bind (h a) fun _ => prompt_bind ih fun _ => trivial

theorem waitsFor_bind {awaited : S → Bool} (h : w.run.WaitsFor awaited) (hNext : ∀ a, (k a).run.WaitsFor awaited) :
    (w >>= k).run.WaitsFor awaited := by
  refine Routine.WaitsFor.bind h ?_
  rintro (e | a)
  · trivial
  · exact hNext a

end Attempt
end JvmDebug
