import JvmDebug.Proofs.Routine.Scene

/-!
# What a routine does at most

The changes that a routine makes and the calls that it asks, wherever it finds the state and whatever it is answered,
and what it may yield then. Nothing is said about the state itself, so that it does not matter who else changes it.
-/

namespace JvmDebug
set_option autoImplicit false

structure Bounds (S : Type) (I : Interface) where
  changes : S → S → Prop
  calls : I.Call → Prop
  keep : Log.Record → S → S

variable {S T : Type} {I J : Interface} {α β ε δ : Type} {b b' : Bounds S I}

namespace Routine

/-- The routine changes and asks no more than `b` allows, and what it yields is as `post` says. -/
def Within (b : Bounds S I) (post : α → Prop) : Routine S I α → Prop
  | .done a => post a
  | .atomic change next => ∀ s, b.changes s (change s) ∧ Within b post (next s)
  | .wait ready change limit next =>
    (∀ s, (ready s = true → b.changes s (change s)) ∧ (limit.isSome → b.changes s s)) ∧ ∀ x, Within b post (next x)
  | .call c next => b.calls c ∧ (∀ s, b.changes s s) ∧ ∀ a, Within b post (next a)
  | .note r next => (∀ s, b.changes s (b.keep r s)) ∧ Within b post next

/-- What a routine may yield, wherever it finds the state and whatever it is answered. -/
inductive MayYield : Routine S I α → α → Prop where
  | done (a : α) : MayYield (.done a) a
  | atomic {change : S → S} {next : S → Routine S I α} {a : α} (s : S) :
      MayYield (next s) a → MayYield (.atomic change next) a
  | wait {ready : S → Bool} {change : S → S} {limit : Option Nat} {next : Bool → Routine S I α} {a : α} (x : Bool) :
      MayYield (next x) a → MayYield (.wait ready change limit next) a
  | call {c : I.Call} {next : I.Answer c → Routine S I α} {a : α} (x : I.Answer c) :
      MayYield (next x) a → MayYield (.call c next) a
  | note {r : Log.Record} {next : Routine S I α} {a : α} : MayYield next a → MayYield (.note r next) a

variable {post post' : α → Prop} {r : Routine S I α}

theorem Within.mono (hPost : ∀ a, post a → post' a) (h : r.Within b post) : r.Within b post' := by
  induction r with
  | done a => exact hPost a h
  | atomic _ _ ih => exact fun s => ⟨(h s).1, ih s (h s).2⟩
  | wait _ _ _ _ ih => exact ⟨h.1, fun x => ih x (h.2 x)⟩
  | call _ _ ih => exact ⟨h.1, h.2.1, fun a => ih a (h.2.2 a)⟩
  | note _ _ ih => exact ⟨h.1, ih h.2⟩

theorem Within.weaken (hChanges : ∀ s s', b.changes s s' → b'.changes s s') (hCalls : ∀ c, b.calls c → b'.calls c)
    (hKeep : b.keep = b'.keep) (h : r.Within b post) : r.Within b' post := by
  induction r with
  | done a => exact h
  | atomic _ _ ih => exact fun s => ⟨hChanges _ _ (h s).1, ih s (h s).2⟩
  | wait _ _ _ _ ih =>
    refine ⟨fun s => ⟨fun hr => ?_, fun hl => ?_⟩, fun x => ih x (h.2 x)⟩
    · exact hChanges _ _ ((h.1 s).1 hr)
    · exact hChanges _ _ ((h.1 s).2 hl)
  | call _ _ ih => exact ⟨hCalls _ h.1, fun s => hChanges _ _ (h.2.1 s), fun a => ih a (h.2.2 a)⟩
  | note _ _ ih => exact ⟨fun s => hKeep ▸ hChanges _ _ (h.1 s), ih h.2⟩

theorem Within.yields (h : r.Within b post) {a : α} (ha : r.MayYield a) : post a := by
  induction ha with
  | done _ => exact h
  | atomic s _ ih => exact ih (h s).2
  | wait x _ ih => exact ih (h.2 x)
  | call x _ ih => exact ih (h.2.2 x)
  | note _ ih => exact ih h.2

/-- One step, and what is left to be done, keeps within the same bounds. -/
theorem Within.step {M : Type} {answers : Answering I M} {r' : Routine S I α} {s s' : S} {m m' : M}
    {asked : Option (Asked I)} (h : r.Within b post) (hStep : r.Step answers b.keep s m asked r' s' m') :
    b.changes s s' ∧ r'.Within b post ∧ (∀ x ∈ asked, b.calls x.1) ∧ (asked = none → m' = m) := by
  cases hStep with
  | atomic change next => exact ⟨(h s).1, (h s).2, nofun, fun _ => rfl⟩
  | ready change limit next _ hReady => exact ⟨(h.1 s).1 hReady, h.2 true, nofun, fun _ => rfl⟩
  | expired ready change limit next => exact ⟨(h.1 s).2 rfl, h.2 false, nofun, fun _ => rfl⟩
  | call next _ hAnswer =>
    refine ⟨h.2.1 s, h.2.2 _, ?_, nofun⟩
    rintro x ⟨⟩
    exact h.1
  | note record next => exact ⟨h.1 s, h.2, nofun, fun _ => rfl⟩

/-- What it comes to in a state with some answers is one of them. -/
theorem mayYield_of_advance {answer : (c : I.Call) → I.Answer c} {keep : Log.Record → S → S} {r : Routine S I α} {s : S}
    {a : α} (h : (r.advance (m := Id) answer keep s).1.result? = some a) : r.MayYield a := by
  induction r generalizing s with
  | done b =>
    obtain rfl : b = a := Option.some.inj h
    exact .done b
  | atomic _ _ ih => exact .atomic s (ih s h)
  | wait ready change limit next ih =>
    simp only [advance] at h
    split at h
    · exact .wait true (ih true h)
    · cases h
  | call c next ih => exact .call (answer c) (ih _ h)
  | note _ _ ih => exact .note (ih h)

@[simp] theorem within_pure {a : α} : (pure a : Routine S I α).Within b post ↔ post a := Iff.rfl

@[simp] theorem within_bind {post : β → Prop} {k : α → Routine S I β} :
    (r >>= k).Within b post ↔ r.Within b fun a => (k a).Within b post := by
  change (r.bind k).Within b post ↔ _
  induction r with
  | done a => rfl
  | atomic _ _ ih => exact forall_congr' fun s => and_congr_right fun _ => ih s
  | wait _ _ _ _ ih => exact and_congr_right fun _ => forall_congr' ih
  | call _ _ ih => exact and_congr_right fun _ => and_congr_right fun _ => forall_congr' ih
  | note _ _ ih => exact and_congr_right fun _ => ih

@[simp] theorem within_map {post : β → Prop} {f : α → β} :
    (f <$> r).Within b post ↔ r.Within b fun a => post (f a) := by
  rw [map_eq_pure_bind]
  exact within_bind

@[simp] theorem within_get {post : S → Prop} :
    (get : Routine S I S).Within b post ↔ ∀ s, b.changes s s ∧ post s := Iff.rfl

@[simp] theorem within_gets {f : S → α} : (gets f : Routine S I α).Within b post ↔ ∀ s, b.changes s s ∧ post (f s) :=
  Iff.rfl

@[simp] theorem within_modify {change : S → S} {post : Unit → Prop} :
    (modify change : Routine S I Unit).Within b post ↔ ∀ s, b.changes s (change s) ∧ post () := Iff.rfl

@[simp] theorem within_modifyGet {f : S → α × S} :
    (modifyGet f : Routine S I α).Within b post ↔ ∀ s, b.changes s (f s).2 ∧ post (f s).1 := Iff.rfl

@[simp] theorem within_ask {c : I.Call} {post : I.Answer c → Prop} :
    (ask c : Routine S I _).Within b post ↔ b.calls c ∧ (∀ s, b.changes s s) ∧ ∀ a, post a := Iff.rfl

@[simp] theorem within_log {level : Log.Level} {part : Log.Part} {text : String} {post : Unit → Prop} :
    (log level part text : Routine S I Unit).Within b post ↔
      (∀ s, b.changes s (b.keep ⟨level, part, text⟩ s)) ∧ post () := Iff.rfl

@[simp] theorem within_waitUpTo {limit : Nat} {ready : S → Bool} {post : Bool → Prop} :
    (waitUpTo limit ready : Routine S I Bool).Within b post ↔ (∀ s, b.changes s s) ∧ ∀ x, post x := by
  simp only [waitUpTo, Within, id_eq, Option.isSome_some, forall_const, and_congr_left_iff]
  exact fun _ => ⟨fun h s => (h s).2, fun h s => ⟨fun _ => h s, h s⟩⟩

/-- Where it does not matter what a routine yields. -/
theorem within_then {post : β → Prop} {k : α → Routine S I β} (hFirst : r.Within b fun _ => True)
    (hNext : ∀ a, (k a).Within b post) : (r >>= k).Within b post :=
  within_bind.mpr (hFirst.mono fun a _ => hNext a)

theorem within_each {items : List α} {body : α → Routine S I Unit} (h : ∀ a ∈ items, (body a).Within b fun _ => True) :
    (each items body).Within b fun _ => True := by
  induction items with
  | nil => trivial
  | cons a rest ih =>
    refine within_then (h a (by simp)) fun _ => ?_
    exact ih fun x hx => h x (by simp [hx])

/-! In a larger state, and where calls are answered by routines -/

theorem within_anything (keep : Log.Record → S → S) :
    r.Within ⟨fun _ _ => True, fun _ => True, keep⟩ fun _ => True := by
  induction r with
  | done _ => trivial
  | atomic _ _ ih => exact fun s => ⟨trivial, ih s⟩
  | wait _ _ _ _ ih => exact ⟨fun _ => ⟨fun _ => trivial, fun _ => trivial⟩, ih⟩
  | call _ _ ih => exact ⟨trivial, fun _ => trivial, ih⟩
  | note _ _ ih => exact ⟨fun _ => trivial, ih⟩

theorem Within.zoom {b' : Bounds T I} {view : T → S} {put : S → T → T} {post : α → Prop} (h : r.Within b post)
    (hPut : ∀ s t, b.changes (view t) s → b'.changes t (put s t)) (hCalls : ∀ c, b.calls c → b'.calls c)
    (hStays : ∀ t, b'.changes t t) (hKeep : ∀ x t, b'.changes t (b'.keep x t)) : (r.zoom view put).Within b' post := by
  induction r with
  | done _ => exact h
  | atomic _ _ ih => exact fun t => ⟨hPut _ t (h (view t)).1, ih _ (h (view t)).2⟩
  | wait _ _ _ _ ih =>
    exact ⟨fun t => ⟨fun hReady => hPut _ t ((h.1 (view t)).1 hReady), fun _ => hStays t⟩, fun x => ih x (h.2 x)⟩
  | call _ _ ih => exact ⟨hCalls _ h.1, hStays, fun a => ih a (h.2.2 a)⟩
  | note x _ ih => exact ⟨hKeep x, ih h.2⟩

theorem Within.interpret {b' : Bounds S J} {answer : (c : I.Call) → Routine S J (I.Answer c)} {post : α → Prop}
    (h : r.Within b post) (hChanges : ∀ s s', b.changes s s' → b'.changes s s') (hKeep : b.keep = b'.keep)
    (hAnswer : ∀ c, b.calls c → (answer c).Within b' fun _ => True) : (r.interpret answer).Within b' post := by
  induction r with
  | done _ => exact h
  | atomic _ _ ih => exact fun s => ⟨hChanges _ _ (h s).1, ih s (h s).2⟩
  | wait _ _ _ _ ih =>
    refine ⟨fun s => ⟨fun hReady => ?_, fun hLimit => ?_⟩, fun x => ih x (h.2 x)⟩
    · exact hChanges _ _ ((h.1 s).1 hReady)
    · exact hChanges _ _ ((h.1 s).2 hLimit)
  | call c _ ih => exact within_then (hAnswer c h.1) fun a => ih a (h.2.2 a)
  | note x _ ih => exact ⟨fun s => hKeep ▸ hChanges _ _ (h.1 s), ih h.2⟩

/-- To wait no longer than to a moment makes no difference to what may be done until then. -/
theorem Within.before {clock : S → Nat} {moment : Nat} (h : r.Within b fun _ => True) (hStays : ∀ s, b.changes s s) :
    (r.before clock moment).Within b fun _ => True := by
  induction r with
  | done _ => trivial
  | atomic _ _ ih => exact fun s => ⟨(h s).1, ih s (h s).2⟩
  | wait _ _ _ _ ih =>
    refine fun s => ⟨hStays s, fun s' => ⟨(h.1 s').1, fun _ => hStays s'⟩, fun x => ?_⟩
    dsimp only
    split
    · exact ih x (h.2 x)
    · trivial
  | call _ _ ih => exact ⟨h.1, h.2.1, fun a => ih a (h.2.2 a)⟩
  | note _ _ ih => exact ⟨h.1, ih h.2⟩

end Routine

/-! Routines that may fail -/

namespace Attempt

variable {post : Except ε α → Prop} {w : Attempt ε S I α}

@[simp] theorem within_pure {a : α} : (pure a : Attempt ε S I α).run.Within b post ↔ post (.ok a) := Iff.rfl

@[simp] theorem within_throw {e : ε} : (throw e : Attempt ε S I α).run.Within b post ↔ post (.error e) := Iff.rfl

/-- How work goes on that has not failed yet. -/
def andThen (next : α → Prop) (failed : ε → Prop) : Except ε α → Prop
  | .ok a => next a
  | .error e => failed e

@[simp] theorem andThen_ok {next : α → Prop} {failed : ε → Prop} {a : α} : andThen next failed (.ok a) ↔ next a := Iff.rfl

@[simp] theorem andThen_error {next : α → Prop} {failed : ε → Prop} {e : ε} :
    andThen next failed (.error e) ↔ failed e := Iff.rfl

@[simp] theorem within_bind {post : Except ε β → Prop} {k : α → Attempt ε S I β} :
    (w >>= k).run.Within b post ↔
      w.run.Within b (andThen (fun a => (k a).run.Within b post) fun e => post (.error e)) := by
  change (w.run >>= ExceptT.bindCont k).Within b post ↔ _
  rw [Routine.within_bind]
  constructor <;> refine Routine.Within.mono ?_ <;> rintro (_ | _) h <;> exact h

/-- Where it does not matter what work yields. -/
theorem within_then {post : Except ε β → Prop} {k : α → Attempt ε S I β} (hFirst : w.run.Within b fun _ => True)
    (hNext : ∀ a, (k a).run.Within b post) (hFails : ∀ e, post (.error e)) : (w >>= k).run.Within b post := by
  refine within_bind.mpr (hFirst.mono ?_)
  rintro (e | a) -
  · exact hFails e
  · exact hNext a

theorem within_seq {k : α → Attempt ε S I β} (hFirst : w.run.Within b fun _ => True)
    (hNext : ∀ a, (k a).run.Within b fun _ => True) : (w >>= k).run.Within b fun _ => True :=
  within_then hFirst hNext fun _ => trivial

@[simp] theorem within_lift {r : Routine S I α} :
    (ExceptT.lift r : Attempt ε S I α).run.Within b post ↔ r.Within b fun a => post (.ok a) := by
  change (Except.ok <$> r).Within b post ↔ _
  exact Routine.within_map

@[simp] theorem within_mk {r : Routine S I (Except ε α)} :
    (ExceptT.mk r : Attempt ε S I α).run.Within b post ↔ r.Within b post := Iff.rfl

@[simp] theorem within_mapError {f : ε → δ} {post : Except δ α → Prop} :
    (w.mapError f).run.Within b post ↔ w.run.Within b fun e => post (e.mapError f) := by
  change (Except.mapError f <$> w.run).Within b post ↔ _
  exact Routine.within_map

/-- Work on each item of a list yields for each of them what it yields for one. -/
theorem within_mapM {items : List α} {f : α → Attempt ε S I β} (fits : β → Prop) (failed : ε → Prop)
    (h : ∀ a ∈ items, (f a).run.Within b (andThen fits failed)) :
    (items.mapM f).run.Within b (andThen (fun bs => ∀ y ∈ bs, fits y) failed) := by
  induction items with
  | nil => simp
  | cons a rest ih =>
    rw [List.mapM_cons]
    refine within_bind.mpr ((h a (by simp)).mono ?_)
    rintro (e | y) hy
    · exact hy
    · refine within_bind.mpr ((ih fun x hx => h x (by simp [hx])).mono ?_)
      rintro (e | ys) hys
      · exact hys
      · simpa using ⟨hy, hys⟩

theorem within_items {items : List α} {f : α → Attempt ε S I β} (h : ∀ a ∈ items, (f a).run.Within b fun _ => True) :
    (items.mapM f).run.Within b fun _ => True := by
  refine (within_mapM (fun _ => True) (fun _ => True) fun a ha => (h a ha).mono ?_).mono fun _ _ => trivial
  rintro (e | y) - <;> trivial

end Attempt
end JvmDebug
