import JvmDebug.Proofs.Session.Accord

/-!
# The handles that were given out

What a moment of a session does to its handles, and what follows for all handles that were given out before: each
stands for what it was given out for until it is given up, and means nothing from then on.
-/

namespace JvmDebug.Session
set_option autoImplicit false

open Jdwp (ThreadId)

variable {told : (c : Call) → Answer c → Prop} {journal : Option Log.Journal} {past since : List Happening}
  {e : Happening} {s s' m : Scene Hand Job Session World Unit fun _ => Unit} {k : Hand} {job : Job} {t : ThreadId}
  {n : Int}

theorem sound_fresh (journal : Option Log.Journal) : Sound { journal } := ⟨Int.le_refl 1, by simp, by simp⟩

theorem Comes.kept (h : Comes told journal past s) : Kept Sound terms ending past s :=
  Setting.Leads.kept h (accord told) (fun _ => rfl) (sound_fresh journal)

/-! ## Moments -/

/-- A step that gives up no handles but those of certain threads, and tells of none. -/
structure Reserved (may : ThreadId → Prop) (s s' : Session) : Prop extends s.Sheds may s' where
  sends : ∃ new, s'.outbox = s.outbox ++ new ∧ ∀ m ∈ new, m.tellsNone

/-- The threads whose handles end with the event that a session hears at a turn. -/
def endsAt : Turn Hand Job World → ThreadId → Prop
  | .goesOn (.event _) (.event e) _, t => ends t e
  | _, _ => False

/-- Whether a request on the default lane goes on. -/
def servesAt (turn : Turn Hand Job World) (q : Dap.Request) (asked : Option (Asked World)) : Prop :=
  turn = .goesOn (.worker .defaultLane) (.request q) asked

/-- What a moment does to handles. Only requests on the default lane give any out. -/
inductive Effect (past : List Happening) (e : Happening) : Prop where
  | request (q : Dap.Request) (asked : Option (Asked World)) : servesAt e.turn q asked →
      Conduct q (deeds (.worker .defaultLane) past) ⟨asked, e.before, e.after⟩ → Effect past e
  | other : (∀ q asked, ¬servesAt e.turn q asked) → Reserved (endsAt e.turn) e.before e.after → Effect past e

theorem reserved_of_eq {may : ThreadId → Prop} {s s' : Session} (hSheds : s.Sheds (fun _ => False) s')
    (hOutbox : s'.outbox = s.outbox) : Reserved may s s' :=
  ⟨hSheds.mono fun _ => False.elim, [], by simpa using hOutbox, by simp⟩

theorem reserved_of_modest {may : ThreadId → Prop} {s s' : Session} (h : Modest may Dap.Outgoing.tellsNone s s') :
    Reserved may s s' :=
  ⟨h.toSheds, h.sends⟩

theorem takes_outbox {r : Activity Unit} {s s' : Session} (h : Takes k job s r s') : s'.outbox = s.outbox := by
  cases h with
  | event => rfl
  | @job w _ _ _ _ _ hTake =>
    cases w with
    | forwarder n =>
      simp only [Worker.take, takeOutput] at hTake
      repeat' split at hTake
      all_goals cases hTake
      all_goals rfl
    | _ =>
      simp only [Worker.take] at hTake
      split at hTake <;> cases hTake
      rfl

theorem Outside.outbox {s s' : Session} (h : Outside s s') : s'.outbox = s.outbox := by
  cases h with
  | dispatch q =>
    unfold Session.dispatch
    split <;> rfl
  | _ => rfl

/-- A job that does not serve a request on the default lane tells of no handles. -/
theorem effect_of_does {asked : Option (Asked World)} (hTurn : e.turn = .goesOn k job asked)
    (h : (terms k job).does (deeds k past) ⟨asked, e.before, e.after⟩) : Effect past e := by
  unfold terms at h
  split at h
  case h_1 q => exact .request q asked hTurn h
  case h_2 | h_4 =>
    refine .other (fun q asked hServes => ?_) (reserved_of_modest (Modest.mono (fun _ => False.elim) h))
    rw [servesAt, hTurn] at hServes
    simp_all
  case h_3 n x =>
    refine .other (fun q asked hServes => ?_) (reserved_of_modest (Modest.mono (fun t ht => ?_) h))
    · rw [servesAt, hTurn] at hServes
      cases hServes
    · rw [hTurn]
      exact ht

theorem effect_of_happens (hKept : Kept Sound terms ending past s) (hHappens : (setting told).Happens s e s') :
    Effect past e := by
  cases hHappens with
  | takesUp _ hTakes =>
    refine .other (fun _ _ h => by cases h) ?_
    exact reserved_of_eq (takes_sheds hTakes) (takes_outbox hTakes)
  | goesOn hBusy hStep => exact effect_of_does rfl (hKept.goes (accord told) hBusy hStep).1
  | isDone _ => exact .other (fun _ _ h => by cases h) (reserved_of_eq (.refl ..) rfl)
  | outside hOutside =>
    refine .other (fun _ _ h => by cases h) ?_
    exact reserved_of_eq (Outside.sheds hOutside) (Outside.outbox hOutside)

/-- What every moment keeps true is true from some moment on. -/
theorem Comes.along (holds : List Happening → Session → Prop) (hFirst : Comes told journal past m)
    (hRest : (setting told).Leads m since s) (hHere : holds past m.state)
    (hStep : ∀ past e, holds past e.before → Effect past e → holds (past ++ [e]) e.after) :
    holds (past ++ since) s.state := by
  induction hRest with
  | nil => rwa [List.append_nil]
  | snoc hBefore hHappens ih =>
    rw [← List.append_assoc, ← hHappens.after]
    refine hStep _ _ (hHappens.before ▸ ih) ?_
    exact effect_of_happens (Comes.kept (hFirst.trans hBefore)) hHappens

/-! ## Pools -/

/-- All handles of a pool that were given out, the oldest first. -/
def given {β : Type} (pool : Session → Handles ThreadId β) (past : List Happening) : List (Int × ThreadId × β) :=
  past.flatMap fun e => added (pool e.before).entries (pool e.after).entries

theorem given_append {β : Type} (pool : Session → Handles ThreadId β) (past since : List Happening) :
    given pool (past ++ since) = given pool past ++ given pool since := List.flatMap_append

theorem given_snoc {β : Type} (pool : Session → Handles ThreadId β) (past : List Happening) (e : Happening) :
    given pool (past ++ [e]) = given pool past ++ added (pool e.before).entries (pool e.after).entries := by
  simp [given]

/-- Handles of one kind, stored and given up as a session does it. -/
structure IsPool {β : Type} (pool : Session → Handles ThreadId β) (kind : String) : Prop where
  fresh : ∀ journal, pool { journal } = { kind }
  moves : ∀ {past e}, Effect past e → (pool e.before).Moves (pool e.after)

/-- At each moment some handles are given up, or one is given out. -/
theorem Effect.handles (h : Effect past e) : (∃ may, e.before.Sheds may e.after) ∨
    (∃ f, e.after = e.before.withFrame f) ∨ ∃ r, e.after = e.before.withReference r := by
  cases h with
  | request q asked _ hConduct =>
    cases hConduct with
    | quiet hQuiet => exact .inl ⟨_, hQuiet.toSheds⟩
    | frame f hAfter _ => exact .inr (.inl ⟨f, hAfter⟩)
    | reference r hAfter _ => exact .inr (.inr ⟨r, hAfter⟩)
    | responds result hAfter _ =>
      refine .inl ⟨fun _ => False, ?_⟩
      rw [show e.after = e.before.post (.response (.of q result)) from hAfter]
      exact .of_view_eq _ rfl rfl
  | other _ hReserved => exact .inl ⟨_, hReserved.toSheds⟩

theorem frames_isPool : IsPool frames "frame" where
  fresh _ := rfl
  moves h := by
    rcases h.handles with ⟨may, hSheds⟩ | ⟨f, hAfter⟩ | ⟨r, hAfter⟩
    · exact .shed hSheds.frames
    · exact hAfter ▸ .store f.thread f
    · exact hAfter ▸ .shed (.refl (fun _ => False) _)

theorem references_isPool : IsPool references "variable reference" where
  fresh _ := rfl
  moves h := by
    rcases h.handles with ⟨may, hSheds⟩ | ⟨f, hAfter⟩ | ⟨r, hAfter⟩
    · exact .shed hSheds.references
    · exact hAfter ▸ .shed (.refl (fun _ => False) _)
    · exact hAfter ▸ .store r.thread r

section Pools

variable {β : Type} {pool : Session → Handles ThreadId β} {kind : String} {value : β}

theorem IsPool.chronicle (hPool : IsPool pool kind) (h : Comes told journal past s) :
    Handles.Chronicle kind (given pool past) (pool s.state) := by
  refine Comes.along (fun past s => Handles.Chronicle kind (given pool past) (pool s)) .nil h ?_ ?_
  · change Handles.Chronicle kind [] (pool { journal })
    rw [hPool.fresh]
    exact .fresh
  · intro past e hHere hEffect
    rw [given_snoc]
    exact .moves hHere (hPool.moves hEffect)

/-- A handle that is not valid at some moment is not valid any more. -/
theorem IsPool.gone (hPool : IsPool pool kind) (hFirst : Comes told journal past m)
    (hRest : (setting told).Leads m since s) (hGiven : (n, t, value) ∈ given pool past)
    (hGone : ∀ x ∈ (pool m.state).entries, x.1 ≠ n) : (pool s.state).get n = .error (.notFound s!"{kind} {n}") := by
  have hStays := Comes.along (fun past s => Handles.Chronicle kind (given pool past) (pool s) ∧
      (n, t, value) ∈ given pool past ∧ ∀ x ∈ (pool s).entries, x.1 ≠ n)
    hFirst hRest ⟨hPool.chronicle hFirst, hGiven, hGone⟩ ?_
  · exact hStays.1.get_eq_error_iff.mpr hStays.2.2
  · rintro past e ⟨hChronicle, hThere, hNot⟩ hEffect
    have hMoves := hPool.moves hEffect
    rw [given_snoc]
    exact ⟨.moves hChronicle hMoves, List.mem_append_left _ hThere, hChronicle.gone_of_gone hMoves hThere hNot⟩

/-- The same for the handles of a thread that has none at some moment. -/
theorem IsPool.gone_of_bare (hPool : IsPool pool kind) (hFirst : Comes told journal past m)
    (hRest : (setting told).Leads m since s) (hGiven : (n, t, value) ∈ given pool past)
    (hBare : (pool m.state).ownedBy t = []) : (pool s.state).get n = .error (.notFound s!"{kind} {n}") := by
  have hChronicle := hPool.chronicle hFirst
  exact hPool.gone hFirst hRest hGiven (hChronicle.get_eq_error_iff.mp (hChronicle.get_eq_error_of_released hGiven hBare))

end Pools

/-- No handle that was given out for a thread is valid. -/
structure Gone (past : List Happening) (s : Session) (t : ThreadId) : Prop where
  frames : ∀ n f, (n, t, f) ∈ given frames past → s.view.frame n = .error (.notFound s!"frame {n}")
  references : ∀ n r, (n, t, r) ∈ given references past →
    s.view.reference n = .error (.notFound s!"variable reference {n}")

theorem Comes.gone_of_bare (h : Comes told journal past s) (hBare : Bare t s.state) : Gone past s.state t where
  frames _ _ hGiven := frames_isPool.gone_of_bare h .nil hGiven hBare.frames
  references _ _ hGiven := references_isPool.gone_of_bare h .nil hGiven hBare.references

end JvmDebug.Session
