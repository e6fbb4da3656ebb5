import JvmDebug.Proofs.Placement.Sync
import JvmDebug.Proofs.Placement.Unwaiting
import JvmDebug.Proofs.Routine.Bounds

/-!
# One request for exceptions

The requests for exceptions that are in the machine can be read off its history, as the breakpoints and the watches can.
The filters of the client come in any order with the syncs and the reports of classes; in the machine there is the one
request that the last filters ask for, or none if they ask for none, and never two at once.
-/

namespace JvmDebug
set_option autoImplicit false

open Jdwp (LoadedClass Location RequestId)
open Backend (History Interleaved liveLocations liveWatches)

namespace Backend

def exceptionStep (live : List (RequestId × Bool × Bool)) : Happening → List (RequestId × Bool × Bool)
  | .answered (.setException caught uncaught) (.ok r) => live ++ [(r, caught, uncaught)]
  | .answered (.clearException r) (.ok _) => live.filter (·.1 ≠ r)
  | _ => live

/-- The requests for exceptions that are in the machine: whether they are for caught ones, and for uncaught ones. -/
def liveExceptions (h : History) : List (RequestId × Bool × Bool) := h.foldl exceptionStep []

def Happening.isException : Happening → Bool
  | .answered c _ => c.isException
  | .prepared .. => false

/-- The call concerns breakpoints or watches. -/
def Happening.isPlacing : Happening → Bool
  | .answered c _ => !c.isException
  | .prepared .. => false

/-- No call is refused. The number of a request that is gone may come again. -/
def Obliging : Rule := fun _ x => x.refusal? = none

/-- A request for exceptions is made only where there is none. -/
def Orderly (h : History) : Prop :=
  ∀ g caught uncaught a, g ++ [.answered (.setException caught uncaught) a] <+: h → liveExceptions g = []

variable {h h' g : History} {x : Happening}

theorem liveExceptions_snoc : liveExceptions (h ++ [x]) = exceptionStep (liveExceptions h) x := by
  simp [liveExceptions, List.foldl_append]

theorem exceptionStep_of_other (live : List (RequestId × Bool × Bool)) (hx : x.isException = false) :
    exceptionStep live x = live := by
  unfold exceptionStep
  split
  · cases hx
  · cases hx
  · rfl

/-- As long as nothing concerns exceptions, the requests for them stay as they are. -/
theorem Extends.liveExceptions (hExtends : Extends (·.isException) h h') :
    Backend.liveExceptions h' = Backend.liveExceptions h := by
  obtain ⟨k, rfl, hk⟩ := hExtends
  induction k using List.reverseRecOn with
  | nil => rw [List.append_nil]
  | append_singleton k x ih =>
    rw [← List.append_assoc, liveExceptions_snoc, exceptionStep_of_other _ (hk x (by simp))]
    exact ih fun y hy => hk y (List.mem_append_left _ hy)

theorem extends_preparing (classes : List (String × LoadedClass)) :
    Extends (·.isException) h (h ++ preparing classes) := by
  refine ⟨_, rfl, fun x hx => ?_⟩
  obtain ⟨e, -, rfl⟩ := List.mem_map.mp hx
  rfl

theorem clears_of_isPlacing (hx : x.isPlacing = false) : x.clears = false ∧ x.places = false := by
  cases x with
  | prepared name c => exact ⟨rfl, rfl⟩
  | answered c a => cases c <;> first | exact ⟨rfl, rfl⟩ | cases hx

/-- As long as nothing concerns breakpoints and watches, these stay as they are. -/
theorem Extends.placed (hExtends : Extends (·.isPlacing) h h') :
    Backend.liveLocations h' = Backend.liveLocations h ∧ Backend.liveWatches h' = Backend.liveWatches h := by
  obtain ⟨k, rfl, hk⟩ := hExtends
  have hKeeps : Extends (·.clears) h (h ++ k) := ⟨k, rfl, fun x hx => (clears_of_isPlacing (hk x hx)).1⟩
  have hAdds : Extends (·.places) h (h ++ k) := ⟨k, rfl, fun x hx => (clears_of_isPlacing (hk x hx)).2⟩
  exact ⟨hAdds.adds_nothing.1.antisymm hKeeps.keeps.1, hAdds.adds_nothing.2.antisymm hKeeps.keeps.2⟩

theorem Orderly.snoc (hOrderly : Orderly h)
    (hx : ∀ caught uncaught a, x = .answered (.setException caught uncaught) a → liveExceptions h = []) :
    Orderly (h ++ [x]) := by
  intro g caught uncaught a hPrefix
  rcases List.prefix_concat_iff.mp hPrefix with hEq | hPrefix
  · obtain ⟨rfl, hLast⟩ := List.append_inj' hEq rfl
    exact hx caught uncaught a (List.singleton_inj.mp hLast).symm
  · exact hOrderly g caught uncaught a hPrefix

theorem Orderly.extend (hOrderly : Orderly h) (hExtends : Extends (·.isException) h h') : Orderly h' := by
  obtain ⟨k, rfl, hk⟩ := hExtends
  induction k using List.reverseRecOn with
  | nil => rwa [List.append_nil]
  | append_singleton k x ih =>
    rw [← List.append_assoc]
    refine (ih fun y hy => hk y (List.mem_append_left _ hy)).snoc ?_
    rintro caught uncaught a rfl
    cases hk (.answered (.setException caught uncaught) a) (by simp)

theorem Orderly.before (hOrderly : Orderly h) (hPrefix : g <+: h) : Orderly g :=
  fun k caught uncaught a hBefore => hOrderly k caught uncaught a (hBefore.trans hPrefix)

/-- Where each request is made only after the last one is gone, there is never more than one. -/
theorem Orderly.length_le (hOrderly : Orderly h) : (liveExceptions h).length ≤ 1 := by
  induction h using List.reverseRecOn with
  | nil => exact Nat.zero_le _
  | append_singleton h x ih =>
    have hBefore := ih (hOrderly.before (List.prefix_append ..))
    rw [liveExceptions_snoc]
    unfold exceptionStep
    split
    · rw [hOrderly h _ _ _ List.prefix_rfl]
      exact Nat.le_refl _
    · exact Nat.le_trans (List.length_filter_le ..) hBefore
    · exact hBefore

namespace Interleaved

variable {rule : Rule} {c : Call} {a : Answer c}

theorem liveExceptions (hAnswer : Interleaved rule h c a h') :
    Backend.liveExceptions h' = exceptionStep (Backend.liveExceptions h) (.answered c a) := by
  obtain ⟨classes, rfl, -⟩ := hAnswer
  rw [liveExceptions_snoc, (extends_preparing classes).liveExceptions]

theorem orderly (hAnswer : Interleaved rule h c a h') (hOrderly : Orderly h)
    (hNone : ∀ caught uncaught, c = .setException caught uncaught → Backend.liveExceptions h = []) : Orderly h' := by
  obtain ⟨classes, rfl, -⟩ := hAnswer
  refine (hOrderly.extend (extends_preparing classes)).snoc ?_
  rintro caught uncaught a' ⟨⟩
  rw [(extends_preparing classes).liveExceptions]
  exact hNone caught uncaught rfl

theorem obliged (hAnswer : Interleaved Obliging h c a h') : Happening.refusal? (.answered c a) = none := by
  obtain ⟨classes, -, hx⟩ := hAnswer
  exact hx

end Interleaved
end Backend

open Backend (Obliging Orderly liveExceptions Extends)

/-! What a routine ensures that keeps within bounds -/

namespace Routine

variable {S M α : Type} {I : Interface} {answers : Answering I M} {b : Bounds S I} {post : α → Prop}

/-- What the changes and the answers that the bounds allow keep true is true at the end. -/
theorem Within.ensures (keeps : S → M → Prop) (hChanges : ∀ s s' m, keeps s m → b.changes s s' → keeps s' m)
    (hAnswers : ∀ s m c a m', keeps s m → b.calls c → answers m c a m' → keeps s m') {r : Routine S I α}
    (hWithin : r.Within b post) (hUnwaiting : r.Unwaiting) {s : S} {m : M} (hKeeps : keeps s m) :
    Ensures answers (fun a s m => post a ∧ keeps s m) r s m := by
  induction r generalizing s m with
  | done a => exact ⟨hWithin, hKeeps⟩
  | atomic change next ih => exact ih s (hWithin s).2 (hUnwaiting s) (hChanges _ _ _ hKeeps (hWithin s).1)
  | wait => exact hUnwaiting.elim
  | call c next ih =>
    exact fun a m' hAnswer => ih a (hWithin.2.2 a) (hUnwaiting a) (hAnswers _ _ _ _ _ hKeeps hWithin.1 hAnswer)
  | note _ _ ih => exact ih hWithin.2 hUnwaiting hKeeps

end Routine

namespace Placer

variable {p p' : Placer} {h h' : History}

/-! ## Filters leave the rest alone -/

/-- What is on record of exceptions is what is in the machine, where no request was made beside another one. -/
structure Stands (p : Placer) (h : History) : Prop where
  live : liveExceptions h = p.exception.toList
  orderly : Orderly h

/-- Nothing is done to breakpoints and watches, neither on record nor, at any moment meanwhile, in the machine. -/
structure Spares (p : Placer) (h : History) (p' : Placer) (h' : History) : Prop where
  installed : p'.installed = p.installed
  watches : p'.watches = p.watches
  history : Extends (·.isPlacing) h h'

theorem Spares.refl (p : Placer) (h : History) : Spares p h p h := ⟨rfl, rfl, .refl⟩

theorem Spares.trans {p₁ : Placer} {h₁ : History} (hFirst : Spares p h p₁ h₁) (hSecond : Spares p₁ h₁ p' h') :
    Spares p h p' h' where
  installed := hSecond.installed.trans hFirst.installed
  watches := hSecond.watches.trans hFirst.watches
  history := hFirst.history.trans hSecond.history

theorem Spares.untouched (hSpares : Spares p h p' h') {g : History} (hAfter : h <+: g) (hBefore : g <+: h') :
    liveLocations g = liveLocations h ∧ liveWatches g = liveWatches h :=
  (hSpares.history.between hAfter hBefore).1.placed

theorem withdrawException_succeeds (x : Option (RequestId × Bool × Bool)) (hx : p.exception = x)
    (hStands : Stands p h) :
    Succeeds (Interleaved Obliging) (fun _ p' h' => Stands p' h' ∧ p'.exception = none ∧ Spares p h p' h')
      (withdrawException x) p h := by
  cases x with
  | none => exact Succeeds.pure ⟨hStands, hx, .refl p h⟩
  | some x =>
    obtain ⟨r, asked⟩ := x
    refine Succeeds.bind (Succeeds.lift (Succeeds.bind (Succeeds.try_ ?_)))
    intro answer h₁ hAnswer
    cases answer with
    | error e => cases hAnswer.obliged
    | ok _ =>
      refine ⟨fun _ _ => Succeeds.pure ⟨⟨?_, hAnswer.orderly hStands.orderly nofun⟩, rfl, rfl, rfl, ?_⟩, nofun⟩
      · rw [hAnswer.liveExceptions, hStands.live, hx]
        simp [Backend.exceptionStep]
      · exact hAnswer.extends_ _ (fun _ _ => rfl) rfl

theorem requestException_succeeds (wanted : Option (Bool × Bool)) (hNone : p.exception = none) (hStands : Stands p h) :
    Succeeds (Interleaved Obliging)
      (fun _ p' h' => Stands p' h' ∧ p'.exception.map (·.2) = wanted ∧ Spares p h p' h') (requestException wanted) p h := by
  cases wanted with
  | none => exact Succeeds.pure ⟨hStands, by rw [hNone]; rfl, .refl p h⟩
  | some asked =>
    obtain ⟨caught, uncaught⟩ := asked
    have hEmpty : liveExceptions h = [] := by rw [hStands.live, hNone]; rfl
    refine Succeeds.bind (Succeeds.try_ ?_)
    intro answer h₁ hAnswer
    cases answer with
    | error e => cases hAnswer.obliged
    | ok r =>
      refine ⟨?_, nofun⟩
      rintro _ ⟨⟩
      refine Succeeds.bind (Succeeds.note (Succeeds.lift ⟨⟨?_, ?_⟩, rfl, rfl, rfl, ?_⟩))
      · rw [hAnswer.liveExceptions, hEmpty]
        rfl
      · exact hAnswer.orderly hStands.orderly fun _ _ _ => hEmpty
      · exact hAnswer.extends_ _ (fun _ _ => rfl) rfl

theorem setFilters_succeeds (filters : ExceptionFilters) (hStands : Stands p h) :
    Succeeds (Interleaved Obliging)
      (fun _ p' h' => Stands p' h' ∧ p'.exception.map (·.2) = asksFor filters ∧ Spares p h p' h' ∧
        (p.exception.map (·.2) = asksFor filters → h' = h)) (setFilters filters) p h := by
  rw [setFilters_eq]
  refine Succeeds.bind (Succeeds.get ?_)
  split
  · next hSame => exact Succeeds.pure ⟨hStands, hSame.symm, .refl p h, fun _ => rfl⟩
  · next hOther =>
    refine Succeeds.bind (Succeeds.mono ?_ (withdrawException_succeeds p.exception rfl hStands))
    rintro _ p₁ h₁ ⟨hStands, hNone, hFirst⟩
    refine Succeeds.mono ?_ (requestException_succeeds (asksFor filters) hNone hStands)
    rintro _ p' h' ⟨hStands, hAsked, hSecond⟩
    exact ⟨hStands, hAsked, hFirst.trans hSecond, fun hSame => absurd hSame.symm hOther⟩

/-! ## Any sequence -/

inductive Act where
  | filters (filters : ExceptionFilters)
  | sync (wanted : BreakpointSet)
  | report (r : RequestId) (c : LoadedClass)

namespace Act

def work : Act → Routine Placer Backend Unit
  | filters f => (fun _ => ()) <$> (setFilters f).run
  | sync wanted => (fun _ => ()) <$> (Placer.sync wanted).run
  | report r c => (fun _ => ()) <$> (classPrepared r c).run

def filters? : Act → Option ExceptionFilters
  | filters f => some f
  | _ => none

end Act

/-- The filters that were set last, if some were set; the ones before otherwise. -/
def lastFilters (before : ExceptionFilters) (acts : List Act) : ExceptionFilters :=
  acts.foldl (fun last act => act.filters?.getD last) before

theorem other_ensures {act : Act} (hOther : act.filters? = none) (p : Placer) (h : History) :
    Routine.Ensures (Interleaved Obliging)
      (fun _ p' h' => p'.exception = p.exception ∧ Extends (·.isException) h h') act.work p h := by
  have hEnsures : ∀ {r : Routine Placer Backend Unit}, Steady r →
      Routine.Ensures (Interleaved Obliging)
        (fun _ p' h' => p'.exception = p.exception ∧ Extends (·.isException) h h') r p h := by
    intro r hSteady
    refine Routine.Ensures.mono (fun _ _ _ hPost => hPost.2) (hSteady.beside.ensures
      (fun p' h' => p'.exception = p.exception ∧ Extends (·.isException) h h') ?_ ?_ hSteady.unwaiting ⟨rfl, .refl⟩)
    · exact fun s s' m hKeeps hChanges => ⟨hChanges.trans hKeeps.1, hKeeps.2⟩
    · exact fun s m c a m' hKeeps hc hAnswer => ⟨hKeeps.1, hKeeps.2.trans (hAnswer.extends_ _ (fun _ _ => rfl) hc)⟩
  cases act with
  | filters f => cases hOther
  | sync wanted => exact hEnsures (sync_steady wanted).map
  | report r c => exact hEnsures (classPrepared_steady r c).map

theorem each_stands (acts : List Act) (before : ExceptionFilters) (hStands : Stands p h)
    (hAsked : p.exception.map (·.2) = asksFor before) :
    Routine.Ensures (Interleaved Obliging)
      (fun _ p' h' => Stands p' h' ∧ p'.exception.map (·.2) = asksFor (lastFilters before acts))
      (Routine.each acts Act.work) p h := by
  induction acts generalizing before p h with
  | nil => exact ⟨hStands, hAsked⟩
  | cons act rest ih =>
    refine Routine.Ensures.bind ?_
    cases hFilters : act.filters? with
    | none =>
      have hLast : lastFilters before (act :: rest) = lastFilters before rest := by simp [lastFilters, hFilters]
      rw [hLast]
      refine Routine.Ensures.mono ?_ (other_ensures hFilters p h)
      rintro _ p₁ h₁ ⟨hSame, hExtends⟩
      refine ih before ⟨?_, hStands.orderly.extend hExtends⟩ (hSame ▸ hAsked)
      rw [hExtends.liveExceptions, hStands.live, hSame]
    | some filters =>
      have hLast : lastFilters before (act :: rest) = lastFilters filters rest := by simp [lastFilters, hFilters]
      rw [hLast]
      cases act with
      | filters f =>
        cases hFilters
        rw [Act.work, map_eq_pure_bind]
        refine Routine.Ensures.bind (Routine.Ensures.mono ?_ (setFilters_succeeds filters hStands))
        rintro _ p₁ h₁ ⟨_, -, hStands, hAsked, -⟩
        exact ih filters hStands hAsked
      | sync wanted => cases hFilters
      | report r c => cases hFilters

/-- The requests for exceptions that are in a machine are as the filters ask for: one that tells of caught exceptions
and of uncaught ones as these are among the filters, and none if there are no filters. Each request was made when there
was none, so that there were never two. -/
structure Follows (filters : ExceptionFilters) (h : History) : Prop where
  live : (liveExceptions h).map (·.2) = if filters.isEmpty then [] else [(filters.caught, filters.uncaught)]
  orderly : Orderly h
  single : ∀ g, g <+: h → (liveExceptions g).length ≤ 1

theorem Stands.follows {filters : ExceptionFilters} (hStands : Stands p h)
    (hAsked : p.exception.map (·.2) = asksFor filters) : Follows filters h where
  live := by
    have hLive : (liveExceptions h).map (·.2) = (p.exception.map (·.2)).toList := by
      rw [hStands.live]
      cases p.exception <;> rfl
    rw [hLive, hAsked, asksFor]
    split <;> rfl
  orderly := hStands.orderly
  single g hPrefix := (hStands.orderly.before hPrefix).length_le

/-- What a call of the filters comes to after some others, and what every other call leaves as it is. -/
structure FollowsOn (last : ExceptionFilters) (p : Placer) (h : History) : Prop where
  now : Follows last h
  /-- The call comes to its end; the same filters again make no call, and breakpoints and watches stay as they are. -/
  next : ∀ filters, Routine.Ensures (Interleaved Obliging)
    (fun outcome p' h' => outcome = .ok () ∧ Follows filters h' ∧ (filters = last → h' = h) ∧
      p'.installed = p.installed ∧ p'.watches = p.watches ∧
      ∀ g, h <+: g → g <+: h' → liveLocations g = liveLocations h ∧ liveWatches g = liveWatches h)
    (setFilters filters).run p h
  /-- At every moment while breakpoints are synced or a class is reported, the request for exceptions is in place. -/
  meanwhile : ∀ act : Act, act.filters? = none → Routine.Ensures (Interleaved Obliging)
    (fun _ _ h' => ∀ g, h <+: g → g <+: h' → liveExceptions g = liveExceptions h) act.work p h

/-- Whatever is called in whatever order, the machine keeps the request that the last filters ask for. -/
theorem exceptions_follow_filters (index : SourceIndex) (root : Path) (acts : List Act) :
    Routine.Ensures (Interleaved Obliging) (fun _ p h => FollowsOn (lastFilters {} acts) p h)
      (Routine.each acts Act.work) { index, root } [] := by
  have hStart : Stands { index, root } [] := ⟨rfl, fun g caught uncaught a hPrefix => by simp at hPrefix⟩
  refine Routine.Ensures.mono ?_ (each_stands acts {} hStart rfl)
  rintro _ p h ⟨hStands, hAsked⟩
  refine ⟨hStands.follows hAsked, fun filters => ?_, fun act hOther => ?_⟩
  · refine Routine.Ensures.mono ?_ (setFilters_succeeds filters hStands)
    rintro _ p' h' ⟨_, rfl, hStands', hAsked', hSpares, hSame⟩
    refine ⟨rfl, hStands'.follows hAsked', fun hEq => hSame ?_, hSpares.installed, hSpares.watches, fun g => ?_⟩
    · rw [hEq]
      exact hAsked
    · exact hSpares.untouched
  · refine Routine.Ensures.mono ?_ (other_ensures hOther p h)
    rintro _ p' h' ⟨-, hExtends⟩ g hAfter hBefore
    exact (hExtends.between hAfter hBefore).1.liveExceptions

end Placer
end JvmDebug
