import JvmDebug.Proofs.Placement.Alive

/-!
# What a placer asks about a class that is prepared

For each breakpoint of the source that the class was watched for, the line is looked up in the class, and then each
location that was told is asked to be stopped at. A call that is refused leads to nothing more, and the next one follows
all the same.
-/

namespace JvmDebug
set_option autoImplicit false

open Jdwp (LoadedClass Location RequestId)
open Backend (History)

namespace Backend

/-- Answers of one kind, each of which is added to the history. -/
def Recording (fine : (c : Call) → Answer c → Prop) : Answering Backend History :=
  fun h c a h' => fine c a ∧ h' = h ++ [.answered c a]

abbrev Requests (locations : List Location) (h : History) : Prop :=
  List.Forall₂ (fun l x => ∃ a, x = .answered (.setBreakpoint l) a) locations h

/-- Breakpoints are looked up in a class one after the other, and each is requested wherever it was found. -/
inductive Visits (c : LoadedClass) : List Breakpoint → History → Prop where
  | nil : Visits c [] []
  | cons {b : Breakpoint} {rest : List Breakpoint} {found : Except Jdwp.Error (List Location)} {requests others : History} :
      Requests (found.toOption.getD []) requests → Visits c rest others →
      Visits c (b :: rest) (.answered (.lineLocations c b.line) found :: (requests ++ others))

end Backend

namespace Placer

open Backend

variable {i : Installed} {p : Placer} {h : History}

/-- The breakpoints of the source that a watch was set for. -/
def watchedFor (p : Placer) (r : RequestId) : List Breakpoint :=
  match (p.takeWatched r).1 with
  | none => []
  | some (_, i) => i.breakpoints

theorem placeAt_requests (id : Int) (locations : List Location) :
    SourceSucceeds (Recording Present) (fun _ _ _ h' => ∃ made, h' = h ++ made ∧ Requests locations made)
      (placeAt id locations) i p h := by
  induction locations generalizing i h with
  | nil => exact SourceSucceeds.pure ⟨[], by simp, .nil⟩
  | cons l rest ih =>
    refine SourceSucceeds.bind (SourceSucceeds.trySource ?_)
    rintro answer _ ⟨hPresent, rfl⟩
    -- What is asked for the other locations stands behind what was asked for this one.
    have hRest : ∀ {i}, SourceSucceeds (Recording Present)
        (fun _ _ _ h' => ∃ made, h' = h ++ made ∧ Requests (l :: rest) made) (placeAt id rest) i p
        (h ++ [.answered (.setBreakpoint l) answer]) := by
      intro i
      refine SourceSucceeds.mono ?_ ih
      rintro _ _ _ _ ⟨made, rfl, hMade⟩
      exact ⟨_ :: made, by simp, .cons ⟨answer, rfl⟩ hMade⟩
    constructor
    · rintro r rfl
      refine SourceSucceeds.bind (SourceSucceeds.modify (SourceSucceeds.bind (SourceSucceeds.mono ?_ hRest)))
      exact fun _ _ _ _ hAll => SourceSucceeds.pure hAll
    · rintro e rfl
      exact ⟨hPresent e rfl, hRest⟩

theorem placeEach_visits (c : LoadedClass) (breakpoints : List Breakpoint) :
    SourceSucceeds (Recording Present) (fun _ _ _ h' => ∃ made, h' = h ++ made ∧ Visits c breakpoints made)
      (placeEach c breakpoints) i p h := by
  induction breakpoints generalizing i p h with
  | nil => exact SourceSucceeds.pure ⟨[], by simp, .nil⟩
  | cons b rest ih =>
    refine SourceSucceeds.bind (SourceSucceeds.trySource ?_)
    rintro answer _ ⟨hPresent, rfl⟩
    have hRest : SourceSucceeds (Recording Present)
        (fun (_ : List (Int × UInt32)) _ _ h' => ∃ made, h' = h ++ made ∧ Visits c (b :: rest) made) (do
          let placed ← placeAt b.id (answer.toOption.getD [])
          let isNew ← if placed then markVerified b.id else pure false
          let others ← placeEach c rest
          return if isNew then (b.id, b.line) :: others else others) i p
        (h ++ [.answered (.lineLocations c b.line) answer]) := by
      refine SourceSucceeds.bind (SourceSucceeds.mono ?_ (placeAt_requests b.id _))
      rintro placed i₁ p₁ _ ⟨requests, rfl, hRequests⟩
      have hOthers : ∀ (isNew : Bool) (i₂ : Installed), SourceSucceeds (Recording Present)
          (fun (_ : List (Int × UInt32)) _ _ h' => ∃ made, h' = h ++ made ∧ Visits c (b :: rest) made) (do
            let others ← placeEach c rest
            return if isNew then (b.id, b.line) :: others else others) i₂ p₁
          (h ++ [.answered (.lineLocations c b.line) answer] ++ requests) := by
        intro isNew i₂
        refine SourceSucceeds.bind (SourceSucceeds.mono ?_ ih)
        rintro others _ _ _ ⟨made, rfl, hMade⟩
        exact SourceSucceeds.pure ⟨_, by simp, Visits.cons hRequests hMade⟩
      cases placed with
      | false => exact SourceSucceeds.bind (SourceSucceeds.pure (hOthers false i₁))
      | true =>
        refine SourceSucceeds.bind (SourceSucceeds.bind (SourceSucceeds.get ?_))
        split
        · exact SourceSucceeds.pure (hOthers false i₁)
        · exact SourceSucceeds.bind (SourceSucceeds.modify (SourceSucceeds.pure (hOthers true _)))
    constructor
    · rintro locations rfl
      exact hRest
    · rintro e rfl
      exact ⟨hPresent e rfl, hRest⟩

/-- A class that is reported is visited for the breakpoints that it was watched for. -/
theorem classPrepared_visits (r : RequestId) (c : LoadedClass) :
    Succeeds (Recording Present) (fun _ _ h' => ∃ made, h' = h ++ made ∧ Visits c (p.watchedFor r) made)
      (classPrepared r c) p h := by
  refine Succeeds.bind (Succeeds.modifyGet ?_)
  unfold watchedFor
  cases (p.takeWatched r).1 with
  | none => exact Succeeds.pure ⟨[], by simp, .nil⟩
  | some found =>
    obtain ⟨path, i⟩ := found
    refine Succeeds.bind (Succeeds.lift ?_)
    refine Routine.Ensures.mono ?_ (SourceSucceeds.bind (SourceSucceeds.get (placeEach_visits c i.breakpoints)))
    rintro ⟨_, i'⟩ p₁ _ ⟨found, rfl, made, rfl, hMade⟩
    exact Succeeds.bind (Succeeds.lift ⟨found, rfl, made, rfl, hMade⟩)

end Placer
end JvmDebug
