import JvmDebug.Proofs.Placement.Exact
import JvmDebug.Proofs.Placement.Unwaiting

/-!
# Placing on a machine that is there

What work of the placer comes to on a machine that may refuse calls but is not gone: it does not fail, it places what is
wanted, and the report of a class yields exactly the breakpoints that have code from then on. Nothing is said about
what the machine keeps of it.
-/

namespace JvmDebug
set_option autoImplicit false

open Jdwp (LoadedClass Location RequestId)
open Backend (History)

namespace Backend

/-- Answers of one kind, whatever has happened before. -/
def By (fine : (c : Call) → Answer c → Prop) : Answering Backend History := fun h c a h' => fine c a ∧ h' = h

/-- The answer is not that the machine is gone. -/
def Present (c : Call) (a : Answer c) : Prop :=
  ∀ e, (Happening.answered c a).refusal? = some e → e.isDisconnect = false

abbrev Lives : Answering Backend History := By Present

/-- A machine that is there and grants each request for exceptions. -/
def Granting (c : Call) (a : Answer c) : Prop :=
  Present c a ∧ ∀ caught uncaught, c = .setException caught uncaught → (Happening.answered c a).refusal? = none

end Backend

namespace Placer

open Backend

variable {p p' p₁ : Placer} {h : History} {i i' i₁ : Installed} {q : Path}

/-! ## One source -/

/-- Work on a source leaves what the source is placed for as it is, and so what is on record of other sources and of
exceptions. -/
structure Kept (i : Installed) (p : Placer) (i' : Installed) (p' : Placer) : Prop where
  revision : i'.revision = i.revision
  breakpoints : i'.breakpoints = i.breakpoints
  installed : p'.installed = p.installed
  exception : p'.exception = p.exception

theorem Kept.refl (i : Installed) (p : Placer) : Kept i p i p := ⟨rfl, rfl, rfl, rfl⟩

theorem Kept.trans (hFirst : Kept i p i₁ p₁) (hSecond : Kept i₁ p₁ i' p') : Kept i p i' p' where
  revision := hSecond.revision.trans hFirst.revision
  breakpoints := hSecond.breakpoints.trans hFirst.breakpoints
  installed := hSecond.installed.trans hFirst.installed
  exception := hSecond.exception.trans hFirst.exception

/-- The breakpoints that have code are now those that had some, and these. -/
def Gains (ids : List Int) (before after : List Int) : Prop := ∀ id, id ∈ after ↔ id ∈ before ∨ id ∈ ids

theorem Gains.none {l : List Int} : Gains [] l l := fun id => by simp

theorem Gains.trans {ids ids' a b c : List Int} (hFirst : Gains ids a b) (hSecond : Gains ids' b c) :
    Gains (ids ++ ids') a c := fun id => by
  rw [hSecond, hFirst, List.mem_append, or_assoc]

theorem placeAt_kept (id : Int) (locations : List Location) (i : Installed) (p : Placer) (h : History) :
    SourceSucceeds Lives (fun _ i' p' _ => Kept i p i' p' ∧ i'.verified = i.verified) (placeAt id locations) i p h := by
  induction locations generalizing i h with
  | nil => exact SourceSucceeds.pure ⟨.refl i p, rfl⟩
  | cons l rest ih =>
    refine SourceSucceeds.bind (SourceSucceeds.trySource ?_)
    intro answer h₁ hAnswer
    constructor
    · rintro r rfl
      refine SourceSucceeds.bind (SourceSucceeds.modify (SourceSucceeds.bind (SourceSucceeds.mono ?_ (ih _ _))))
      rintro _ i' p' h' ⟨hKept, hVerified⟩
      exact SourceSucceeds.pure ⟨⟨hKept.revision, hKept.breakpoints, hKept.installed, hKept.exception⟩, hVerified⟩
    · rintro e rfl
      exact ⟨hAnswer.1 e rfl, ih i h₁⟩

theorem markVerified_gains (id : Int) (i : Installed) (p : Placer) (h : History) :
    SourceSucceeds Lives
      (fun isNew i' p' _ => Kept i p i' p' ∧ Gains (if isNew then [id] else []) i.verified i'.verified)
      (markVerified id) i p h := by
  refine SourceSucceeds.bind (SourceSucceeds.get ?_)
  split
  · exact SourceSucceeds.pure ⟨.refl i p, .none⟩
  · refine SourceSucceeds.bind (SourceSucceeds.modify (SourceSucceeds.pure ⟨⟨rfl, rfl, rfl, rfl⟩, ?_⟩))
    intro other
    simp

theorem placeEach_gains (c : LoadedClass) (breakpoints : List Breakpoint) (i : Installed) (p : Placer) (h : History) :
    SourceSucceeds Lives (fun found i' p' _ => Kept i p i' p' ∧ Gains (found.map (·.1)) i.verified i'.verified)
      (placeEach c breakpoints) i p h := by
  induction breakpoints generalizing i p h with
  | nil => exact SourceSucceeds.pure ⟨.refl i p, .none⟩
  | cons b rest ih =>
    -- What the others gain comes to what this one has gained.
    have hOthers : ∀ (isNew : Bool) (i₁ : Installed) (p₁ : Placer) (h₁ : History), Kept i p i₁ p₁ →
        Gains (if isNew then [b.id] else []) i.verified i₁.verified → SourceSucceeds Lives
          (fun (found : List (Int × UInt32)) i' p' _ => Kept i p i' p' ∧ Gains (found.map (·.1)) i.verified i'.verified)
          (do
            let others ← placeEach c rest
            return if isNew then (b.id, b.line) :: others else others) i₁ p₁ h₁ := by
      intro isNew i₁ p₁ h₁ hKept hGains
      refine SourceSucceeds.bind (SourceSucceeds.mono ?_ (ih i₁ p₁ h₁))
      rintro others i' p' h' ⟨hMoreKept, hMore⟩
      refine SourceSucceeds.pure ⟨hKept.trans hMoreKept, ?_⟩
      have hAll := hGains.trans hMore
      cases isNew <;> exact hAll
    have hRest : ∀ (locations : List Location) (h₁ : History), SourceSucceeds Lives
        (fun (found : List (Int × UInt32)) i' p' _ => Kept i p i' p' ∧ Gains (found.map (·.1)) i.verified i'.verified)
        (do
          let placed ← placeAt b.id locations
          let isNew ← if placed then markVerified b.id else pure false
          let others ← placeEach c rest
          return if isNew then (b.id, b.line) :: others else others) i p h₁ := by
      intro locations h₁
      refine SourceSucceeds.bind (SourceSucceeds.mono ?_ (placeAt_kept b.id locations i p h₁))
      rintro placed i₂ p₂ h₂ ⟨hKept, hVerified⟩
      cases placed with
      | false =>
        refine SourceSucceeds.bind (SourceSucceeds.pure (hOthers false i₂ p₂ h₂ hKept ?_))
        rw [hVerified]
        exact .none
      | true =>
        refine SourceSucceeds.bind (SourceSucceeds.mono ?_ (markVerified_gains b.id i₂ p₂ h₂))
        rintro isNew i₃ p₃ h₃ ⟨hMarked, hGains⟩
        exact hOthers isNew i₃ p₃ h₃ (hKept.trans hMarked) (hVerified ▸ hGains)
    refine SourceSucceeds.bind (SourceSucceeds.trySource ?_)
    intro answer h₁ hAnswer
    constructor
    · rintro locations rfl
      exact hRest locations h₁
    · rintro e rfl
      exact ⟨hAnswer.1 e rfl, hRest [] h₁⟩

theorem placeInClass_gains (c : LoadedClass) (i : Installed) (p : Placer) (h : History) :
    SourceSucceeds Lives (fun found i' p' _ => Kept i p i' p' ∧ Gains (found.map (·.1)) i.verified i'.verified)
      (placeInClass c) i p h :=
  SourceSucceeds.bind (SourceSucceeds.get (placeEach_gains c i.breakpoints i p h))

theorem placeInClasses_kept (classes : List LoadedClass) (i : Installed) (p : Placer) (h : History) :
    SourceSucceeds Lives (fun _ i' p' _ => Kept i p i' p') (placeInClasses classes) i p h := by
  induction classes generalizing i p h with
  | nil => exact SourceSucceeds.pure (.refl i p)
  | cons c rest ih =>
    refine SourceSucceeds.bind (SourceSucceeds.mono ?_ (placeInClass_gains c i p h))
    rintro _ i₁ p₁ h₁ ⟨hKept, -⟩
    exact SourceSucceeds.mono (fun _ i' p' _ => hKept.trans) (ih i₁ p₁ h₁)

theorem watch_kept (path : Path) (pattern : String) (i : Installed) (p : Placer) (h : History) :
    SourceSucceeds Lives (fun _ i' p' _ => Kept i p i' p') (watch path pattern) i p h := by
  refine SourceSucceeds.bind (SourceSucceeds.trySource ?_)
  intro answer h₁ hAnswer
  constructor
  · rintro r rfl
    refine SourceSucceeds.bind (SourceSucceeds.note (SourceSucceeds.bind (SourceSucceeds.modify ?_)))
    exact SourceSucceeds.routine ⟨rfl, rfl, rfl, rfl⟩
  · rintro e rfl
    exact ⟨hAnswer.1 e rfl, SourceSucceeds.pure (.refl i p)⟩

theorem placeCandidates_kept (path : Path) (names : List String) (i : Installed) (p : Placer) (h : History) :
    SourceSucceeds Lives (fun _ i' p' _ => Kept i p i' p') (placeCandidates path names) i p h := by
  induction names generalizing i p h with
  | nil => exact SourceSucceeds.pure (.refl i p)
  | cons name rest ih =>
    have hRest : ∀ (loaded : List LoadedClass) (i₁ : Installed) (p₁ : Placer) (h₁ : History), Kept i p i₁ p₁ →
        SourceSucceeds Lives (fun _ i' p' _ => Kept i p i' p') (do
          placeInClasses loaded
          watch path (nestedPattern name)
          placeCandidates path rest) i₁ p₁ h₁ := by
      intro loaded i₁ p₁ h₁ hFirst
      refine SourceSucceeds.bind (SourceSucceeds.mono ?_ (placeInClasses_kept loaded i₁ p₁ h₁))
      intro _ i₂ p₂ h₂ hSecond
      refine SourceSucceeds.bind (SourceSucceeds.mono ?_ (watch_kept path _ i₂ p₂ h₂))
      intro _ i₃ p₃ h₃ hThird
      exact SourceSucceeds.mono (fun _ i' p' _ => ((hFirst.trans hSecond).trans hThird).trans) (ih i₃ p₃ h₃)
    have hWatched : ∀ (loaded : List LoadedClass) (h₁ : History), SourceSucceeds Lives (fun _ i' p' _ => Kept i p i' p') (do
        if loaded.isEmpty then watch path name
        placeInClasses loaded
        watch path (nestedPattern name)
        placeCandidates path rest) i p h₁ := by
      intro loaded h₁
      cases loaded with
      | nil =>
        refine SourceSucceeds.bind (SourceSucceeds.mono ?_ (watch_kept path name i p h₁))
        exact fun _ i₁ p₁ h₂ hFirst => hRest [] i₁ p₁ h₂ hFirst
      | cons c others => exact hRest (c :: others) i p h₁ (.refl i p)
    refine SourceSucceeds.bind (SourceSucceeds.trySource ?_)
    intro answer h₁ hAnswer
    constructor
    · rintro loaded rfl
      exact hWatched loaded h₁
    · rintro e rfl
      exact ⟨hAnswer.1 e rfl, hWatched [] h₁⟩

/-! ## All sources -/

/-- Work on sources that leaves the request for exceptions as it is, and no source on record twice; `placed` says which
breakpoints each source has then, and in which revision. -/
structure Moved (p : Placer) (placed : Path → Option (List Breakpoint × Nat)) (p' : Placer) : Prop where
  distinct : p'.installed.Distinct
  placed : ∀ q, p'.placedWith q = placed q
  exception : p'.exception = p.exception

theorem installSource_moved (path : Path) (revision : Nat) (breakpoints : List Breakpoint)
    (hDistinct : p.installed.Distinct) (hNone : p.installed.find? path = none) (h : History) :
    Succeeds Lives
      (fun _ p' _ => Moved p (fun q => if path == q then some (breakpoints, revision) else p.placedWith q) p')
      (installSource path revision breakpoints) p h := by
  have hInstall : ∀ (relative : Path) (names : List String) (h : History), Succeeds Lives
      (fun _ p' _ => Moved p (fun q => if path == q then some (breakpoints, revision) else p.placedWith q) p')
      (installCandidates path relative names revision breakpoints) p h := by
    intro relative names h
    refine Succeeds.bind (Succeeds.lift (Routine.Ensures.mono ?_ (placeCandidates_kept path names _ p h)))
    rintro ⟨_, i⟩ p' h' ⟨_, rfl, hKept⟩
    refine Succeeds.bind (Succeeds.pure (Succeeds.bind (Succeeds.note (Succeeds.lift ?_))))
    have hPut : (p'.put path i).installed = PathMap.insert path i p.installed := congrArg _ hKept.installed
    refine ⟨?_, fun q => ?_, hKept.exception⟩
    · rw [hPut]
      exact hDistinct.insert i hNone
    · have hEntry : (i.breakpoints, i.revision) = (breakpoints, revision) := by rw [hKept.breakpoints, hKept.revision]
      rw [placedWith, hPut, PathMap.find?_insert, placedWith]
      split
      · exact congrArg some hEntry
      · rfl
  refine Succeeds.bind (Succeeds.get ?_)
  dsimp only
  split
  · exact Succeeds.bind (Succeeds.note (hInstall _ _ h))
  · exact hInstall _ _ h

/-- What is missing is placed in the revision that is wanted. -/
theorem installMissing_moved (wanted : BreakpointSet) (sources : PathMap (List Breakpoint))
    (hDistinct : p.installed.Distinct) (h : History) :
    Succeeds Lives
      (fun _ p' _ => Moved p (fun q => (p.placedWith q).or
        ((sources.find? q).map (·, (wanted.revisions.find? q).getD 0))) p') (installMissing wanted sources) p h := by
  induction sources generalizing p h with
  | nil => exact Succeeds.pure ⟨hDistinct, fun q => by simp, rfl⟩
  | cons source rest ih =>
    have hSplit : ∀ q, PathMap.find? (source :: rest) q = if source.1 == q then some source.2 else PathMap.find? rest q :=
      fun q => PathMap.find?_cons source rest q
    refine Succeeds.bind (Succeeds.get ?_)
    split
    · next hNone =>
      rw [Option.isNone_iff_eq_none] at hNone
      refine Succeeds.bind (Succeeds.mono ?_ (installSource_moved _ _ _ hDistinct hNone h))
      intro _ p₁ h₁ hFirst
      refine Succeeds.mono ?_ (ih hFirst.distinct h₁)
      intro _ p' h' hRest
      refine ⟨hRest.distinct, fun q => ?_, hRest.exception.trans hFirst.exception⟩
      rw [hRest.placed, hFirst.placed, hSplit]
      by_cases hKey : (source.1 == q) = true
      · have hHere : p.placedWith q = none := by
          rw [placedWith, ← PathMap.find?_congr _ hKey, hNone]
          rfl
        rw [if_pos hKey, if_pos hKey, hHere, ← PathMap.find?_congr wanted.revisions hKey]
        rfl
      · rw [if_neg hKey, if_neg hKey]
    · next hSome =>
      refine Succeeds.mono ?_ (ih hDistinct h)
      intro _ p' h' hRest
      refine ⟨hRest.distinct, fun q => ?_, hRest.exception⟩
      rw [hRest.placed, hSplit]
      by_cases hKey : (source.1 == q) = true
      · obtain ⟨i, hFind⟩ := Option.ne_none_iff_exists'.mp fun hNone => hSome (Option.isNone_iff_eq_none.mpr hNone)
        rw [placedWith, ← PathMap.find?_congr _ hKey, hFind]
        rfl
      · rw [if_neg hKey]

theorem clearLocations_kept (rs : List RequestId) (p : Placer) (h : History) :
    Succeeds Lives (fun _ p' _ => p'.installed = p.installed ∧ p'.exception = p.exception) (clearLocations rs) p h := by
  induction rs generalizing h with
  | nil => exact Succeeds.pure ⟨rfl, rfl⟩
  | cons r rest ih =>
    refine Succeeds.bind (Succeeds.try_ ?_)
    intro answer h₁ hAnswer
    constructor
    · rintro _ rfl
      exact ih h₁
    · rintro e rfl
      exact ⟨hAnswer.1 e rfl, ih h₁⟩

theorem clearWatches_kept (rs : List RequestId) (p : Placer) (h : History) :
    Succeeds Lives (fun _ p' _ => p'.installed = p.installed ∧ p'.exception = p.exception) (clearWatches rs) p h := by
  induction rs generalizing p h with
  | nil => exact Succeeds.pure ⟨rfl, rfl⟩
  | cons r rest ih =>
    refine Succeeds.bind (Succeeds.lift (Succeeds.bind (Succeeds.try_ ?_)))
    intro answer h₁ hAnswer
    constructor
    · rintro _ rfl
      exact ih (p.dropWatch r) h₁
    · rintro e rfl
      exact ⟨hAnswer.1 e rfl, ih (p.dropWatch r) h₁⟩

theorem clearSource_kept (path : Path) (p : Placer) (h : History) :
    Succeeds Lives (fun _ p' _ => p'.installed = PathMap.erase p.installed path ∧ p'.exception = p.exception)
      (clearSource path) p h := by
  have hTaken : (p.take path).2.installed = PathMap.erase p.installed path ∧ (p.take path).2.exception = p.exception :=
    ⟨rfl, rfl⟩
  refine Succeeds.bind (Succeeds.modifyGet ?_)
  split
  · exact Succeeds.pure hTaken
  · refine Succeeds.bind (Succeeds.note (Succeeds.bind (Succeeds.mono ?_ (clearLocations_kept _ _ h))))
    rintro _ p₁ h₁ ⟨hFirst, hFirstException⟩
    refine Succeeds.mono ?_ (clearWatches_kept _ p₁ h₁)
    rintro _ p' h' ⟨hSecond, hSecondException⟩
    exact ⟨hSecond.trans (hFirst.trans hTaken.1), hSecondException.trans hFirstException⟩

theorem clearSources_moved (paths : List Path) (hDistinct : p.installed.Distinct) (h : History) :
    Succeeds Lives (fun _ p' _ => Moved p (fun q => if paths.any (· == q) then none else p.placedWith q) p')
      (clearSources paths) p h := by
  induction paths generalizing p h with
  | nil => exact Succeeds.pure ⟨hDistinct, fun q => by simp, rfl⟩
  | cons path rest ih =>
    refine Succeeds.bind (Succeeds.mono ?_ (clearSource_kept path p h))
    rintro _ p₁ h₁ ⟨hErased, hException⟩
    refine Succeeds.mono ?_ (ih (hErased ▸ hDistinct.erase path) h₁)
    intro _ p' h' hRest
    refine ⟨hRest.distinct, fun q => ?_, hRest.exception.trans hException⟩
    rw [hRest.placed, placedWith, hErased, PathMap.find?_erase, List.any_cons]
    cases path == q
    · rfl
    · simp

/-- A sync clears what is placed in another revision than the one wanted, and places what is missing then. -/
theorem sync_moves (wanted : BreakpointSet) (hDistinct : p.installed.Distinct) (h : History) :
    Succeeds Lives (fun ids p' _ => ids = p'.verified ∧ Moved p (fun q =>
      (if (p.stale wanted).any (· == q) then none else p.placedWith q).or
        ((wanted.bySource.find? q).map (·, (wanted.revisions.find? q).getD 0))) p') (sync wanted) p h := by
  refine Succeeds.bind (Succeeds.get (Succeeds.bind (Succeeds.mono ?_ (clearSources_moved _ hDistinct h))))
  intro _ p₁ h₁ hCleared
  refine Succeeds.bind (Succeeds.mono ?_ (installMissing_moved wanted _ hCleared.distinct h₁))
  intro _ p' h' hFilled
  refine Succeeds.bind (Succeeds.get (Succeeds.pure ⟨rfl, hFilled.distinct, fun q => ?_, ?_⟩))
  · rw [hFilled.placed, hCleared.placed]
  · exact hFilled.exception.trans hCleared.exception

/-- What is on record in the revision that is wanted has the breakpoints that are wanted. -/
def Honest (p : Placer) (wanted : BreakpointSet) : Prop :=
  ∀ e ∈ p.installed, wanted.revisions.find? e.1 = some e.2.revision → wanted.bySource.find? e.1 = some e.2.breakpoints

theorem any_stale (hDistinct : p.installed.Distinct) (wanted : BreakpointSet) (q : Path) :
    ((p.stale wanted).any (· == q)) = true ↔
      ∃ i, p.installed.find? q = some i ∧ wanted.revisions.find? q ≠ some i.revision := by
  rw [List.any_eq_true]
  constructor
  · rintro ⟨path, hPath, hKey⟩
    obtain ⟨e, he, rfl⟩ := List.mem_map.mp hPath
    obtain ⟨he, hStale⟩ := List.mem_filter.mp he
    refine ⟨e.2, ?_, ?_⟩
    · rw [← PathMap.find?_congr _ hKey]
      exact hDistinct.find? he
    · rw [← PathMap.find?_congr _ hKey]
      simpa using hStale
  · rintro ⟨i, hFind, hStale⟩
    obtain ⟨path, hKey, he⟩ := PathMap.exists_mem_of_find? hFind
    refine ⟨path, List.mem_map.mpr ⟨(path, i), List.mem_filter.mpr ⟨he, ?_⟩, rfl⟩, hKey⟩
    rw [← PathMap.find?_congr _ hKey] at hStale
    simpa using hStale

/-- After a sync each source has the breakpoints that are wanted, in the revision that is wanted. -/
theorem sync_moved (wanted : BreakpointSet) (hTidy : wanted.Tidy) (hDistinct : p.installed.Distinct)
    (hHonest : p.Honest wanted) (h : History) :
    Succeeds Lives (fun ids p' _ => ids = p'.verified ∧ Moved p wanted.wanted p') (sync wanted) p h := by
  refine Succeeds.mono ?_ (sync_moves wanted hDistinct h)
  rintro ids p' h' ⟨hIds, hMoved⟩
  refine ⟨hIds, hMoved.distinct, fun q => ?_, hMoved.exception⟩
  rw [hMoved.placed]
  have hKeyed := hTidy.keyed q
  by_cases hStale : ((p.stale wanted).any (· == q)) = true
  · rw [if_pos hStale, Option.none_or, BreakpointSet.wanted]
    cases hRevision : wanted.revisions.find? q with
    | some n => cases wanted.bySource.find? q <;> rfl
    | none =>
      rw [hRevision, Option.isSome_none, eq_comm, Option.isSome_eq_false_iff, Option.isNone_iff_eq_none] at hKeyed
      rw [hKeyed]
      rfl
  · rw [if_neg hStale, placedWith, BreakpointSet.wanted]
    cases hFind : p.installed.find? q with
    | none =>
      cases hRevision : wanted.revisions.find? q with
      | some n => cases wanted.bySource.find? q <;> rfl
      | none =>
        rw [hRevision, Option.isSome_none, eq_comm, Option.isSome_eq_false_iff, Option.isNone_iff_eq_none] at hKeyed
        rw [hKeyed]
        rfl
    | some i =>
      have hRevision : wanted.revisions.find? q = some i.revision := by
        by_contra hOther
        exact hStale ((any_stale hDistinct wanted q).mpr ⟨i, hFind, hOther⟩)
      obtain ⟨path, hKey, he⟩ := PathMap.exists_mem_of_find? hFind
      have hSource := hHonest _ he (by rwa [PathMap.find?_congr _ hKey])
      rw [PathMap.find?_congr _ hKey] at hSource
      rw [hSource, hRevision]
      rfl

/-! ## A report of a prepared class -/

/-- A watch finds its source, or changes nothing of what is on record. -/
theorem takeWatched_cases (r : RequestId) (p : Placer) :
    (∃ p', p.takeWatched r = (none, p') ∧ p'.installed = p.installed ∧ p'.exception = p.exception) ∨
      ∃ path i, p.installed.find? path = some i ∧ p.takeWatched r = (some (path, i), (p.take path).2) := by
  unfold takeWatched
  split
  · exact .inl ⟨p, rfl, rfl, rfl⟩
  next path _ =>
  cases hFind : p.installed.find? path with
  | none => exact .inl ⟨(p.take path).2, by simp [take, hFind], PathMap.erase_eq_self hFind, rfl⟩
  | some i => exact .inr ⟨path, i, hFind, by simp [take, hFind]⟩

/-- The breakpoints that a report yields are those that have code from then on, beside those that had some before. -/
theorem classPrepared_gains (r : RequestId) (c : LoadedClass) (p : Placer) (h : History) :
    Succeeds Lives (fun found p' _ => p.installed.Distinct →
      Moved p p.placedWith p' ∧ Gains (found.map (·.1)) p.verified p'.verified) (classPrepared r c) p h := by
  refine Succeeds.bind (Succeeds.modifyGet ?_)
  rcases takeWatched_cases r p with ⟨p', hTaken, hSame, hException⟩ | ⟨path, i, hFind, hTaken⟩
  · rw [hTaken]
    refine Succeeds.pure fun hDistinct => ⟨⟨hSame ▸ hDistinct, fun q => ?_, hException⟩, ?_⟩
    · rw [placedWith, placedWith, hSame]
    · rw [verified, verified, hSame]
      exact .none
  · rw [hTaken]
    refine Succeeds.bind (Succeeds.lift (Routine.Ensures.mono ?_ (placeInClass_gains c i _ h)))
    rintro ⟨_, i'⟩ p₁ h' ⟨found, rfl, hKept, hGains⟩
    have hNone : (PathMap.erase p.installed path).find? path = none := by
      rw [PathMap.find?_erase]
      simp
    have hPut : (p₁.put path i').installed = PathMap.insert path i' (PathMap.erase p.installed path) :=
      congrArg _ hKept.installed
    refine Succeeds.bind (Succeeds.lift ⟨_, rfl, fun hDistinct => ?_⟩)
    obtain ⟨_, -, hPerm⟩ := hDistinct.perm_erase hFind
    have hPerm' : (p₁.put path i').installed.Perm ((path, i') :: PathMap.erase p.installed path) :=
      hPut ▸ PathMap.insert_perm i' hNone
    refine ⟨⟨hPut ▸ (hDistinct.erase path).insert i' hNone, fun q => ?_, hKept.exception⟩, fun id => ?_⟩
    · rw [placedWith, placedWith, hPut, PathMap.find?_insert, PathMap.find?_erase]
      split
      · next hKey =>
        rw [← PathMap.find?_congr _ hKey, hFind, Option.map_some, Option.map_some, hKept.breakpoints, hKept.revision]
      · rfl
    · have hBefore : id ∈ p.verified ↔
          id ∈ i.verified ∨ id ∈ (PathMap.erase p.installed path).flatMap (·.2.verified) := by
        rw [verified, (hPerm.flatMap_right _).mem_iff, List.flatMap_cons, List.mem_append]
      have hAfter : id ∈ (p₁.put path i').verified ↔
          id ∈ i'.verified ∨ id ∈ (PathMap.erase p.installed path).flatMap (·.2.verified) := by
        rw [verified, (hPerm'.flatMap_right _).mem_iff, List.flatMap_cons, List.mem_append]
      rw [hBefore, hAfter, hGains, or_right_comm]

/-! ## Exceptions -/

theorem withdrawException_moved (x : Option (RequestId × Bool × Bool)) (hx : p.exception = x) (h : History) :
    Succeeds Lives (fun _ p' _ => p'.installed = p.installed ∧ p'.exception = none) (withdrawException x) p h := by
  cases x with
  | none => exact Succeeds.pure ⟨rfl, hx⟩
  | some x =>
    have hWithdrawn : ∀ h, Succeeds Lives (fun _ p' _ => p'.installed = p.installed ∧ p'.exception = none)
        (Pure.pure () : Work Unit) { p with exception := none } h := fun _ => Succeeds.pure ⟨rfl, rfl⟩
    refine Succeeds.bind (Succeeds.lift (Succeeds.bind (Succeeds.try_ ?_)))
    intro answer h₁ hAnswer
    constructor
    · rintro _ rfl
      exact hWithdrawn h₁
    · rintro e rfl
      exact ⟨hAnswer.1 e rfl, hWithdrawn h₁⟩

theorem requestException_kept (wanted : Option (Bool × Bool)) (p : Placer) (h : History) :
    Succeeds Lives (fun _ p' _ => p'.installed = p.installed) (requestException wanted) p h := by
  cases wanted with
  | none => exact Succeeds.pure rfl
  | some x =>
    refine Succeeds.bind (Succeeds.try_ ?_)
    intro answer h₁ hAnswer
    constructor
    · rintro r rfl
      exact Succeeds.bind (Succeeds.note (Succeeds.lift rfl))
    · rintro e rfl
      exact ⟨hAnswer.1 e rfl, Succeeds.pure rfl⟩

/-- Filters concern no source. -/
theorem setFilters_kept (filters : ExceptionFilters) (p : Placer) (h : History) :
    Succeeds Lives (fun _ p' _ => p'.installed = p.installed) (setFilters filters) p h := by
  rw [setFilters_eq]
  refine Succeeds.bind (Succeeds.get ?_)
  split
  · exact Succeeds.pure rfl
  · refine Succeeds.bind (Succeeds.mono ?_ (withdrawException_moved p.exception rfl h))
    rintro _ p₁ h₁ ⟨hInstalled, -⟩
    exact hInstalled ▸ requestException_kept (asksFor filters) p₁ h₁

theorem requestException_granted (wanted : Option (Bool × Bool)) (hNone : p.exception = none) (h : History) :
    Succeeds (By Granting) (fun _ p' _ => p'.installed = p.installed ∧ p'.exception.map (·.2) = wanted)
      (requestException wanted) p h := by
  cases wanted with
  | none => exact Succeeds.pure ⟨rfl, by rw [hNone]; rfl⟩
  | some x =>
    refine Succeeds.bind (Succeeds.try_ ?_)
    rintro answer h₁ ⟨⟨hPresent, hGranted⟩, -⟩
    constructor
    · rintro r rfl
      exact Succeeds.bind (Succeeds.note (Succeeds.lift ⟨rfl, rfl⟩))
    · rintro e rfl
      cases hGranted x.1 x.2 rfl

theorem lives_of_granting {h h' : History} {c : Backend.Call} {a : Backend.Answer c} (hAnswer : By Granting h c a h') :
    Lives h c a h' :=
  ⟨hAnswer.1.1, hAnswer.2⟩

/-- The request for exceptions is what the filters ask for, where it is granted. -/
theorem setFilters_granted (filters : ExceptionFilters) (p : Placer) (h : History) :
    Succeeds (By Granting) (fun _ p' _ => p'.installed = p.installed ∧ p'.exception.map (·.2) = asksFor filters)
      (setFilters filters) p h := by
  rw [setFilters_eq]
  refine Succeeds.bind (Succeeds.get ?_)
  split
  · next hSame => exact Succeeds.pure ⟨rfl, hSame.symm⟩
  · have hWithdrawn := Routine.Ensures.restrict (fun _ _ _ _ => lives_of_granting) (withdrawException_moved p.exception rfl h)
    refine Succeeds.bind (Succeeds.mono ?_ hWithdrawn)
    rintro _ p₁ h₁ ⟨hInstalled, hNone⟩
    exact hInstalled ▸ requestException_granted (asksFor filters) hNone h₁

end Placer
end JvmDebug
