import JvmDebug.Proofs.Placement.Source

/-!
# What was asked for a source

The calls that are made for a source, in order and with their answers, each of which may be a refusal. An `Aim` is a
breakpoint that was looked up in a class, and requested wherever its line was told to begin; a `Search` is a candidate
that was looked up, with the aims at its classes and the watches that were asked for. What stands on record of a source
is a function of the answers.
-/

namespace JvmDebug
set_option autoImplicit false

open Jdwp (LoadedClass Location RequestId)
open Backend (History Interleaved Alive)

namespace Backend

variable {rule : Rule} {h h' : History} {c : Call} {a : Answer c}

def Happening.isAnswer : Happening → Bool
  | .answered .. => true
  | .prepared .. => false

/-- The calls that were answered; what the machine did of its own accord is left out. -/
def calls (h : History) : History := h.filter Happening.isAnswer

theorem calls_preparing (classes : List (String × LoadedClass)) : calls (h ++ preparing classes) = calls h := by
  have hNone : (preparing classes).filter Happening.isAnswer = [] := by
    rw [List.filter_eq_nil_iff]
    intro x hx
    obtain ⟨e, -, rfl⟩ := List.mem_map.mp hx
    simp [Happening.isAnswer]
  rw [calls, List.filter_append, hNone, List.append_nil, calls]

theorem Interleaved.calls (hAnswer : Interleaved rule h c a h') : calls h' = Backend.calls h ++ [.answered c a] := by
  obtain ⟨classes, rfl, -⟩ := hAnswer
  rw [Backend.calls, List.filter_append, ← Backend.calls, calls_preparing]
  rfl

theorem issued_calls (h : History) : issued (calls h) = issued h := by
  rw [issued, calls, List.filterMap_filter, issued]
  apply List.filterMap_congr
  rintro (_ | _) _ <;> rfl

end Backend

def granted (id : Int) (requests : List (Location × Except Jdwp.Error RequestId)) : List Placement :=
  requests.filterMap fun x => x.2.toOption.map (⟨·, id, x.1⟩)

def requestCalls (requests : List (Location × Except Jdwp.Error RequestId)) : History :=
  requests.map fun x => .answered (.setBreakpoint x.1) x.2

structure Aim where
  breakpoint : Breakpoint
  told : Except Jdwp.Error (List Location)
  requests : List (Location × Except Jdwp.Error RequestId)
  everywhere : requests.map (·.1) = told.toOption.getD []

namespace Aim

def calls (c : LoadedClass) (a : Aim) : History :=
  .answered (.lineLocations c a.breakpoint.line) a.told :: requestCalls a.requests

def placements (a : Aim) : List Placement := granted a.breakpoint.id a.requests

theorem mem_placements {a : Aim} {r : RequestId} {l : Location} :
    (∃ x ∈ a.placements, x.request = r ∧ x.location = l) ↔ (l, .ok r) ∈ a.requests := by
  constructor
  · rintro ⟨x, hx, rfl, rfl⟩
    obtain ⟨⟨l, answer⟩, hRequest, hGranted⟩ := List.mem_filterMap.mp hx
    cases answer <;> cases hGranted
    exact hRequest
  · intro hRequest
    exact ⟨⟨r, a.breakpoint.id, l⟩, List.mem_filterMap.mpr ⟨_, hRequest, rfl⟩, rfl, rfl⟩

theorem placements_ne_nil_iff {a : Aim} : a.placements ≠ [] ↔ ∃ l r, (l, .ok r) ∈ a.requests := by
  constructor
  · intro hSome
    obtain ⟨x, hx⟩ := List.exists_mem_of_ne_nil _ hSome
    exact ⟨x.location, x.request, mem_placements.mp ⟨x, hx, rfl, rfl⟩⟩
  · rintro ⟨l, r, hRequest⟩
    obtain ⟨x, hx, -⟩ := mem_placements.mpr hRequest
    exact List.ne_nil_of_mem hx

end Aim

/-- The breakpoints of aims that have code now and were not known to have any, with their lines. -/
def gained : List Int → List Aim → List (Int × UInt32)
  | _, [] => []
  | known, a :: rest =>
    if a.placements ≠ [] ∧ a.breakpoint.id ∉ known then
      (a.breakpoint.id, a.breakpoint.line) :: gained (known ++ [a.breakpoint.id]) rest
    else gained known rest

section Gained

variable {known : List Int} {aims aims' : List Aim} {id : Int} {i : Installed} {watches watches' : List RequestId}

theorem gained_append (known : List Int) (aims aims' : List Aim) :
    gained known (aims ++ aims') = gained known aims ++ gained (known ++ (gained known aims).map (·.1)) aims' := by
  induction aims generalizing known with
  | nil => simp [gained]
  | cons a rest ih =>
    rw [List.cons_append, gained, gained]
    split
    · rw [ih]
      simp
    · exact ih known

/-- What is gained was not known before, and is gained once. -/
theorem nodup_gained (known : List Int) (aims : List Aim) :
    ((gained known aims).map (·.1)).Nodup ∧ ∀ id ∈ (gained known aims).map (·.1), id ∉ known := by
  induction aims generalizing known with
  | nil => exact ⟨List.nodup_nil, by simp [gained]⟩
  | cons a rest ih =>
    rw [gained]
    split
    · next hNew =>
      obtain ⟨hOnce, hFresh⟩ := ih (known ++ [a.breakpoint.id])
      rw [List.map_cons, List.nodup_cons, List.forall_mem_cons]
      refine ⟨⟨fun hMem => ?_, hOnce⟩, hNew.2, fun id hId hKnown => ?_⟩
      · exact hFresh _ hMem (List.mem_append_right _ (List.mem_singleton_self _))
      · exact hFresh id hId (List.mem_append_left _ hKnown)
    · exact ih known

theorem known_or_gained_iff :
    id ∈ known ++ (gained known aims).map (·.1) ↔ id ∈ known ∨ ∃ a ∈ aims, a.breakpoint.id = id ∧ a.placements ≠ [] := by
  induction aims generalizing known with
  | nil => simp [gained]
  | cons a rest ih =>
    simp only [gained, List.mem_cons, or_and_right, exists_or, exists_eq_left]
    split
    · next hNew =>
      rw [List.map_cons, ← List.singleton_append, ← List.append_assoc, ih, List.mem_append, List.mem_singleton]
      grind
    · next hOld =>
      rw [ih]
      grind

namespace Installed

/-- What stands on record of a source after more aims were taken and more watches were set. -/
def grow (i : Installed) (aims : List Aim) (watches : List RequestId) : Installed where
  revision := i.revision
  breakpoints := i.breakpoints
  placements := i.placements ++ aims.flatMap (·.placements)
  watches := i.watches ++ watches
  verified := i.verified ++ (gained i.verified aims).map (·.1)

@[simp] theorem revision_grow : (i.grow aims watches).revision = i.revision := rfl

@[simp] theorem breakpoints_grow : (i.grow aims watches).breakpoints = i.breakpoints := rfl

@[simp] theorem grow_nil : i.grow [] [] = i := by simp [grow, gained]

theorem grow_grow : (i.grow aims watches).grow aims' watches' = i.grow (aims ++ aims') (watches ++ watches') := by
  simp [grow, gained_append]

theorem mem_verified_grow :
    id ∈ (i.grow aims watches).verified ↔ id ∈ i.verified ∨ ∃ a ∈ aims, a.breakpoint.id = id ∧ a.placements ≠ [] :=
  known_or_gained_iff

end Installed
end Gained

/-- The breakpoints of a source, each looked up in a class. -/
structure Tour where
  cls : LoadedClass
  aims : List Aim

def Tour.calls (t : Tour) : History := t.aims.flatMap (·.calls t.cls)

/-- A candidate of a source that was looked up. It is watched for if no class was told, and the ones nested in it are
in any case. -/
structure Search where
  name : String
  told : Except Jdwp.Error (List LoadedClass)
  own : Option (Except Jdwp.Error RequestId)
  tours : List Tour
  nested : Except Jdwp.Error RequestId
  everywhere : tours.map (·.cls) = told.toOption.getD []
  watched : own.isSome = tours.isEmpty

namespace Search

def calls (s : Search) : History :=
  .answered (.loadedClasses s.name) s.told :: (s.own.toList.map (.answered (.setWatch s.name) ·) ++
    s.tours.flatMap (·.calls) ++ [.answered (.setWatch (Placer.nestedPattern s.name)) s.nested])

def aims (s : Search) : List Aim := s.tours.flatMap (·.aims)

def watches (s : Search) : List RequestId := (s.own.toList ++ [s.nested]).filterMap Except.toOption

/-- In each class the search was for all of the breakpoints. -/
def About (s : Search) (breakpoints : List Breakpoint) : Prop := ∀ t ∈ s.tours, t.aims.map (·.breakpoint) = breakpoints

end Search

namespace Placer

/-- Calls were made for a source, and what stands on record comes from their answers. -/
structure Makes (path : Path) (made : History) (aims : List Aim) (watches : List RequestId) (i : Installed) (p : Placer)
    (h : History) (i' : Installed) (p' : Placer) (h' : History) : Prop where
  source : i' = i.grow aims watches
  placer : p' = p.watching path watches
  calls : Backend.calls h' = Backend.calls h ++ made

variable {path : Path} {made made' : History} {aims aims' : List Aim} {watches watches' : List RequestId} {i i₁ i' : Installed}
  {p p₁ p' : Placer} {h h₁ h' : History}

theorem Makes.refl : Makes path [] [] [] i p h i p h := ⟨Installed.grow_nil.symm, rfl, (List.append_nil _).symm⟩

theorem Makes.trans (hFirst : Makes path made aims watches i p h i₁ p₁ h₁)
    (hSecond : Makes path made' aims' watches' i₁ p₁ h₁ i' p' h') :
    Makes path (made ++ made') (aims ++ aims') (watches ++ watches') i p h i' p' h' where
  source := by rw [hSecond.source, hFirst.source, Installed.grow_grow]
  placer := by rw [hSecond.placer, hFirst.placer, watching_watching]
  calls := by rw [hSecond.calls, hFirst.calls, List.append_assoc]

theorem Makes.ask {c : Backend.Call} {a : Backend.Answer c} (hAnswer : Interleaved Alive h c a h') :
    Makes path [.answered c a] [] [] i p h i p h' :=
  ⟨Installed.grow_nil.symm, rfl, hAnswer.calls⟩

/-! ## Placing in a class -/

theorem placeAt_makes (id : Int) (locations : List Location) (i : Installed) (p : Placer) (h : History) :
    SourceSucceeds (Interleaved Alive) (fun placed i' p' h' => ∃ requests, requests.map (·.1) = locations ∧
      Backend.calls h' = Backend.calls h ++ requestCalls requests ∧ p' = p ∧
      i' = { i with placements := i.placements ++ granted id requests } ∧ (placed = true ↔ granted id requests ≠ []))
      (placeAt id locations) i p h := by
  induction locations generalizing i h with
  | nil => exact SourceSucceeds.pure ⟨[], rfl, by simp [requestCalls], rfl, by simp [granted], by simp [granted]⟩
  | cons l rest ih =>
    apply SourceSucceeds.bind
    apply SourceSucceeds.trySource
    intro answer h₁ hAnswer
    constructor
    · rintro r rfl
      apply SourceSucceeds.bind
      apply SourceSucceeds.modify
      apply SourceSucceeds.bind
      apply SourceSucceeds.mono _ (ih _ h₁)
      rintro placed i' p' h' ⟨requests, rfl, hCalls, rfl, rfl, -⟩
      apply SourceSucceeds.pure
      refine ⟨(l, .ok r) :: requests, rfl, ?_, rfl, ?_, ?_⟩
      · rw [hCalls, hAnswer.calls]
        simp [requestCalls]
      · simp [granted, Except.toOption]
      · simp [granted, Except.toOption]
    · rintro e rfl
      refine ⟨hAnswer.tolerable rfl, ?_⟩
      apply SourceSucceeds.mono _ (ih _ h₁)
      rintro placed i' p' h' ⟨requests, rfl, hCalls, rfl, rfl, hPlaced⟩
      refine ⟨(l, .error e) :: requests, rfl, ?_, rfl, ?_, ?_⟩
      · rw [hCalls, hAnswer.calls]
        simp [requestCalls]
      · simp [granted, Except.toOption]
      · simpa [granted, Except.toOption] using hPlaced

/-- A breakpoint is marked if something was placed for it; what the marking says is what is gained. -/
theorem markIfPlaced_makes {α : Type} {post : α → Installed → Placer → History → Prop} {next : Bool → SourceWork α}
    (a : Aim) {placed : Bool} (hPlaced : placed = true ↔ a.placements ≠ [])
    (hNext : ∀ isNew, (if isNew then [(a.breakpoint.id, a.breakpoint.line)] else []) = gained i.verified [a] →
      SourceSucceeds (Interleaved Alive) post (next isNew) (i.grow [a] []) p h) :
    SourceSucceeds (Interleaved Alive) post
      (if placed = true then markVerified a.breakpoint.id >>= next else pure false >>= next)
      { i with placements := i.placements ++ a.placements } p h := by
  have hGrown : ∀ verified, verified = i.verified ++ (gained i.verified [a]).map (·.1) →
      { i with placements := i.placements ++ a.placements, verified := verified } = i.grow [a] [] := by
    rintro _ rfl
    simp [Installed.grow]
  cases placed with
  | false =>
    have hNone : a.placements = [] := by simpa using hPlaced
    have hGained : gained i.verified [a] = [] := by simp [gained, hNone]
    have hSame := hGrown i.verified (by simp [hGained])
    rw [if_neg Bool.false_ne_true]
    apply SourceSucceeds.bind
    apply SourceSucceeds.pure
    rw [hSame]
    exact hNext false hGained.symm
  | true =>
    have hSome := hPlaced.mp rfl
    rw [if_pos rfl]
    apply SourceSucceeds.bind
    apply SourceSucceeds.bind
    apply SourceSucceeds.get
    by_cases hMem : a.breakpoint.id ∈ i.verified
    · have hGained : gained i.verified [a] = [] := by simp [gained, hMem]
      have hSame := hGrown i.verified (by simp [hGained])
      rw [if_pos hMem]
      apply SourceSucceeds.pure
      rw [hSame]
      exact hNext false hGained.symm
    · have hGained : gained i.verified [a] = [(a.breakpoint.id, a.breakpoint.line)] := by simp [gained, hSome, hMem]
      have hSame := hGrown (i.verified ++ [a.breakpoint.id]) (by simp [hGained])
      rw [if_neg hMem]
      apply SourceSucceeds.bind
      apply SourceSucceeds.modify
      apply SourceSucceeds.pure
      rw [hSame]
      exact hNext true hGained.symm

theorem placeEach_makes (path : Path) (c : LoadedClass) (breakpoints : List Breakpoint) (i : Installed) (p : Placer)
    (h : History) :
    SourceSucceeds (Interleaved Alive) (fun found i' p' h' => ∃ aims, aims.map (·.breakpoint) = breakpoints ∧
      found = gained i.verified aims ∧ Makes path (aims.flatMap (·.calls c)) aims [] i p h i' p' h')
      (placeEach c breakpoints) i p h := by
  induction breakpoints generalizing i p h with
  | nil => exact SourceSucceeds.pure ⟨[], rfl, rfl, .refl⟩
  | cons b rest ih =>
    have hRest : ∀ (answer : Except Jdwp.Error (List Location)) (h₁ : History),
        Interleaved Alive h (.lineLocations c b.line) answer h₁ → SourceSucceeds (Interleaved Alive)
          (fun found i' p' h' => ∃ aims, aims.map (·.breakpoint) = b :: rest ∧
            found = gained i.verified aims ∧ Makes path (aims.flatMap (·.calls c)) aims [] i p h i' p' h') (do
              let placed ← placeAt b.id (answer.toOption.getD [])
              let isNew ← if placed then markVerified b.id else pure false
              let others ← placeEach c rest
              return if isNew then (b.id, b.line) :: others else others) i p h₁ := by
      intro answer h₁ hAnswer
      apply SourceSucceeds.bind
      apply SourceSucceeds.mono _ (placeAt_makes b.id _ i p h₁)
      rintro placed i₂ p₂ h₂ ⟨requests, hEverywhere, hCalls, rfl, rfl, hPlaced⟩
      obtain ⟨a, rfl, rfl, rfl⟩ : ∃ a : Aim, b = a.breakpoint ∧ answer = a.told ∧ requests = a.requests :=
        ⟨⟨b, answer, requests, hEverywhere⟩, rfl, rfl, rfl⟩
      apply markIfPlaced_makes a hPlaced
      intro isNew hNew
      apply SourceSucceeds.bind
      apply SourceSucceeds.mono _ (ih _ p₂ h₂)
      rintro others i' p' h' ⟨aims, rfl, rfl, hMakes⟩
      apply SourceSucceeds.pure
      refine ⟨a :: aims, rfl, ?_, ?_⟩
      · have hVerified : (i.grow [a] []).verified = i.verified ++ (gained i.verified [a]).map (·.1) := rfl
        change _ = gained i.verified ([a] ++ aims)
        rw [hVerified, gained_append, ← hNew]
        cases isNew <;> rfl
      · have hFirst : Makes path (a.calls c) [a] [] i p₂ h (i.grow [a] []) p₂ h₂ := by
          refine ⟨rfl, rfl, ?_⟩
          rw [hCalls, hAnswer.calls, List.append_assoc]
          rfl
        exact hFirst.trans hMakes
    apply SourceSucceeds.bind
    apply SourceSucceeds.trySource
    intro answer h₁ hAnswer
    constructor
    · rintro locations rfl
      exact hRest _ h₁ hAnswer
    · rintro e rfl
      exact ⟨hAnswer.tolerable rfl, hRest _ h₁ hAnswer⟩

theorem placeInClass_makes (path : Path) (c : LoadedClass) (i : Installed) (p : Placer) (h : History) :
    SourceSucceeds (Interleaved Alive) (fun found i' p' h' => ∃ aims, aims.map (·.breakpoint) = i.breakpoints ∧
      found = gained i.verified aims ∧ Makes path (aims.flatMap (·.calls c)) aims [] i p h i' p' h')
      (placeInClass c) i p h :=
  SourceSucceeds.bind (SourceSucceeds.get (placeEach_makes path c i.breakpoints i p h))

theorem placeInClasses_makes (path : Path) (classes : List LoadedClass) (i : Installed) (p : Placer) (h : History) :
    SourceSucceeds (Interleaved Alive) (fun _ i' p' h' => ∃ tours : List Tour, tours.map (·.cls) = classes ∧
      (∀ t ∈ tours, t.aims.map (·.breakpoint) = i.breakpoints) ∧
      Makes path (tours.flatMap (·.calls)) (tours.flatMap (·.aims)) [] i p h i' p' h')
      (placeInClasses classes) i p h := by
  induction classes generalizing i p h with
  | nil => exact SourceSucceeds.pure ⟨[], rfl, by simp, .refl⟩
  | cons c rest ih =>
    apply SourceSucceeds.bind
    apply SourceSucceeds.mono _ (placeInClass_makes path c i p h)
    rintro _ i₁ p₁ h₁ ⟨aims, hAims, -, hFirst⟩
    apply SourceSucceeds.mono _ (ih i₁ p₁ h₁)
    rintro _ i' p' h' ⟨tours, rfl, hTours, hRest⟩
    refine ⟨⟨c, aims⟩ :: tours, rfl, List.forall_mem_cons.mpr ⟨hAims, ?_⟩, hFirst.trans hRest⟩
    intro t ht
    rw [hTours t ht, hFirst.source, Installed.breakpoints_grow]

/-! ## Placing a source -/

theorem watch_makes (path : Path) (pattern : String) (i : Installed) (p : Placer) (h : History) :
    SourceSucceeds (Interleaved Alive) (fun _ i' p' h' => ∃ answer : Except Jdwp.Error RequestId,
      Makes path [.answered (.setWatch pattern) answer] [] answer.toOption.toList i p h i' p' h')
      (watch path pattern) i p h := by
  apply SourceSucceeds.bind
  apply SourceSucceeds.trySource
  intro answer h₁ hAnswer
  constructor
  · rintro r rfl
    apply SourceSucceeds.bind
    apply SourceSucceeds.note
    apply SourceSucceeds.bind
    apply SourceSucceeds.modify
    apply SourceSucceeds.routine
    refine ⟨.ok r, ?_, rfl, hAnswer.calls⟩
    simp [Installed.grow, gained, Except.toOption]
  · rintro e rfl
    exact ⟨hAnswer.tolerable rfl, SourceSucceeds.pure ⟨.error e, .ask hAnswer⟩⟩

/-- A class is watched for if none was told, before the work goes on. -/
theorem watchIfNone_makes {α : Type} {post : α → Installed → Placer → History → Prop} {next : Unit → SourceWork α}
    {name : String} {classes : List LoadedClass}
    (hNext : ∀ (own : Option (Except Jdwp.Error RequestId)) i' p' h', own.isSome = classes.isEmpty →
      Makes path (own.toList.map (.answered (.setWatch name) ·)) [] (own.toList.filterMap Except.toOption) i p h i' p' h' →
      SourceSucceeds (Interleaved Alive) post (next ()) i' p' h') :
    SourceSucceeds (Interleaved Alive) post
      (if classes.isEmpty = true then watch path name >>= next else next ()) i p h := by
  cases classes with
  | nil =>
    apply SourceSucceeds.bind
    apply SourceSucceeds.mono _ (watch_makes path name i p h)
    rintro _ i' p' h' ⟨answer, hMakes⟩
    apply hNext (some answer) i' p' h' rfl
    cases answer <;> exact hMakes
  | cons c rest => exact hNext none i p h rfl .refl

theorem placeCandidates_makes (path : Path) (names : List String) (i : Installed) (p : Placer) (h : History) :
    SourceSucceeds (Interleaved Alive) (fun _ i' p' h' => ∃ searches : List Search, searches.map (·.name) = names ∧
      (∀ s ∈ searches, s.About i.breakpoints) ∧
      Makes path (searches.flatMap (·.calls)) (searches.flatMap (·.aims)) (searches.flatMap (·.watches)) i p h i' p' h')
      (placeCandidates path names) i p h := by
  induction names generalizing i p h with
  | nil => exact SourceSucceeds.pure ⟨[], rfl, by simp, .refl⟩
  | cons name rest ih =>
    have hRest : ∀ (answer : Except Jdwp.Error (List LoadedClass)) (h₁ : History),
        Interleaved Alive h (.loadedClasses name) answer h₁ → SourceSucceeds (Interleaved Alive)
          (fun _ i' p' h' => ∃ searches : List Search, searches.map (·.name) = name :: rest ∧
            (∀ s ∈ searches, s.About i.breakpoints) ∧ Makes path (searches.flatMap (·.calls)) (searches.flatMap (·.aims))
              (searches.flatMap (·.watches)) i p h i' p' h') (do
            if (answer.toOption.getD []).isEmpty then watch path name
            placeInClasses (answer.toOption.getD [])
            watch path (nestedPattern name)
            placeCandidates path rest) i p h₁ := by
      intro answer h₁ hAnswer
      apply watchIfNone_makes
      intro own i₂ p₂ h₂ hOwn hWatch
      apply SourceSucceeds.bind
      apply SourceSucceeds.mono _ (placeInClasses_makes path _ i₂ p₂ h₂)
      rintro _ i₃ p₃ h₃ ⟨tours, hClasses, hTours, hVisits⟩
      apply SourceSucceeds.bind
      apply SourceSucceeds.mono _ (watch_makes path (nestedPattern name) i₃ p₃ h₃)
      rintro _ i₄ p₄ h₄ ⟨nested, hNested⟩
      apply SourceSucceeds.mono _ (ih i₄ p₄ h₄)
      rintro _ i' p' h' ⟨searches, rfl, hAbout, hOthers⟩
      have hWatched : own.isSome = tours.isEmpty := by
        rw [hOwn, ← hClasses]
        simp
      have hAll := (((Makes.ask hAnswer).trans hWatch).trans hVisits).trans hNested
      refine ⟨⟨name, answer, own, tours, nested, hClasses, hWatched⟩ :: searches, rfl, ?_, ?_⟩
      · rw [List.forall_mem_cons]
        constructor
        · intro t ht
          rw [hTours t ht, hWatch.source, Installed.breakpoints_grow]
        · intro s hs t ht
          rw [hAbout s hs t ht, hAll.source, Installed.breakpoints_grow]
      · have hEntire := hAll.trans hOthers
        have hAsked : Search.watches ⟨name, answer, own, tours, nested, hClasses, hWatched⟩ =
            own.toList.filterMap Except.toOption ++ nested.toOption.toList := by
          cases nested <;> simp [Search.watches, Except.toOption]
        simpa [Search.calls, Search.aims, hAsked] using hEntire
    apply SourceSucceeds.bind
    apply SourceSucceeds.trySource
    intro answer h₁ hAnswer
    constructor
    · rintro classes rfl
      exact hRest _ h₁ hAnswer
    · rintro e rfl
      exact ⟨hAnswer.tolerable rfl, hRest _ h₁ hAnswer⟩

end Placer
end JvmDebug
