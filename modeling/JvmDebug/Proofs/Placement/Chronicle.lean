import Mathlib.Data.List.Flatten
import JvmDebug.Proofs.Placement.Stages

/-!
# What stands on record after some stages

The stages that a placer went through say what it has on record: the requests that were granted and not cleared since,
each under its own source, and the breakpoints for which a request was granted since their source was placed.
-/

namespace JvmDebug
set_option autoImplicit false

open Jdwp (LoadedClass Location RequestId EventKind)
open Backend (History)

/-! ## What a machine has granted -/

namespace Backend

def Happening.set? : Happening → Option (EventKind × RequestId)
  | .answered (.setBreakpoint _) (.ok r) => some (.breakpoint, r)
  | .answered (.setWatch _) (.ok r) => some (.classPrepare, r)
  | _ => none

/-- A request that was to be cleared, whether or not the machine did so. -/
def Happening.cleared? : Happening → Option (EventKind × RequestId)
  | .answered (.clearBreakpoint r) _ => some (.breakpoint, r)
  | .answered (.clearWatch r) _ => some (.classPrepare, r)
  | _ => none

def sets (h : History) : List (EventKind × RequestId) := h.filterMap Happening.set?

def clearings (h : History) : List (EventKind × RequestId) := h.filterMap Happening.cleared?

/-- The requests that were granted, and that no call was made to clear. -/
def uncleared (h : History) : List (EventKind × RequestId) := (sets h).filter (· ∉ clearings h)

variable {h k : History}

@[simp] theorem sets_append : sets (h ++ k) = sets h ++ sets k := List.filterMap_append

@[simp] theorem clearings_append : clearings (h ++ k) = clearings h ++ clearings k := List.filterMap_append

theorem sets_calls (h : History) : sets (calls h) = sets h := by
  rw [sets, calls, List.filterMap_filter, sets]
  apply List.filterMap_congr
  rintro (_ | _) _ <;> rfl

theorem clearings_calls (h : History) : clearings (calls h) = clearings h := by
  rw [clearings, calls, List.filterMap_filter, clearings]
  apply List.filterMap_congr
  rintro (_ | _) _ <;> rfl

theorem sets_sublist_issued (h : History) : ((sets h).map (·.2)).Sublist (issued h) := by
  induction h with
  | nil => exact List.nil_sublist _
  | cons x rest ih =>
    have hOne : ((sets [x]).map (·.2)).Sublist (issued [x]) := by
      unfold sets issued
      cases x with
      | prepared name c => exact List.nil_sublist _
      | answered c a =>
        cases c with
        | setBreakpoint l => cases a <;> exact List.Sublist.refl _
        | setWatch pattern => cases a <;> exact List.Sublist.refl _
        | _ => exact List.nil_sublist _
    rw [← List.singleton_append, sets_append, issued_append, List.map_append]
    exact hOne.append ih

theorem nodup_sets (hOnce : (issued h).Nodup) : (sets h).Nodup :=
  List.Nodup.of_map _ (hOnce.sublist (sets_sublist_issued h))

/-- What is granted while nothing is cleared is not cleared. -/
theorem uncleared_append (hNone : clearings k = []) (hOnce : (sets (h ++ k)).Nodup)
    (hKnown : ∀ x ∈ clearings h, x ∈ sets h) : uncleared (h ++ k) = uncleared h ++ sets k := by
  have hNew : (sets k).filter (· ∉ clearings h) = sets k := by
    rw [List.filter_eq_self]
    intro x hx
    rw [sets_append, List.nodup_append] at hOnce
    simpa using fun hCleared => hOnce.2.2 x (hKnown x hCleared) x hx rfl
  rw [uncleared, sets_append, clearings_append, hNone, List.append_nil, List.filter_append, hNew, uncleared]

theorem uncleared_clear (hNone : sets k = []) : uncleared (h ++ k) = (uncleared h).filter (· ∉ clearings k) := by
  simp [uncleared, hNone, Bool.and_comm]

end Backend

open Backend (sets clearings uncleared)
open scoped List

/-! ## What was granted in the calls for a source -/

def Placement.held (x : Placement) : EventKind × RequestId := (.breakpoint, x.request)

theorem sets_requestCalls (id : Int) (requests : List (Location × Except Jdwp.Error RequestId)) :
    sets (requestCalls requests) = (granted id requests).map (·.held) := by
  induction requests with
  | nil => rfl
  | cons x rest ih =>
    obtain ⟨l, answer⟩ := x
    cases answer with
    | ok r => exact congrArg (_ :: ·) ih
    | error e => exact ih

theorem clearings_requestCalls (requests : List (Location × Except Jdwp.Error RequestId)) :
    clearings (requestCalls requests) = [] := by
  rw [clearings, requestCalls, List.filterMap_map, List.filterMap_eq_nil_iff]
  exact fun _ _ => rfl

namespace Tour

theorem sets_calls (t : Tour) : sets t.calls = (t.aims.flatMap (·.placements)).map (·.held) := by
  rw [calls, sets, List.filterMap_flatMap, List.map_flatMap]
  apply List.flatMap_congr
  intro a _
  exact sets_requestCalls a.breakpoint.id a.requests

theorem clearings_calls (t : Tour) : clearings t.calls = [] := by
  rw [calls, clearings, List.filterMap_flatMap, List.flatMap_eq_nil_iff]
  intro a _
  exact clearings_requestCalls a.requests

end Tour

namespace Search

theorem sets_calls (s : Search) :
    (sets s.calls).Perm ((s.aims.flatMap (·.placements)).map (·.held) ++ s.watches.map (EventKind.classPrepare, ·)) := by
  have hWatch : ∀ (pattern : String) (answers : List (Except Jdwp.Error RequestId)),
      sets (answers.map (.answered (.setWatch pattern) ·)) =
        (answers.filterMap Except.toOption).map (EventKind.classPrepare, ·) := by
    intro pattern answers
    rw [sets, List.filterMap_map, List.map_filterMap]
    apply List.filterMap_congr
    rintro (_ | _) _ <;> rfl
  have hTours : sets (s.tours.flatMap (·.calls)) = (s.aims.flatMap (·.placements)).map (·.held) := by
    rw [sets, List.filterMap_flatMap, aims, List.flatMap_assoc, List.map_flatMap]
    exact List.flatMap_congr fun t _ => t.sets_calls
  have hNested := hWatch (Placer.nestedPattern s.name) [s.nested]
  rw [List.map_singleton] at hNested
  have hAll : sets s.calls = sets (s.own.toList.map (.answered (.setWatch s.name) ·)) ++
      sets (s.tours.flatMap (·.calls)) ++ sets [.answered (.setWatch (Placer.nestedPattern s.name)) s.nested] := by
    rw [← Backend.sets_append, ← Backend.sets_append]
    rfl
  rw [hAll, hWatch, hTours, hNested, watches, List.filterMap_append, List.map_append, ← List.append_assoc]
  exact List.perm_append_comm.append_right _

theorem clearings_calls (s : Search) : clearings s.calls = [] := by
  have hOwn : clearings (s.own.toList.map (.answered (.setWatch s.name) ·)) = [] := by
    rw [clearings, List.filterMap_map, List.filterMap_eq_nil_iff]
    exact fun _ _ => rfl
  have hTours : clearings (s.tours.flatMap (·.calls)) = [] := by
    rw [clearings, List.filterMap_flatMap, List.flatMap_eq_nil_iff]
    exact fun t _ => t.clearings_calls
  have hAll : clearings s.calls = clearings (s.own.toList.map (.answered (.setWatch s.name) ·)) ++
      clearings (s.tours.flatMap (·.calls)) ++ clearings [.answered (.setWatch (Placer.nestedPattern s.name)) s.nested] := by
    rw [← Backend.clearings_append, ← Backend.clearings_append]
    rfl
  rw [hAll, hOwn, hTours]
  rfl

end Search

namespace Installed

/-- The requests on record of a source. -/
def held (i : Installed) : List (EventKind × RequestId) :=
  i.placements.map (·.held) ++ i.watches.map (EventKind.classPrepare, ·)

theorem held_grow (i : Installed) (aims : List Aim) (watches : List RequestId) :
    (i.grow aims watches).held.Perm
      (i.held ++ ((aims.flatMap (·.placements)).map (·.held) ++ watches.map (EventKind.classPrepare, ·))) := by
  rw [List.perm_iff_count]
  intro x
  simp only [held, grow, List.map_append, List.count_append]
  omega

end Installed

namespace Placer

variable {path : Path} {stages : List Stage} {stage : Stage} {p p' : Placer} {h : History}

def held (p : Placer) : List (EventKind × RequestId) := p.installed.flatMap (·.2.held)

theorem held_put {i : Installed} (hNone : p.installed.find? path = none) : (p.put path i).held.Perm (i.held ++ p.held) :=
  (PathMap.insert_perm i hNone).flatMap_right _

theorem held_erase {i : Installed} (hDistinct : p.installed.Distinct) (hFind : p.installed.find? path = some i) :
    p.held.Perm (i.held ++ (PathMap.erase p.installed path).flatMap (·.2.held)) := by
  obtain ⟨_, -, hPerm⟩ := hDistinct.perm_erase hFind
  exact hPerm.flatMap_right _

theorem find?_erase_self (path : Path) (entries : PathMap Installed) :
    PathMap.find? (PathMap.erase entries path) path = none := by
  simp [PathMap.find?_erase]

/-! ## One stage -/

/-- What a stage does to the requests on record: those that it cleared are taken out, or those that it was granted come
to them. -/
theorem Turns.held_perm (hTurns : Turns p stage p') (hDistinct : p.installed.Distinct) :
    sets stage.calls = [] ∧ (clearings stage.calls ++ p'.held).Perm p.held ∨
      clearings stage.calls = [] ∧ p'.held.Perm (p.held ++ sets stage.calls) := by
  cases hTurns with
  | @clear path i locations watches hFind hLocations hWatches =>
    have hSets : sets (Stage.calls (.clear path i.revision locations watches)) = [] := by
      simp [sets, Stage.calls, Backend.Happening.set?]
    have hCleared : clearings (Stage.calls (.clear path i.revision locations watches)) = i.held := by
      have hHeld : i.held = (locations.map (·.1)).map (EventKind.breakpoint, ·) ++
          (watches.map (·.1)).map (EventKind.classPrepare, ·) := by
        rw [hLocations, hWatches, List.map_map]
        rfl
      rw [hHeld, Stage.calls, Backend.clearings_append, clearings, clearings, List.filterMap_map, List.filterMap_map,
        List.map_map, List.map_map, ← List.filterMap_eq_map, ← List.filterMap_eq_map]
      rfl
    rw [hCleared]
    exact .inl ⟨hSets, (held_erase hDistinct hFind).symm⟩
  | @install path revision breakpoints searches hNone hNames hAbout =>
    apply Or.inr
    constructor
    · rw [Stage.calls, clearings, List.filterMap_flatMap, List.flatMap_eq_nil_iff]
      exact fun s _ => s.clearings_calls
    · have hSets : (sets (Stage.calls (.install path revision breakpoints searches))).Perm
          (((searches.flatMap (·.aims)).flatMap (·.placements)).map (·.held) ++
            (searches.flatMap (·.watches)).map (EventKind.classPrepare, ·)) := by
        rw [Stage.calls, sets, List.filterMap_flatMap, List.flatMap_assoc, List.map_flatMap, List.map_flatMap]
        exact (List.Perm.flatMap_left _ fun s _ => s.sets_calls).trans (List.flatMap_append_perm ..).symm
      have hNone' : (p.watching path (searches.flatMap (·.watches))).installed.find? path = none := by
        rwa [installed_watching]
      have hHeld : (p.watching path (searches.flatMap (·.watches))).held = p.held := by
        rw [held, installed_watching, held]
      have hGrown : (Installed.grow { revision, breakpoints } (searches.flatMap (·.aims))
          (searches.flatMap (·.watches))).held ~ sets (Stage.calls (.install path revision breakpoints searches)) :=
        (Installed.held_grow { revision, breakpoints } _ _).trans hSets.symm
      refine (held_put hNone').trans ?_
      rw [hHeld]
      exact List.perm_append_comm.trans (hGrown.append_left _)
  | @visit path i tour hi hAims =>
    refine .inr ⟨tour.clearings_calls, ?_⟩
    have hFind := hDistinct.find? hi
    have hGrown : (i.grow tour.aims []).held.Perm (i.held ++ sets tour.calls) := by
      have hAdded := i.held_grow tour.aims []
      rwa [List.map_nil, List.append_nil, ← tour.sets_calls] at hAdded
    calc ((p.take path).2.put path (i.grow tour.aims [])).held
      _ ~ (i.grow tour.aims []).held ++ (p.take path).2.held := held_put (find?_erase_self path p.installed)
      _ ~ (i.held ++ sets tour.calls) ++ (p.take path).2.held := hGrown.append_right _
      _ ~ (i.held ++ (p.take path).2.held) ++ sets tour.calls := by
        rw [List.append_assoc, List.append_assoc]
        exact List.perm_append_comm.append_left _
      _ ~ p.held ++ sets tour.calls := (held_erase hDistinct hFind).symm.append_right _

/-- What is on record after some stages was granted, and no call was made to clear it; and the other way about. -/
theorem Goes.held_perm (hGoes : Goes p stages p') (hNone : p.installed = [])
    (hOnce : (sets (stages.flatMap (·.calls))).Nodup) :
    p'.held.Perm (uncleared (stages.flatMap (·.calls))) ∧
      ∀ x ∈ clearings (stages.flatMap (·.calls)), x ∈ sets (stages.flatMap (·.calls)) := by
  induction hGoes with
  | nil =>
    rw [held, hNone]
    exact ⟨.refl _, by simp [clearings]⟩
  | @snoc stages stage p₁ p' hGoes hTurns ih =>
    rw [List.flatMap_append, List.flatMap_singleton] at hOnce ⊢
    have hBefore : (sets (stages.flatMap (·.calls))).Nodup := by
      rw [Backend.sets_append] at hOnce
      exact hOnce.sublist (List.sublist_append_left ..)
    obtain ⟨hHeld, hKnown⟩ := ih hBefore
    have hDistinct := hGoes.distinct (by rw [hNone]; exact List.Pairwise.nil)
    rcases hTurns.held_perm hDistinct with ⟨hSets, hPerm⟩ | ⟨hClearings, hPerm⟩
    · have hSome := hPerm.trans hHeld
      constructor
      · have hOnceHeld : ((uncleared (stages.flatMap (·.calls))).map id).Nodup := by
          rw [List.map_id]
          exact hBefore.filter _
        have hLeft := perm_filter_of_append id hSome hOnceHeld
        simp only [List.map_id, id_eq] at hLeft
        rwa [← Backend.uncleared_clear hSets] at hLeft
      · intro x hx
        rw [Backend.sets_append, hSets, List.append_nil]
        rw [Backend.clearings_append] at hx
        rcases List.mem_append.mp hx with hx | hx
        · exact hKnown x hx
        · exact (List.mem_filter.mp (hSome.subset (List.mem_append_left _ hx))).1
    · constructor
      · rw [Backend.uncleared_append hClearings hOnce hKnown]
        exact hPerm.trans (hHeld.append_right _)
      · intro x hx
        rw [Backend.clearings_append, hClearings, List.append_nil] at hx
        rw [Backend.sets_append]
        exact List.mem_append_left _ (hKnown x hx)

theorem Goes.nodup_held (hGoes : Goes p stages p') (hNone : p.installed = [])
    (hOnce : (sets (stages.flatMap (·.calls))).Nodup) : p'.held.Nodup :=
  (hGoes.held_perm hNone hOnce).1.nodup_iff.mpr (hOnce.filter _)

/-! ## The watches of sources -/

/-- The watches on record of all sources, each with its source. -/
def watchMap (p : Placer) : List (RequestId × Path) := p.installed.flatMap fun e => e.2.watches.map (·, e.1)

theorem nodup_watchMap (hOnce : p.held.Nodup) : (p.watchMap.map (·.1)).Nodup := by
  have hWatches : (p.watchMap.map (·.1)).map (EventKind.classPrepare, ·) =
      p.installed.flatMap fun e => e.2.watches.map (EventKind.classPrepare, ·) := by
    rw [watchMap, List.map_flatMap, List.map_flatMap]
    simp [Function.comp_def]
  apply List.Nodup.of_map (EventKind.classPrepare, ·)
  rw [hWatches]
  exact hOnce.sublist (List.Sublist.flatMap_right _ fun e _ => List.sublist_append_right ..)

theorem watchMap_put {i : Installed} (hNone : p.installed.find? path = none) :
    (p.put path i).watchMap.Perm (i.watches.map (·, path) ++ p.watchMap) :=
  (PathMap.insert_perm i hNone).flatMap_right _

theorem Turns.watches_perm (hTurns : Turns p stage p') (hDistinct : p.installed.Distinct) (hOnce : p.held.Nodup)
    (hOnce' : p'.held.Nodup) (hMap : p.watches.Perm p.watchMap) : p'.watches.Perm p'.watchMap := by
  cases hTurns with
  | @clear path i locations watches hFind hLocations hWatches =>
    obtain ⟨key, -, hPerm⟩ := hDistinct.perm_erase hFind
    have hSplit : (i.watches.map (·, key) ++ (p.take path).2.watchMap).Perm p.watches :=
      (hMap.trans (hPerm.flatMap_right _)).symm
    have hKeys : (p.watches.map (·.1)).Nodup := (hMap.map _).nodup_iff.mpr (nodup_watchMap hOnce)
    have hLeft := perm_filter_of_append Prod.fst hSplit hKeys
    rw [List.map_map, Function.comp_def, List.map_id'] at hLeft
    exact hLeft.symm
  | @install path revision breakpoints searches hNone hNames hAbout =>
    have hNone' : (p.watching path (searches.flatMap (·.watches))).installed.find? path = none := by
      rwa [installed_watching]
    have hSame : (p.watching path (searches.flatMap (·.watches))).watchMap = p.watchMap := by
      rw [watchMap, installed_watching, watchMap]
    have hPut := watchMap_put (i := Installed.grow { revision, breakpoints } (searches.flatMap (·.aims))
      (searches.flatMap (·.watches))) hNone'
    rw [hSame] at hPut
    have hFresh : (p.watches.map (·.1) ++ searches.flatMap (·.watches)).Nodup := by
      have hKeys := (hPut.map (·.1)).nodup_iff.mp (nodup_watchMap hOnce')
      rw [List.map_append, List.map_map, Function.comp_def, List.map_id'] at hKeys
      exact (((hMap.map _).append_right _).trans List.perm_append_comm).nodup_iff.mpr hKeys
    have hWatches := watches_watching path _ p hFresh
    change (p.watching path (searches.flatMap (·.watches))).watches.Perm _
    rw [hWatches]
    exact (hMap.append_right _).trans (List.perm_append_comm.trans hPut.symm)
  | @visit path i tour hi hAims =>
    have hBefore : p.watchMap.Perm (i.watches.map (·, path) ++ (p.take path).2.watchMap) :=
      (hDistinct.perm_erase_of_mem hi).flatMap_right _
    have hAfter := watchMap_put (p := (p.take path).2) (i := i.grow tour.aims []) (find?_erase_self path p.installed)
    have hSame : (i.grow tour.aims []).watches = i.watches := List.append_nil _
    rw [hSame] at hAfter
    exact (hMap.trans hBefore).trans hAfter.symm

theorem Goes.watches_perm (hGoes : Goes p stages p') (hNone : p.installed = []) (hMap : p.watches = [])
    (hOnce : (sets (stages.flatMap (·.calls))).Nodup) : p'.watches.Perm p'.watchMap := by
  induction hGoes with
  | nil => rw [watchMap, hMap, hNone, List.flatMap_nil]
  | @snoc stages stage p₁ p' hGoes hTurns ih =>
    have hBefore : (sets (stages.flatMap (·.calls))).Nodup := by
      rw [List.flatMap_append, Backend.sets_append] at hOnce
      exact hOnce.sublist (List.sublist_append_left ..)
    have hDistinct := hGoes.distinct (by rw [hNone]; exact List.Pairwise.nil)
    exact hTurns.watches_perm hDistinct (hGoes.nodup_held hNone hBefore)
      ((hGoes.snoc hTurns).nodup_held hNone hOnce) (ih hBefore)

/-! ## Breakpoints that have code -/

/-- Keeps the aims that were taken for each source since it was placed. -/
def Stage.note (since : PathMap (List Aim)) : Stage → PathMap (List Aim)
  | .clear path _ _ _ => PathMap.erase since path
  | .install path _ _ searches => PathMap.insert path (searches.flatMap (·.aims)) since
  | .visit path _ tour _ => PathMap.insert path ((since.find? path).getD [] ++ tour.aims) since

/-- The aims that were taken for each source since it was last placed. -/
def Stage.since (stages : List Stage) : PathMap (List Aim) := stages.foldl Stage.note []

/-- What is on record of a source comes from the aims that were taken for it. -/
structure Accords (aims : List Aim) (i : Installed) : Prop where
  placements : i.placements = aims.flatMap (·.placements)
  verified : ∀ id, id ∈ i.verified ↔ ∃ a ∈ aims, a.breakpoint.id = id ∧ a.placements ≠ []
  breakpoints : ∀ a ∈ aims, a.breakpoint ∈ i.breakpoints

theorem accords_new {revision : Nat} {breakpoints : List Breakpoint} {aims : List Aim} {watches : List RequestId}
    (hAims : ∀ a ∈ aims, a.breakpoint ∈ breakpoints) :
    Accords aims (Installed.grow { revision, breakpoints } aims watches) where
  placements := rfl
  verified id := by simp [Installed.mem_verified_grow]
  breakpoints := hAims

theorem Accords.grow {i : Installed} {aims aims' : List Aim} {watches : List RequestId} (hAccords : Accords aims i)
    (hAims : ∀ a ∈ aims', a.breakpoint ∈ i.breakpoints) : Accords (aims ++ aims') (i.grow aims' watches) where
  placements := by rw [List.flatMap_append, ← hAccords.placements, Installed.grow]
  verified id := by
    rw [Installed.mem_verified_grow, hAccords.verified]
    simp [or_and_right, exists_or]
  breakpoints := List.forall_mem_append.mpr ⟨hAccords.breakpoints, hAims⟩

theorem Turns.accords {since : PathMap (List Aim)} (hTurns : Turns p stage p') (hDistinct : p.installed.Distinct)
    (hSince : ∀ q, Option.Rel Accords (since.find? q) (p.installed.find? q)) (q : Path) :
    Option.Rel Accords ((stage.note since).find? q) (p'.installed.find? q) := by
  cases hTurns with
  | @clear path i locations watches hFind hLocations hWatches =>
    simp only [Stage.note, PathMap.find?_erase]
    split
    · exact .none
    · exact hSince q
  | @install path revision breakpoints searches hNone hNames hAbout =>
    simp only [Stage.note, put, PathMap.find?_insert, installed_watching]
    split
    · apply Option.Rel.some
      apply accords_new
      intro a ha
      obtain ⟨s, hs, ha⟩ := List.mem_flatMap.mp ha
      obtain ⟨t, ht, ha⟩ := List.mem_flatMap.mp ha
      rw [← hAbout s hs t ht]
      exact List.mem_map_of_mem ha
    · exact hSince q
  | @visit path i tour hi hAims =>
    simp only [Stage.note, put, take, PathMap.find?_insert, PathMap.find?_erase]
    split
    · have hHere := hSince path
      rw [hDistinct.find? hi] at hHere
      cases hAims' : since.find? path with
      | none =>
        rw [hAims'] at hHere
        cases hHere
      | some aims =>
        rw [hAims'] at hHere
        cases hHere with
        | some hAccords =>
          apply Option.Rel.some
          apply hAccords.grow
          intro a ha
          rw [← hAims]
          exact List.mem_map_of_mem ha
    · exact hSince q

theorem Goes.accords (hGoes : Goes p stages p') (hNone : p.installed = []) (q : Path) :
    Option.Rel Accords ((Stage.since stages).find? q) (p'.installed.find? q) := by
  induction hGoes generalizing q with
  | nil =>
    rw [hNone]
    exact .none
  | @snoc stages stage p₁ p' hGoes hTurns ih =>
    rw [Stage.since, List.foldl_append]
    exact hTurns.accords (hGoes.distinct (by rw [hNone]; exact List.Pairwise.nil)) ih q

theorem mem_verified_iff {id : Int} : id ∈ p.verified ↔ ∃ e ∈ p.installed, id ∈ e.2.verified := List.mem_flatMap

/-- A breakpoint counts as having code exactly if a request was granted for it since its source was last placed. -/
theorem Goes.mem_verified_iff (hGoes : Goes p stages p') (hNone : p.installed = []) (id : Int) :
    id ∈ p'.verified ↔ ∃ q aims, (Stage.since stages).find? q = some aims ∧
      ∃ a ∈ aims, a.breakpoint.id = id ∧ ∃ l r, (l, .ok r) ∈ a.requests := by
  have hDistinct : p'.installed.Distinct := hGoes.distinct (by rw [hNone]; exact List.Pairwise.nil)
  simp only [Placer.mem_verified_iff, ← Aim.placements_ne_nil_iff]
  constructor
  · rintro ⟨⟨q, i⟩, he, hId⟩
    have hHere := hGoes.accords hNone q
    rw [hDistinct.find? he] at hHere
    cases hFind : (Stage.since stages).find? q with
    | none =>
      rw [hFind] at hHere
      cases hHere
    | some aims =>
      rw [hFind] at hHere
      cases hHere with
      | some hAccords => exact ⟨q, aims, hFind, (hAccords.verified id).mp hId⟩
  · rintro ⟨q, aims, hFind, hId⟩
    have hHere := hGoes.accords hNone q
    rw [hFind] at hHere
    cases hEntry : p'.installed.find? q with
    | none =>
      rw [hEntry] at hHere
      cases hHere
    | some i =>
      rw [hEntry] at hHere
      obtain ⟨key, -, he⟩ := PathMap.exists_mem_of_find? hEntry
      cases hHere with
      | some hAccords => exact ⟨_, he, (hAccords.verified id).mpr hId⟩

theorem Goes.breakpoint_of_verified (hGoes : Goes p stages p') (hNone : p.installed = []) {e : Path × Installed}
    (he : e ∈ p'.installed) {id : Int} (hId : id ∈ e.2.verified) : id ∈ e.2.breakpoints.map (·.id) := by
  have hDistinct : p'.installed.Distinct := hGoes.distinct (by rw [hNone]; exact List.Pairwise.nil)
  have hHere := hGoes.accords hNone e.1
  rw [hDistinct.find? he] at hHere
  cases hFind : (Stage.since stages).find? e.1 with
  | none =>
    rw [hFind] at hHere
    cases hHere
  | some aims =>
    rw [hFind] at hHere
    cases hHere with
    | some hAccords =>
      obtain ⟨a, ha, rfl, -⟩ := (hAccords.verified id).mp hId
      exact List.mem_map_of_mem (hAccords.breakpoints a ha)

/-! ## What reports yielded -/

namespace Stage

def revision? : Stage → Option Nat
  | .install _ revision _ _ => some revision
  | _ => none

def revisions (stages : List Stage) : List Nat := stages.filterMap revision?

/-- The breakpoints that a stage yielded, each with the revision in which its source stood. -/
def yields : Stage → List (Nat × Int)
  | .visit _ revision _ found => found.map fun x => (revision, x.1)
  | _ => []

end Stage

/-- Sources stand in different revisions, in which they were placed; and what was yielded of one is on record as long
as it stands. -/
structure Yielded (stages : List Stage) (p : Placer) : Prop where
  placed : ∀ e ∈ p.installed, e.2.revision ∈ Stage.revisions stages
  apart : (p.installed.map (·.2.revision)).Nodup
  known : ∀ x ∈ stages.flatMap (·.yields), x.1 ∈ Stage.revisions stages ∧
    ∀ e ∈ p.installed, e.2.revision = x.1 → x.2 ∈ e.2.verified
  once : (stages.flatMap (·.yields)).Nodup

theorem Yielded.clear {entries : PathMap Installed} (hYielded : Yielded stages p)
    (hEntries : entries.Sublist p.installed) (hRevisions : Stage.revisions (stages ++ [stage]) = Stage.revisions stages)
    (hYields : stage.yields = []) (hSame : p'.installed = entries) : Yielded (stages ++ [stage]) p' where
  placed e he := by
    rw [hRevisions]
    exact hYielded.placed e (hEntries.subset (hSame ▸ he))
  apart := by
    rw [hSame]
    exact hYielded.apart.sublist (hEntries.map _)
  known x hx := by
    rw [List.flatMap_append, List.flatMap_singleton, hYields, List.append_nil] at hx
    obtain ⟨hPlaced, hKnown⟩ := hYielded.known x hx
    rw [hRevisions]
    exact ⟨hPlaced, fun e he => hKnown e (hEntries.subset (hSame ▸ he))⟩
  once := by
    rw [List.flatMap_append, List.flatMap_singleton, hYields, List.append_nil]
    exact hYielded.once

theorem Yielded.install {i : Installed} (hYielded : Yielded stages p)
    (hRevisions : Stage.revisions (stages ++ [stage]) = Stage.revisions stages ++ [i.revision])
    (hNew : i.revision ∉ Stage.revisions stages) (hYields : stage.yields = [])
    (hPerm : p'.installed.Perm ((path, i) :: p.installed)) : Yielded (stages ++ [stage]) p' where
  placed e he := by
    rw [hRevisions]
    rcases List.mem_cons.mp (hPerm.subset he) with rfl | he
    · exact List.mem_append_right _ (List.mem_singleton_self _)
    · exact List.mem_append_left _ (hYielded.placed e he)
  apart := by
    refine (hPerm.map _).nodup_iff.mpr (List.nodup_cons.mpr ⟨fun hMem => ?_, hYielded.apart⟩)
    obtain ⟨e, he, hSame⟩ := List.mem_map.mp hMem
    have hPlaced := hYielded.placed e he
    rw [hSame] at hPlaced
    exact hNew hPlaced
  known x hx := by
    rw [List.flatMap_append, List.flatMap_singleton, hYields, List.append_nil] at hx
    obtain ⟨hPlaced, hKnown⟩ := hYielded.known x hx
    rw [hRevisions]
    refine ⟨List.mem_append_left _ hPlaced, fun e he hSame => ?_⟩
    rcases List.mem_cons.mp (hPerm.subset he) with rfl | he
    · exact absurd (hSame ▸ hPlaced) hNew
    · exact hKnown e he hSame
  once := by
    rw [List.flatMap_append, List.flatMap_singleton, hYields, List.append_nil]
    exact hYielded.once

theorem Yielded.visit {i : Installed} {aims : List Aim} {others : PathMap Installed} (hYielded : Yielded stages p)
    (hRevisions : Stage.revisions (stages ++ [stage]) = Stage.revisions stages)
    (hYields : stage.yields = ((gained i.verified aims).map (·.1)).map (i.revision, ·))
    (hBefore : p.installed.Perm ((path, i) :: others)) (hAfter : p'.installed.Perm ((path, i.grow aims []) :: others)) :
    Yielded (stages ++ [stage]) p' := by
  obtain ⟨hOnce, hFresh⟩ := nodup_gained i.verified aims
  have hHere : (path, i) ∈ p.installed := hBefore.symm.subset List.mem_cons_self
  have hOthers : ∀ e ∈ others, e ∈ p.installed := fun e he => hBefore.symm.subset (List.mem_cons_of_mem _ he)
  have hApart := (hBefore.map (·.2.revision)).nodup_iff.mp hYielded.apart
  refine ⟨fun e he => ?_, (hAfter.map _).nodup_iff.mpr hApart, fun x hx => ?_, ?_⟩
  · rw [hRevisions]
    rcases List.mem_cons.mp (hAfter.subset he) with rfl | he
    · exact hYielded.placed (path, i) hHere
    · exact hYielded.placed e (hOthers e he)
  · rw [List.flatMap_append, List.flatMap_singleton, hYields] at hx
    rw [hRevisions]
    rcases List.mem_append.mp hx with hx | hx
    · obtain ⟨hPlaced, hKnown⟩ := hYielded.known x hx
      refine ⟨hPlaced, fun e he hSame => ?_⟩
      rcases List.mem_cons.mp (hAfter.subset he) with rfl | he
      · exact List.mem_append_left _ (hKnown _ hHere hSame)
      · exact hKnown e (hOthers e he) hSame
    · obtain ⟨id, hId, rfl⟩ := List.mem_map.mp hx
      refine ⟨hYielded.placed _ hHere, fun e he hSame => ?_⟩
      rcases List.mem_cons.mp (hAfter.subset he) with rfl | he
      · exact List.mem_append_right _ hId
      · exact absurd (List.mem_map.mpr ⟨e, he, hSame⟩) (List.nodup_cons.mp hApart).1
  · rw [List.flatMap_append, List.flatMap_singleton, hYields, List.nodup_append]
    refine ⟨hYielded.once, hOnce.map fun _ _ hEq => (Prod.mk.inj hEq).2, ?_⟩
    rintro x hOld _ hNew rfl
    obtain ⟨id, hId, rfl⟩ := List.mem_map.mp hNew
    exact hFresh id hId ((hYielded.known _ hOld).2 _ hHere rfl)

theorem Turns.yielded (hTurns : Turns p stage p') (hDistinct : p.installed.Distinct)
    (hOnce : (Stage.revisions (stages ++ [stage])).Nodup) (hYielded : Yielded stages p) :
    Yielded (stages ++ [stage]) p' := by
  have hAppend : Stage.revisions (stages ++ [stage]) = Stage.revisions stages ++ stage.revision?.toList := by
    rw [Stage.revisions, List.filterMap_append, ← Stage.revisions]
    cases hRevision : stage.revision? <;> simp [hRevision]
  cases hTurns with
  | clear _ _ _ => exact hYielded.clear List.filter_sublist (by rw [hAppend]; exact List.append_nil _) rfl rfl
  | @install path revision breakpoints searches hNone _ _ =>
    have hNew : revision ∉ Stage.revisions stages := by
      rw [hAppend, List.nodup_append] at hOnce
      exact fun hMem => hOnce.2.2 revision hMem revision (List.mem_singleton_self _) rfl
    apply hYielded.install (i := Installed.grow { revision, breakpoints } (searches.flatMap (·.aims))
      (searches.flatMap (·.watches))) hAppend hNew rfl
    rw [put, installed_watching]
    exact PathMap.insert_perm _ hNone
  | @visit path i tour hi _ =>
    refine hYielded.visit (by rw [hAppend]; exact List.append_nil _) ?_ (hDistinct.perm_erase_of_mem hi)
      (PathMap.insert_perm _ (find?_erase_self path p.installed))
    rw [List.map_map]
    rfl

theorem Goes.yielded (hGoes : Goes p stages p') (hNone : p.installed = []) (hOnce : (Stage.revisions stages).Nodup) :
    Yielded stages p' := by
  induction hGoes with
  | nil => exact ⟨by simp [hNone], by simp [hNone], by simp, List.nodup_nil⟩
  | @snoc stages stage p₁ p' hGoes hTurns ih =>
    have hBefore : (Stage.revisions stages).Nodup := by
      rw [Stage.revisions, List.filterMap_append] at hOnce
      exact hOnce.sublist (List.sublist_append_left ..)
    exact hTurns.yielded (hGoes.distinct (by rw [hNone]; exact List.Pairwise.nil)) hOnce (ih hBefore)

/-! ## Where entries come from -/

theorem Goes.origin {wanted : BreakpointSet} (hGoes : Goes p stages p') (hOf : ∀ stage ∈ stages, stage.Of wanted)
    {e : Path × Installed} (he : e ∈ p'.installed) : e ∈ p.installed ∨ (e.1, e.2.breakpoints) ∈ wanted.bySource := by
  induction hGoes with
  | nil => exact .inl he
  | @snoc stages stage p₁ p' hGoes hTurns ih =>
    rw [List.forall_mem_append, List.forall_mem_singleton] at hOf
    cases hTurns with
    | clear _ _ _ => exact ih hOf.1 (List.mem_of_mem_filter he)
    | install hNone _ _ =>
      simp only [put, installed_watching] at he
      rcases PathMap.mem_insert_of_none hNone he with rfl | he
      · exact .inr hOf.2.1
      · exact ih hOf.1 he
    | visit _ _ => exact hOf.2.elim

end Placer
end JvmDebug
