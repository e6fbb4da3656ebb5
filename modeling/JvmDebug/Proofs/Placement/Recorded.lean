import Mathlib.Data.List.Nodup
import Mathlib.Data.List.Perm.Basic
import JvmDebug.Proofs.List
import JvmDebug.Proofs.Path
import JvmDebug.Proofs.Placement.Source

/-!
# Requests on record

On a machine that refuses nothing, what stands there is what a placer has on record, and each request is on record
once. `Recorded` speaks of a list of entries, so that it holds as well while one source is in hand.
-/

namespace JvmDebug
set_option autoImplicit false

open Jdwp (LoadedClass Location RequestId)
open Backend (History Finding Interleaved Willing Sound liveLocations liveWatches live findings)

namespace Installed

def requests (i : Installed) : List RequestId := i.placements.map (·.request) ++ i.watches

end Installed

namespace Placer

def placements (p : Placer) : List Placement := p.installed.flatMap (·.2.placements)

/-- What stands in the machine is what is on record in some entries, and so are the watches of a map. -/
structure Recorded (entries : PathMap Installed) (map : List (RequestId × Path)) (h : History) : Prop where
  locations : (entries.flatMap fun e => e.2.placements.map (·.live)).Perm (liveLocations h)
  watching : (entries.flatMap (·.2.watches)).Perm ((liveWatches h).map (·.1))
  map : map.Perm (entries.flatMap fun e => e.2.watches.map (·, e.1))

variable {path : Path} {entries entries' : PathMap Installed} {map : List (RequestId × Path)} {i i' : Installed}
  {p p' : Placer} {h h' : History} {new : List Placement} {watched : List (RequestId × String)} {told : List Finding}

theorem Recorded.perm (hRecorded : Recorded entries map h) (hPerm : entries'.Perm entries) :
    Recorded entries' map h where
  locations := (hPerm.flatMap_right _).trans hRecorded.locations
  watching := (hPerm.flatMap_right _).trans hRecorded.watching
  map := hRecorded.map.trans (hPerm.flatMap_right _).symm

theorem Recorded.map_keys (hRecorded : Recorded entries map h) :
    (map.map (·.1)).Perm ((liveWatches h).map (·.1)) := by
  refine ((hRecorded.map.map (·.1)).trans ?_).trans hRecorded.watching
  rw [List.map_flatMap]
  simp [Function.comp_def]

theorem Recorded.once (hRecorded : Recorded entries map h) (hSound : Sound h) :
    (entries.flatMap (·.2.requests)).Nodup := by
  have hSplit : (entries.flatMap (·.2.requests)).Perm
      ((entries.flatMap fun e => e.2.placements.map (·.request)) ++ entries.flatMap (·.2.watches)) :=
    (List.flatMap_append_perm ..).symm
  have hLocations := hRecorded.locations.map (·.1)
  rw [List.map_flatMap] at hLocations
  simp only [List.map_map, Function.comp_def, Placement.live] at hLocations
  exact (hSplit.trans (hLocations.append hRecorded.watching)).nodup_iff.mpr hSound.once

theorem Recorded.mem_live (hRecorded : Recorded entries map h) {e : Path × Installed} (he : e ∈ entries) :
    ∀ r ∈ e.2.requests, r ∈ live h := by
  intro r hr
  rcases List.mem_append.mp hr with hr | hr
  · obtain ⟨x, hx, rfl⟩ := List.mem_map.mp hr
    have hLive := hRecorded.locations.subset (List.mem_flatMap.mpr ⟨e, he, List.mem_map_of_mem hx⟩)
    exact List.mem_append_left _ (List.mem_map.mpr ⟨_, hLive, rfl⟩)
  · exact List.mem_append_right _ (hRecorded.watching.subset (List.mem_flatMap.mpr ⟨e, he, hr⟩))

theorem Recorded.exists_of_live (hRecorded : Recorded entries map h) {r : RequestId} (hr : r ∈ live h) :
    ∃ e ∈ entries, r ∈ e.2.requests := by
  rcases List.mem_append.mp hr with hr | hr
  · obtain ⟨l, hl, rfl⟩ := List.mem_map.mp hr
    obtain ⟨e, he, hPlaced⟩ := List.mem_flatMap.mp (hRecorded.locations.symm.subset hl)
    obtain ⟨x, hx, rfl⟩ := List.mem_map.mp hPlaced
    exact ⟨e, he, List.mem_append_left _ (List.mem_map_of_mem hx)⟩
  · obtain ⟨e, he, hWatch⟩ := List.mem_flatMap.mp (hRecorded.watching.symm.subset hr)
    exact ⟨e, he, List.mem_append_right _ hWatch⟩

/-! A source in hand -/

theorem watching_eq (path : Path) (watches : List RequestId) (p : Placer) :
    p.watching path watches = { p with watches := (p.watching path watches).watches } := by
  induction watches generalizing p with
  | nil => rfl
  | cons r rest ih =>
    change (p.addWatch r path).watching path rest = _
    rw [ih]
    rfl

@[simp] theorem installed_watching {watches : List RequestId} : (p.watching path watches).installed = p.installed := by
  rw [watching_eq]

theorem watches_watching (path : Path) (watches : List RequestId) (p : Placer)
    (hFresh : (p.watches.map (·.1) ++ watches).Nodup) :
    (p.watching path watches).watches = p.watches ++ watches.map (·, path) := by
  induction watches generalizing p with
  | nil => simp
  | cons r rest ih =>
    rw [List.nodup_middle, List.nodup_cons, List.mem_append, not_or] at hFresh
    obtain ⟨⟨hNew, hRest⟩, hOthers⟩ := hFresh
    have hKept : (p.addWatch r path).watches = p.watches ++ [(r, path)] := by
      rw [addWatch, List.filter_eq_self.mpr]
      intro e he
      simpa using fun hEq => hNew (List.mem_map.mpr ⟨e, he, hEq⟩)
    change ((p.addWatch r path).watching path rest).watches = _
    rw [ih, hKept]
    · simp
    · rw [hKept, List.map_append, List.append_assoc]
      exact List.nodup_middle.mpr (List.nodup_cons.mpr ⟨by simpa using ⟨by simpa using hNew, hRest⟩, hOthers⟩)

theorem Recorded.grow (hRecorded : Recorded ((path, i) :: entries) p.watches h)
    (hGrows : Grows path new watched told i p h i' p' h') (hSound : Sound h') :
    Recorded ((path, i') :: entries) p'.watches h' := by
  have hWatching := hSound.once.sublist (List.sublist_append_right ..)
  rw [hGrows.watching, List.map_append] at hWatching
  have hFresh : (p.watches.map (·.1) ++ watched.map (·.1)).Nodup :=
    (hRecorded.map_keys.append_right _).nodup_iff.mpr hWatching
  have hMap := watches_watching path (watched.map (·.1)) p hFresh
  rw [← hGrows.placer] at hMap
  refine ⟨?_, ?_, ?_⟩
  · have hOld := hRecorded.locations.append_right (new.map (·.live))
    rw [hGrows.locations]
    refine List.Perm.trans ?_ hOld
    simp only [List.flatMap_cons, hGrows.placements, List.map_append, List.append_assoc]
    exact (List.perm_append_comm).append_left _
  · have hOld := hRecorded.watching.append_right (watched.map (·.1))
    rw [hGrows.watching, List.map_append]
    refine List.Perm.trans ?_ hOld
    simp only [List.flatMap_cons, hGrows.watches, List.append_assoc]
    exact (List.perm_append_comm).append_left _
  · have hOld := hRecorded.map.append_right ((watched.map (·.1)).map (·, path))
    rw [hMap]
    refine hOld.trans ?_
    simp only [List.flatMap_cons, hGrows.watches, List.map_append, List.append_assoc, List.map_map, Function.comp_def]
    exact (List.perm_append_comm).append_left _

theorem Grows.fresh (hGrows : Grows path new watched told i p h i' p' h') (hSound : Sound h') :
    ∀ r ∈ new.map (·.request) ++ watched.map (·.1), r ∉ Backend.issued h := by
  have hLive : (live h').Perm (live h ++ (new.map (·.request) ++ watched.map (·.1))) := by
    rw [live, live, hGrows.locations, hGrows.watching, List.map_append, List.map_append, List.map_map,
      List.append_assoc, List.append_assoc, ← List.append_assoc (new.map _), ← List.append_assoc ((liveWatches h).map _)]
    exact (List.perm_append_comm.append_right _).append_left _
  have hOnce := List.nodup_append.mp (hLive.nodup_iff.mp hSound.once)
  intro r hr hOld
  have hThere := hSound.gone h hGrows.history.isPrefix r hOld (hLive.symm.subset (List.mem_append_right _ hr))
  exact hOnce.2.2 r hThere r hr rfl

/-- Some requests are taken out of the machine, and some watches out of the map as well. -/
structure Clears (placed watched : List RequestId) (p : Placer) (h : History) (p' : Placer) (h' : History) : Prop where
  placer : p' = { p with watches := p.watches.filter (·.1 ∉ watched) }
  locations : liveLocations h' = (liveLocations h).filter (·.1 ∉ placed)
  watching : liveWatches h' = (liveWatches h).filter (·.1 ∉ watched)
  findings : findings h' = findings h
  history : Backend.Extends (·.places) h h'

theorem Recorded.drop (hRecorded : Recorded ((path, i) :: entries) p.watches h) (hSound : Sound h)
    (hClears : Clears (i.placements.map (·.request)) i.watches p h p' h') : Recorded entries p'.watches h' := by
  obtain ⟨hLocations, hWatching, hMap⟩ := hRecorded
  have hWatches : ((liveWatches h).map (·.1)).Nodup := hSound.once.sublist (List.sublist_append_right ..)
  have hKeys : (p.watches.map (·.1)).Nodup := (Recorded.map_keys ⟨hLocations, hWatching, hMap⟩).nodup_iff.mpr hWatches
  rw [List.flatMap_cons] at hLocations hWatching hMap
  refine ⟨?_, ?_, ?_⟩
  · have hLeft := perm_filter_of_append Prod.fst hLocations (hSound.once.sublist (List.sublist_append_left ..))
    rw [List.map_map] at hLeft
    rw [hClears.locations]
    exact hLeft
  · have hLeft := perm_filter_of_append id hWatching (by rwa [List.map_id])
    rw [List.map_id, List.filter_map] at hLeft
    rw [hClears.watching]
    exact hLeft
  · have hLeft := perm_filter_of_append Prod.fst hMap.symm hKeys
    rw [List.map_map, Function.comp_def, List.map_id'] at hLeft
    rw [hClears.placer]
    exact hLeft.symm

/-! Clearing a source -/

variable {placed placed' gone gone' : List RequestId} {p₁ : Placer} {h₁ : History}

theorem Clears.refl : Clears [] [] p h p h where
  placer := by simp
  locations := by simp
  watching := by simp
  findings := rfl
  history := .refl

theorem Clears.trans (hFirst : Clears placed gone p h p₁ h₁) (hSecond : Clears placed' gone' p₁ h₁ p' h') :
    Clears (placed ++ placed') (gone ++ gone') p h p' h' where
  placer := by simp [hSecond.placer, hFirst.placer, Bool.and_comm]
  locations := by simp [hSecond.locations, hFirst.locations, Bool.and_comm]
  watching := by simp [hSecond.watching, hFirst.watching, Bool.and_comm]
  findings := by rw [hSecond.findings, hFirst.findings]
  history := hFirst.history.trans hSecond.history

theorem clearLocations_succeeds (rs : List RequestId) (p : Placer) (h : History) :
    Succeeds (Interleaved Willing) (fun _ => Clears rs [] p h) (clearLocations rs) p h := by
  induction rs generalizing h with
  | nil => exact Succeeds.pure .refl
  | cons r rest ih =>
    refine Succeeds.bind (Succeeds.try_ ?_)
    intro answer h₁ hAnswer
    constructor
    · rintro _ rfl
      have hFirst : Clears [r] [] p h p h₁ := {
        placer := by simp
        locations := by rw [hAnswer.liveLocations]; simp [Backend.locationStep]
        watching := by rw [hAnswer.liveWatches]; simp [Backend.watchStep]
        findings := by rw [hAnswer.findings]; exact List.append_nil _
        history := hAnswer.extends_ _ (fun _ _ => rfl) rfl }
      exact Succeeds.mono (fun _ _ _ hRest => hFirst.trans hRest) (ih h₁)
    · rintro e rfl
      cases hAnswer.unrefused

theorem clearWatches_succeeds (rs : List RequestId) (p : Placer) (h : History) :
    Succeeds (Interleaved Willing) (fun _ => Clears [] rs p h) (clearWatches rs) p h := by
  induction rs generalizing p h with
  | nil => exact Succeeds.pure .refl
  | cons r rest ih =>
    refine Succeeds.bind (Succeeds.lift (Succeeds.bind (Succeeds.try_ ?_)))
    intro answer h₁ hAnswer
    constructor
    · rintro _ rfl
      have hFirst : Clears [] [r] p h (p.dropWatch r) h₁ := {
        placer := by simp [dropWatch]
        locations := by rw [hAnswer.liveLocations]; simp [Backend.locationStep]
        watching := by rw [hAnswer.liveWatches]; simp [Backend.watchStep]
        findings := by rw [hAnswer.findings]; exact List.append_nil _
        history := hAnswer.extends_ _ (fun _ _ => rfl) rfl }
      exact Succeeds.mono (fun _ _ _ hRest => hFirst.trans hRest) (ih _ h₁)
    · rintro e rfl
      cases hAnswer.unrefused

/-- No source is on record twice, and what is on record stands in the machine, each request once. -/
structure InOrder (p : Placer) (h : History) : Prop where
  distinct : p.installed.Distinct
  recorded : Recorded p.installed p.watches h
  sound : Sound h

structure Forgets (paths : List Path) (p : Placer) (h : History) (p' : Placer) (h' : History) : Prop where
  order : InOrder p' h'
  installed : p'.installed = p.installed.filter fun e => paths.all fun path => !(e.1 == path)
  index : p'.index = p.index
  root : p'.root = p.root
  findings : findings h' = findings h
  history : Backend.Extends (·.places) h h'

theorem clearSource_succeeds (path : Path) (hOrder : InOrder p h) :
    Succeeds (Interleaved Willing) (fun _ => Forgets [path] p h) (clearSource path) p h := by
  have hErase : (p.installed.filter fun e => [path].all fun path => !(e.1 == path)) = PathMap.erase p.installed path := by
    simp [PathMap.erase]
  refine Succeeds.bind (Succeeds.modifyGet ?_)
  cases hFind : p.installed.find? path with
  | none =>
    have hTaken : p.take path = (none, p) := by rw [take, PathMap.erase_eq_self hFind, hFind]
    rw [hTaken]
    exact Succeeds.pure ⟨hOrder, by rw [hErase, PathMap.erase_eq_self hFind], rfl, rfl, rfl, .refl⟩
  | some i =>
    obtain ⟨q, -, hPerm⟩ := hOrder.distinct.perm_erase hFind
    have hTaken : p.take path = (some i, (p.take path).2) := by rw [take, hFind]
    rw [hTaken]
    have hClear : Succeeds (Interleaved Willing)
        (fun _ => Clears (i.placements.map (·.request)) i.watches (p.take path).2 h)
        (do clearLocations (i.placements.map (·.request)); clearWatches i.watches) (p.take path).2 h := by
      refine Succeeds.bind (Succeeds.mono ?_ (clearLocations_succeeds _ _ h))
      intro _ p₁ h₁ hFirst
      refine Succeeds.mono ?_ (clearWatches_succeeds i.watches p₁ h₁)
      intro _ p' h' hSecond
      simpa using hFirst.trans hSecond
    refine Succeeds.bind (Succeeds.note (Succeeds.mono ?_ (hClear.keeping Sound.keep hOrder.sound)))
    rintro _ p' h' ⟨hSound, hClears⟩
    have hInstalled : p'.installed = PathMap.erase p.installed path := by rw [hClears.placer]; rfl
    have hRecorded := (hOrder.recorded.perm hPerm.symm).drop (p := (p.take path).2) hOrder.sound hClears
    refine ⟨⟨?_, ?_, hSound⟩, by rw [hErase, hInstalled], by rw [hClears.placer]; rfl, by rw [hClears.placer]; rfl,
      hClears.findings, hClears.history⟩
    · rw [hInstalled]
      exact hOrder.distinct.erase path
    · rw [hInstalled]
      exact hRecorded

theorem Forgets.trans {paths paths' : List Path} (hFirst : Forgets paths p h p₁ h₁)
    (hSecond : Forgets paths' p₁ h₁ p' h') : Forgets (paths ++ paths') p h p' h' where
  order := hSecond.order
  installed := by simp [hSecond.installed, hFirst.installed, Bool.and_comm]
  index := hSecond.index.trans hFirst.index
  root := hSecond.root.trans hFirst.root
  findings := hSecond.findings.trans hFirst.findings
  history := hFirst.history.trans hSecond.history

theorem clearSources_succeeds (paths : List Path) (hOrder : InOrder p h) :
    Succeeds (Interleaved Willing) (fun _ => Forgets paths p h) (clearSources paths) p h := by
  induction paths generalizing p h with
  | nil => exact Succeeds.pure ⟨hOrder, by simp, rfl, rfl, rfl, .refl⟩
  | cons path rest ih =>
    refine Succeeds.bind (Succeeds.mono ?_ (clearSource_succeeds path hOrder))
    intro _ p₁ h₁ hFirst
    exact Succeeds.mono (fun _ _ _ hRest => hFirst.trans hRest) (ih hFirst.order)

end Placer
end JvmDebug
