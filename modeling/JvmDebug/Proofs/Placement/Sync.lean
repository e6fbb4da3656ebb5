import JvmDebug.Proofs.Placement.Recorded

/-!
# Bringing what is placed in line

What `sync` and a report of a prepared class leave behind on a machine that refuses nothing: the sources that were set
since are cleared and then placed anew, the others keep what they have, and a report adds to the one source whose
watch it came from.
-/

namespace JvmDebug.Placer
set_option autoImplicit false

open Jdwp (LoadedClass Location RequestId)
open Backend (History Interleaved Alive Willing Sound liveLocations liveWatches findings)

/-- The names of the classes that a source may be compiled into. -/
def candidates (p : Placer) (path : Path) : List String := p.index.binaryNames (path.relativeTo p.root)

/-- The breakpoints of a source as they were placed while the history of the machine went on. What the machine told
between two moments is what the surveys say. -/
structure Placed (names : List String) (h : History) (i : Installed) (h' : History) : Prop where
  fresh : ∀ r ∈ i.requests, r ∉ Backend.issued h
  verified : ∀ id, id ∈ i.verified ↔ id ∈ i.placements.map (·.breakpoint)
  surveyed : ∃ (surveys : List Survey) (watched : List (RequestId × String)) (g g' : History),
    h <+: g ∧ g <+: g' ∧ g' <+: h' ∧ Survey.Cover i.breakpoints names surveys ∧
    findings g' = findings g ++ surveys.flatMap (·.findings) ∧
    i.placements.map (·.spot) = surveys.flatMap (·.spots) ∧
    i.watches = watched.map (·.1) ∧ watched.map (·.2) = surveys.flatMap (·.patterns) ∧
    watched.Sublist (liveWatches h')

variable {names : List String} {path : Path} {i : Installed} {p p₁ p' : Placer} {h h₁ h₂ h' : History}

theorem Placed.widen (hPlaced : Placed names h₁ i h₂) (hBefore : h <+: h₁) (hAfter : Backend.Extends (·.clears) h₂ h') :
    Placed names h i h' := by
  obtain ⟨hFresh, hVerified, surveys, watched, g, g', hg, hgg', hg', hCover, hTold, hSpots, hWatches, hPatterns, hLive⟩ :=
    hPlaced
  refine ⟨fun r hr hOld => hFresh r hr (Backend.issued_of_earlier hBefore hOld), hVerified, ?_⟩
  exact ⟨surveys, watched, g, g', hBefore.trans hg, hgg', hg'.trans hAfter.isPrefix, hCover, hTold, hSpots,
    hWatches, hPatterns, hLive.trans hAfter.keeps.2⟩

/-! Placing one source -/

structure Adds (added : PathMap Installed) (p : Placer) (h : History) (p' : Placer) (h' : History) : Prop where
  order : InOrder p' h'
  installed : p'.installed.Perm (added ++ p.installed)
  index : p'.index = p.index
  root : p'.root = p.root
  history : Backend.Extends (·.clears) h h'

theorem Adds.trans {added added' : PathMap Installed} (hFirst : Adds added p h p₁ h₁)
    (hSecond : Adds added' p₁ h₁ p' h') : Adds (added' ++ added) p h p' h' where
  order := hSecond.order
  installed := by
    rw [List.append_assoc]
    exact hSecond.installed.trans (hFirst.installed.append_left _)
  index := hSecond.index.trans hFirst.index
  root := hSecond.root.trans hFirst.root
  history := hFirst.history.trans hSecond.history

theorem placeCandidates_adds (path : Path) (revision : Nat) (breakpoints : List Breakpoint) (hOrder : InOrder p h) :
    SourceSucceeds (Interleaved Willing)
      (fun _ i p' h' => i.revision = revision ∧ i.breakpoints = breakpoints ∧ Placed (p.candidates path) h i h' ∧
        Sound h' ∧ p'.installed = p.installed ∧ p'.index = p.index ∧ p'.root = p.root ∧
        Recorded ((path, i) :: p.installed) p'.watches h' ∧ Backend.Extends (·.clears) h h')
      (placeCandidates path (p.candidates path)) { revision, breakpoints } p h := by
  have hPlace := (placeCandidates_succeeds path (p.candidates path) { revision, breakpoints } p h).restrict
    (Interleaved.weaken fun _ _ => Willing.alive)
  refine SourceSucceeds.mono ?_ (hPlace.keeping Sound.keep hOrder.sound)
  rintro _ i p' h' ⟨hSound, new, watched, told, hGrows, hMarks, hSurveys⟩
  obtain ⟨surveys, hCover, rfl, hSpots, hPatterns⟩ := hSurveys hSound.granted
  have hPlacements : i.placements = new := by simpa using hGrows.placements
  have hWatches : i.watches = watched.map (·.1) := by simpa using hGrows.watches
  have hEmpty : Recorded ((path, { revision, breakpoints }) :: p.installed) p.watches h := by
    obtain ⟨hLocations, hWatching, hMap⟩ := hOrder.recorded
    exact ⟨hLocations, hWatching, hMap⟩
  have hPlacer := watching_eq path (watched.map (·.1)) p
  rw [← hGrows.placer] at hPlacer
  refine ⟨hGrows.revision, hGrows.breakpoints, ⟨?_, ?_, ?_⟩, hSound, by rw [hPlacer], by rw [hPlacer], by rw [hPlacer],
    hEmpty.grow hGrows hSound, hGrows.history⟩
  · rw [Installed.requests, hPlacements, hWatches]
    exact hGrows.fresh hSound
  · intro id
    rw [hMarks id, hPlacements]
    simp
  · refine ⟨surveys, watched, h, h', List.prefix_rfl, hGrows.history.isPrefix, List.prefix_rfl, ?_, hGrows.findings, ?_,
      hWatches, hPatterns, ?_⟩
    · rw [hGrows.breakpoints]
      exact hCover
    · rw [hPlacements]
      exact hSpots
    · rw [hGrows.watching]
      exact List.sublist_append_right ..

theorem installCandidates_succeeds (path relative : Path) (revision : Nat) (breakpoints : List Breakpoint)
    (hOrder : InOrder p h) (hFind : p.installed.find? path = none) :
    Succeeds (Interleaved Willing)
      (fun _ p' h' => ∃ i, i.revision = revision ∧ i.breakpoints = breakpoints ∧ Placed (p.candidates path) h i h' ∧
        Adds [(path, i)] p h p' h')
      (installCandidates path relative (p.candidates path) revision breakpoints) p h := by
  refine Succeeds.bind (Succeeds.lift (Routine.Ensures.mono ?_ (placeCandidates_adds path revision breakpoints hOrder)))
  rintro ⟨_, i⟩ p₁ h₁ ⟨_, rfl, hRevision, hBreakpoints, hPlaced, hSound, hInstalled, hIndex, hRoot, hRecorded, hHistory⟩
  refine Succeeds.bind (Succeeds.pure (Succeeds.bind (Succeeds.note (Succeeds.lift ?_))))
  have hPerm : ((p₁.put path i).installed).Perm ([(path, i)] ++ p.installed) := by
    rw [put, hInstalled]
    exact PathMap.insert_perm i hFind
  refine ⟨i, hRevision, hBreakpoints, hPlaced, ⟨?_, ?_, hSound⟩, hPerm, hIndex, hRoot, hHistory⟩
  · rw [put, hInstalled]
    exact hOrder.distinct.insert i hFind
  · exact hRecorded.perm hPerm

theorem installSource_succeeds (path : Path) (revision : Nat) (breakpoints : List Breakpoint) (hOrder : InOrder p h)
    (hFind : p.installed.find? path = none) :
    Succeeds (Interleaved Willing)
      (fun _ p' h' => ∃ i, i.revision = revision ∧ i.breakpoints = breakpoints ∧ Placed (p.candidates path) h i h' ∧
        Adds [(path, i)] p h p' h') (installSource path revision breakpoints) p h := by
  have hPlace := installCandidates_succeeds path (path.relativeTo p.root) revision breakpoints hOrder hFind
  refine Succeeds.bind (Succeeds.get ?_)
  change Succeeds _ _ (if (p.candidates path).isEmpty = true then _ else _) p h
  split
  · exact Succeeds.bind (Succeeds.note hPlace)
  · exact hPlace

/-- An entry of a source that is wanted, placed since. -/
structure Fulfils (sources : PathMap (List Breakpoint)) (revisions : PathMap Nat) (names : List String) (h : History)
    (e : Path × Installed) (h' : History) : Prop where
  wanted : (e.1, e.2.breakpoints) ∈ sources
  revision : e.2.revision = (revisions.find? e.1).getD 0
  placed : Placed names h e.2 h'

theorem installMissing_succeeds (wanted : BreakpointSet) (sources : PathMap (List Breakpoint)) (hOrder : InOrder p h) :
    Succeeds (Interleaved Willing)
      (fun _ p' h' => ∃ added, Adds added p h p' h' ∧
        (∀ e ∈ added, Fulfils sources wanted.revisions (p.candidates e.1) h e h') ∧
        ∀ e ∈ sources, (p'.installed.find? e.1).isSome) (installMissing wanted sources) p h := by
  induction sources generalizing p h with
  | nil =>
    exact Succeeds.pure ⟨[], ⟨hOrder, .refl _, rfl, rfl, .refl⟩, by simp, by simp⟩
  | cons e rest ih =>
    -- What the head adds, if it adds anything, is followed by what the rest adds.
    have hRest : ∀ added p₁ h₁, Adds added p h p₁ h₁ →
        (∀ d ∈ added, Fulfils [e] wanted.revisions (p.candidates d.1) h d h₁) → (p₁.installed.find? e.1).isSome →
        Succeeds (Interleaved Willing)
          (fun _ p' h' => ∃ added, Adds added p h p' h' ∧
            (∀ d ∈ added, Fulfils (e :: rest) wanted.revisions (p.candidates d.1) h d h') ∧
            ∀ d ∈ e :: rest, (p'.installed.find? d.1).isSome) (installMissing wanted rest) p₁ h₁ := by
      intro added p₁ h₁ hAdds hHead hThere
      refine Succeeds.mono ?_ (ih hAdds.order)
      rintro _ p' h' ⟨added', hAdds', hTail, hCovered⟩
      refine ⟨added' ++ added, hAdds.trans hAdds', ?_, ?_⟩
      · intro d hd
        rcases List.mem_append.mp hd with hd | hd
        · obtain ⟨hWanted, hRevision, hPlaced⟩ := hTail d hd
          rw [candidates, hAdds.index, hAdds.root] at hPlaced
          exact ⟨List.mem_cons_of_mem _ hWanted, hRevision, hPlaced.widen hAdds.history.isPrefix .refl⟩
        · obtain ⟨hWanted, hRevision, hPlaced⟩ := hHead d hd
          refine ⟨?_, hRevision, hPlaced.widen List.prefix_rfl hAdds'.history⟩
          rw [List.mem_singleton.mp hWanted]
          exact List.mem_cons_self
      · intro d hd
        rcases List.mem_cons.mp hd with rfl | hd
        · obtain ⟨x, hx, hKey⟩ := PathMap.isSome_find?.mp hThere
          exact PathMap.isSome_find?.mpr ⟨x, hAdds'.installed.symm.subset (List.mem_append_right _ hx), hKey⟩
        · exact hCovered d hd
    refine Succeeds.bind (Succeeds.lift ?_)
    change Succeeds _ _ (if (p.installed.find? e.1).isNone = true then _ else _) p h
    split
    · rename_i hNone
      have hFind : p.installed.find? e.1 = none := Option.isNone_iff_eq_none.mp hNone
      refine Succeeds.bind (Succeeds.mono ?_ (installSource_succeeds e.1 _ e.2 hOrder hFind))
      rintro _ p₁ h₁ ⟨i, hRevision, hBreakpoints, hPlaced, hAdds⟩
      refine hRest [(e.1, i)] p₁ h₁ hAdds ?_ ?_
      · intro d hd
        rw [List.mem_singleton.mp hd]
        exact ⟨by rw [hBreakpoints]; exact List.mem_singleton_self _, hRevision, hPlaced⟩
      · exact PathMap.isSome_find?.mpr ⟨_, hAdds.installed.symm.subset List.mem_cons_self, beq_self_eq_true e.1⟩
    · rename_i hSome
      exact hRest [] p h ⟨hOrder, .refl _, rfl, rfl, .refl⟩ (by simp) (Option.isSome_iff_ne_none.mpr (by simpa using hSome))

/-! The whole of it -/

def isCurrent (wanted : BreakpointSet) (e : Path × Installed) : Bool :=
  wanted.revisions.find? e.1 == some e.2.revision

theorem filter_stale (hDistinct : p.installed.Distinct) (wanted : BreakpointSet) :
    (p.installed.filter fun e => (p.stale wanted).all fun path => !(e.1 == path)) =
      p.installed.filter (isCurrent wanted) := by
  refine List.filter_congr fun e he => ?_
  cases hCurrent : isCurrent wanted e with
  | true =>
    rw [List.all_eq_true]
    intro path hPath
    obtain ⟨d, hd, rfl⟩ := List.mem_map.mp hPath
    obtain ⟨hd, hStale⟩ := List.mem_filter.mp hd
    rw [Bool.not_eq_true', Bool.eq_false_iff]
    intro hKey
    rw [← hDistinct.eq_of_mem he hd hKey] at hStale
    rw [isCurrent, beq_iff_eq] at hCurrent
    simp [hCurrent] at hStale
  | false =>
    have hStale : e.1 ∈ p.stale wanted := by
      rw [isCurrent, beq_eq_false_iff_ne] at hCurrent
      exact List.mem_map.mpr ⟨e, List.mem_filter.mpr ⟨he, by simpa using hCurrent⟩, rfl⟩
    rw [Bool.eq_false_iff]
    intro hAll
    simpa using List.all_eq_true.mp hAll e.1 hStale

/-- What is placed was brought in line with what is wanted. First all that is stale was cleared, then all that was
missing was placed. -/
structure Synced (wanted : BreakpointSet) (p : Placer) (h : History) (p' : Placer) (h' : History) : Prop where
  order : InOrder p' h'
  index : p'.index = p.index
  root : p'.root = p.root
  installed : ∃ added, p'.installed.Perm (added ++ p.installed.filter (isCurrent wanted)) ∧
    ∀ e ∈ added, Fulfils wanted.bySource wanted.revisions (p.candidates e.1) h e h'
  covered : ∀ e ∈ wanted.bySource, (p'.installed.find? e.1).isSome
  history : ∃ g, Backend.Extends (·.places) h g ∧ Backend.Extends (·.clears) g h'

theorem sync_succeeds (wanted : BreakpointSet) (hOrder : InOrder p h) :
    Succeeds (Interleaved Willing) (fun ids p' h' => ids = p'.verified ∧ Synced wanted p h p' h') (sync wanted) p h := by
  refine Succeeds.bind (Succeeds.get (Succeeds.bind (Succeeds.mono ?_ (clearSources_succeeds (p.stale wanted) hOrder))))
  intro _ p₁ h₁ hForgets
  refine Succeeds.bind (Succeeds.mono ?_ (installMissing_succeeds wanted wanted.bySource hForgets.order))
  rintro _ p' h' ⟨added, hAdds, hFulfils, hCovered⟩
  refine Succeeds.bind (Succeeds.get (Succeeds.pure ⟨rfl, hAdds.order, hAdds.index.trans hForgets.index,
    hAdds.root.trans hForgets.root, ⟨added, ?_, fun e he => ?_⟩, hCovered, h₁, hForgets.history, hAdds.history⟩))
  · have hInstalled := hAdds.installed
    rwa [hForgets.installed, filter_stale hOrder.distinct] at hInstalled
  · obtain ⟨hWanted, hRevision, hPlaced⟩ := hFulfils e he
    rw [candidates, hForgets.index, hForgets.root] at hPlaced
    exact ⟨hWanted, hRevision, hPlaced.widen hForgets.history.isPrefix .refl⟩

/-! A report of a prepared class -/

/-- A source got what its breakpoints ask for in one more class. -/
structure Visited (c : LoadedClass) (i : Installed) (h : History) (i' : Installed) (h' : History) : Prop where
  revision : i'.revision = i.revision
  breakpoints : i'.breakpoints = i.breakpoints
  watches : i'.watches = i.watches
  placed : ∃ (new : List Placement) (v : Visit), v.cls = c ∧ v.lines.map (·.1) = i.breakpoints ∧
    i'.placements = i.placements ++ new ∧ new.map (·.spot) = v.spots ∧ Marks new i i' ∧
    (∀ x ∈ new, x.request ∉ Backend.issued h) ∧ findings h' = findings h ++ v.findings

/-- The report of a class by a watch adds to the source of the watch, and to no other. -/
structure Reported (r : RequestId) (c : LoadedClass) (p : Placer) (h : History) (p' : Placer) (h' : History) : Prop where
  order : InOrder p' h'
  index : p'.index = p.index
  root : p'.root = p.root
  installed : (∀ e ∈ p.installed, r ∉ e.2.watches) ∧ p'.installed = p.installed ∧ h' = h ∨
    ∃ path i i' others, p.installed.Perm ((path, i) :: others) ∧ p'.installed.Perm ((path, i') :: others) ∧
      r ∈ i.watches ∧ Visited c i h i' h'
  history : Backend.Extends (·.clears) h h'

/-- A watch is one of the source that is taken out for it, or of none. -/
theorem takeWatched_of_map (hDistinct : p.installed.Distinct)
    (hMap : p.watches.Perm (p.installed.flatMap fun e => e.2.watches.map (·, e.1))) (r : RequestId) :
    (∀ e ∈ p.installed, r ∉ e.2.watches) ∧ p.takeWatched r = (none, p) ∨
    ∃ path i, (path, i) ∈ p.installed ∧ r ∈ i.watches ∧ p.takeWatched r = (some (path, i), (p.take path).2) := by
  cases hWatch : p.watches.find? (·.1 = r) with
  | none =>
    refine .inl ⟨fun e he hr => ?_, by rw [Placer.takeWatched, hWatch]⟩
    have hEntry : (r, e.1) ∈ p.watches := hMap.symm.subset (List.mem_flatMap.mpr ⟨e, he, List.mem_map_of_mem hr⟩)
    simpa using List.find?_eq_none.mp hWatch _ hEntry
  | some w =>
    obtain ⟨q, path⟩ := w
    obtain rfl : q = r := by simpa using List.find?_some hWatch
    obtain ⟨⟨path, i⟩, he, hw⟩ := List.mem_flatMap.mp (hMap.subset (List.mem_of_find?_eq_some hWatch))
    obtain ⟨r', hr, hEq⟩ := List.mem_map.mp hw
    cases hEq
    have hFind : p.installed.find? path = some i := hDistinct.find? he
    exact .inr ⟨path, i, he, hr, by simp only [Placer.takeWatched, hWatch, take, hFind]⟩

theorem placeInClass_visits (path : Path) (c : LoadedClass) (hSound : Sound h) :
    SourceSucceeds (Interleaved Willing)
      (fun _ i' p' h' => p' = p ∧ Sound h' ∧ Visited c i h i' h' ∧
        ∃ new told, Grows path new [] told i p h i' p' h') (placeInClass c) i p h := by
  have hPlace := (placeInClass_succeeds path c i p h).restrict (Interleaved.weaken fun _ _ => Willing.alive)
  refine SourceSucceeds.mono ?_ (hPlace.keeping Sound.keep hSound)
  rintro _ i' p' h' ⟨hSound', new, told, hGrows, hMarks, hVisit⟩
  obtain ⟨v, hClass, hLines, rfl, hSpots⟩ := hVisit hSound'.granted
  have hWatches : i'.watches = i.watches := by simpa using hGrows.watches
  have hFresh : ∀ x ∈ new, x.request ∉ Backend.issued h := fun x hx =>
    hGrows.fresh hSound' x.request (List.mem_append_left _ (List.mem_map_of_mem hx))
  exact ⟨hGrows.placer, hSound', ⟨hGrows.revision, hGrows.breakpoints, hWatches, new, v, hClass, hLines,
    hGrows.placements, hSpots, hMarks, hFresh, hGrows.findings⟩, new, _, hGrows⟩

theorem classPrepared_succeeds (r : RequestId) (c : LoadedClass) (hOrder : InOrder p h) :
    Succeeds (Interleaved Willing) (fun _ => Reported r c p h) (classPrepared r c) p h := by
  refine Succeeds.bind (Succeeds.modifyGet ?_)
  rcases takeWatched_of_map hOrder.distinct hOrder.recorded.map r with ⟨hNone, hTaken⟩ | ⟨path, i, hi, hr, hTaken⟩
  · rw [hTaken]
    exact Succeeds.pure ⟨hOrder, rfl, rfl, .inl ⟨hNone, rfl, rfl⟩, .refl⟩
  · rw [hTaken]
    refine Succeeds.bind (Succeeds.lift (Routine.Ensures.mono ?_ (placeInClass_visits path c hOrder.sound)))
    rintro ⟨_, i'⟩ _ h' ⟨_, rfl, rfl, hSound, hVisited, new, told, hGrows⟩
    have hPerm := hOrder.distinct.perm_erase_of_mem hi
    have hRecorded := Recorded.grow (p := (p.take path).2) (hOrder.recorded.perm hPerm.symm) hGrows hSound
    have hNone : (PathMap.erase p.installed path).find? path = none := by
      rw [PathMap.find?_erase]
      simp
    have hPerm' : ((p.take path).2.put path i').installed.Perm ((path, i') :: PathMap.erase p.installed path) :=
      PathMap.insert_perm i' hNone
    refine Succeeds.bind (Succeeds.lift ⟨_, rfl, ⟨?_, hRecorded.perm hPerm', hSound⟩, rfl, rfl,
      .inr ⟨path, i, i', _, hPerm, hPerm', hr, hVisited⟩, hGrows.history⟩)
    exact (hOrder.distinct.erase path).insert i' hNone

end JvmDebug.Placer
