import JvmDebug.Proofs.Placement.Account
import JvmDebug.Proofs.Placement.Overlap
import JvmDebug.Proofs.Placement.Owning
import JvmDebug.Proofs.Placement.Replay

/-!
# Placed, and placed once

While a sync is under way classes may be prepared between its calls. A class gets the breakpoints of a source if it was
loaded when its name was looked up, or if a watch of the source that matches its name stood when it was prepared. One
that is prepared after the lookup and before the watch is set gets none, and neither does a second class under a name
that was found loaded.

A location is placed twice for a breakpoint exactly if a class that has code for it is visited twice for its source:
found under a candidate and reported as well, or reported by two watches.
-/

namespace JvmDebug.World
set_option autoImplicit false

/-! ## Which prepared classes get their breakpoints -/

section Coverage

open Jdwp (LoadedClass Location RequestId)
open Backend (Interleaved Faithful Own liveLocations reports watching)

variable {lines : LoadedClass → UInt32 → List Location} {w : World} {deeds : List Deed} {path : Path} {i : Installed}
  {lookups : List Lookup} {c : LoadedClass}

/-- A source stops at every location of its breakpoints' lines in a class. -/
def Covered (lines : LoadedClass → UInt32 → List Location) (w : World) (i : Installed) (c : LoadedClass) : Prop :=
  ∀ b ∈ i.breakpoints, ∀ l ∈ lines c b.line,
    ∃ x ∈ i.placements, x.breakpoint = b.id ∧ x.location = l ∧ x.live ∈ liveLocations w.history

theorem Accounted.covered_iff (hAccounted : Accounted lines w) (hOwn : Own lines)
    (he : (path, i) ∈ w.placer.installed) (hAccount : Account lines w path i lookups) :
    Covered lines w i c ↔ c ∈ w.visited i lookups ∨ ¬ HasCode lines i.breakpoints c := by
  constructor
  · intro hCovered
    by_cases hCode : HasCode lines i.breakpoints c
    · obtain ⟨b, hb, hLines⟩ := hCode
      obtain ⟨l, hl⟩ := List.exists_mem_of_ne_nil _ hLines
      obtain ⟨x, hx, hId, hLocation, -⟩ := hCovered b hb l hl
      obtain ⟨c', hc', hSpot⟩ := hAccount.mem_spots.mp ⟨x, hx, hId, hLocation⟩
      obtain ⟨b', -, -, hl'⟩ := mem_spotsIn.mp hSpot
      rw [hOwn.eq hl hl']
      exact .inl hc'
    · exact .inr hCode
  · rintro (hVisited | hNone) b hb l hl
    · obtain ⟨x, hx, hId, hLocation⟩ := hAccount.mem_spots.mpr ⟨c, hVisited, mem_spotsIn.mpr ⟨b, hb, rfl, hl⟩⟩
      have hLive := hAccounted.sane.order.recorded.locations.subset
        (List.mem_flatMap.mpr ⟨_, he, List.mem_map_of_mem hx⟩)
      exact ⟨x, hx, hId, hLocation, hLive⟩
    · exact absurd ⟨b, hb, List.ne_nil_of_mem hl⟩ hNone

/-- A class was prepared in time for a source: before the lookup of its name, or while a watch stood that matched it. -/
def InTime (w : World) (i : Installed) (lookups : List Lookup) (c : LoadedClass) : Prop :=
  ∃ g name, g ++ [.prepared name c] <+: w.history ∧
    ((∃ l ∈ lookups, l.name = name ∧ g ++ [.prepared name c] <+: l.moment) ∨ ∃ r ∈ i.watches, r ∈ watching g name)

theorem Accounted.mem_visited_iff (hAccounted : Accounted lines w) (hAccount : Account lines w path i lookups)
    (hDelivered : ∀ x ∈ reports w.history, x ∈ w.given) : c ∈ w.visited i lookups ↔ InTime w i lookups c := by
  have hGiven : ∀ r, (r, c) ∈ w.given ↔ ∃ g name, g ++ [.prepared name c] <+: w.history ∧ r ∈ watching g name :=
    fun r => Iff.trans ⟨hAccounted.mem_reports, hDelivered _⟩ Backend.mem_reports
  simp only [visited, List.mem_append, List.mem_flatMap, mem_reportedTo, hGiven, Lookup.found, Backend.mem_loaded,
    Backend.mem_preparations]
  constructor
  · rintro (⟨l, hl, g, hPrepared⟩ | ⟨r, hr, g, name, hPrepared, hWatching⟩)
    · have hMoment : l.moment <+: w.history := (List.prefix_append ..).trans (hAccount.past l hl)
      exact ⟨g, l.name, hPrepared.trans hMoment, .inl ⟨l, hl, rfl, hPrepared⟩⟩
    · exact ⟨g, name, hPrepared, .inr ⟨r, hr, hWatching⟩⟩
  · rintro ⟨g, name, hPrepared, ⟨l, hl, rfl, hMoment⟩ | ⟨r, hr, hWatching⟩⟩
    · exact .inl ⟨l, hl, g, hMoment⟩
    · exact .inr ⟨r, hr, g, name, hPrepared, hWatching⟩

/-- Once all reports have been taken up, a class has got the breakpoints of a source exactly if it was prepared in time
or has no code for them. -/
theorem covered_iff_inTime {index : SourceIndex} {root : Path}
    (hReaches : Reaches (Interleaved (Faithful lines)) Honest (new index root) deeds w) (hOwn : Own lines)
    (hDelivered : ∀ x ∈ reports w.history, x ∈ w.given) (he : (path, i) ∈ w.placer.installed) :
    ∃ lookups : List Lookup, lookups.map (·.name) = w.placer.candidates path ∧ (∀ l ∈ lookups, l.In w.history) ∧
      ∀ c, Covered lines w i c ↔ InTime w i lookups c ∨ ¬ HasCode lines i.breakpoints c := by
  have hAccounted := hReaches.accounted
  obtain ⟨lookups, hAccount⟩ := hAccounted.accounts _ he
  refine ⟨lookups, hAccount.names, hAccount.past, fun c => ?_⟩
  rw [hAccounted.covered_iff hOwn he hAccount, hAccounted.mem_visited_iff hAccount hDelivered]

/-- A class that is prepared after the lookup and before the watch is set is neither found nor reported. -/
theorem not_covered_after_lookup : ∃ w i, (Sample.source.path, i) ∈ w.placer.installed ∧
    w.placer.candidates Sample.source.path = ["A"] ∧ ("A", ⟨1, 10⟩) ∈ Backend.preparations w.history ∧
    (∀ x ∈ reports w.history, x ∈ w.given) ∧ ¬ Covered Sample.lines w i ⟨1, 10⟩ ∧
    ∃ lookups : List Lookup, lookups.map (·.name) = w.placer.candidates Sample.source.path ∧
      (∀ l ∈ lookups, l.In w.history) ∧
      ∀ c, Covered Sample.lines w i c ↔ InTime w i lookups c ∨ ¬ HasCode Sample.lines i.breakpoints c := by
  obtain ⟨w, hTest, hReaches⟩ := exists_of_replay Sample.lines Sample.slip Honest (Sample.start ["A"])
    [.set Sample.source [Sample.breakpointAt 3], .sync] (fun w => decide (w.placer.candidates Sample.source.path = ["A"] ∧
      ("A", ⟨1, 10⟩) ∈ Backend.preparations w.history ∧ reports w.history = [] ∧
      ∃ e ∈ w.placer.installed, e.1.text = "/w/A.java" ∧ e.2.placements = [] ∧
        ∃ b ∈ e.2.breakpoints, b.position.line = 3)) (by decide +kernel)
  obtain ⟨hCandidates, hPrepared, hReports, e, he, hPath, hNothing, b, hb, hLine⟩ := of_decide_eq_true hTest
  obtain ⟨⟨text⟩, i⟩ := e
  cases hPath
  have hDelivered : ∀ x ∈ reports w.history, x ∈ w.given := fun x hx => by simp [hReports] at hx
  refine ⟨w, i, he, hCandidates, hPrepared, hDelivered, fun hCovered => ?_,
    covered_iff_inTime hReaches Sample.own hDelivered he⟩
  obtain ⟨x, hx, -⟩ := hCovered b hb ⟨1, 10, 7, 0⟩ (by simp [Sample.lines, Breakpoint.line, hLine])
  rw [hNothing] at hx
  cases hx

end Coverage

/-! ## Placed twice -/

section Twice

open Jdwp (LoadedClass Location RequestId)
open Backend (History Interleaved Willing Faithful Own liveLocations)
open BreakpointSet (Numbered)

variable {allowed : World → Deed → Prop} {w w' : World} {deeds : List Deed} {deed : Deed} {q q' : Path} {id : Int}

/-! The numbers of breakpoints belong to one source -/

theorem Comes.stems {e : Path × Installed} {h' : History} (hComes : Comes w deed h' e) : Stems w e := by
  cases hComes with
  | kept he _ _ => exact .inl ⟨e, he, BEq.rfl, rfl⟩
  | placed _ hFulfils => exact .inr ⟨_, hFulfils.wanted, BEq.rfl, rfl⟩
  | visited _ hi _ hVisited => exact .inl ⟨_, hi, BEq.rfl, hVisited.breakpoints.symm⟩

theorem Owned.step (hOwned : Owned w) (hSane : Sane w) (hDoes : Does (Interleaved Willing) w deed w') : Owned w' :=
  hOwned.stemming (fun e he => ((hDoes.moves hSane.order).comes e he).stems) hDoes

theorem Reaches.owned {index : SourceIndex} {root : Path}
    (hReaches : Reaches (Interleaved Willing) allowed (new index root) deeds w) : Owned w := by
  refine (hReaches.keeps (fun w => Sane w ∧ Owned w) ⟨sane_new index root, owned_new index root⟩ ?_).2
  rintro w deed w' ⟨hSane, hOwned⟩ _ hDoes
  exact ⟨hSane.step hDoes, hOwned.step hSane hDoes⟩

/-! Which locations are placed twice -/

variable {lines : LoadedClass → UInt32 → List Location} {path : Path} {i : Installed} {lookups : List Lookup}

/-- No breakpoint is placed twice at a location. -/
def Once (w : World) : Prop := (w.placer.placements.map (·.spot)).Nodup

instance (w : World) : Decidable (Once w) := inferInstanceAs (Decidable (List.Nodup _))

/-- No source has visited a class twice that has code for its breakpoints, nor one in which a line of theirs names a
location twice. -/
def VisitedOnce (lines : LoadedClass → UInt32 → List Location) (w : World) : Prop :=
  ∀ e ∈ w.placer.installed, ∀ lookups, Account lines w e.1 e.2 lookups →
    ∀ c ∈ w.visited e.2 lookups, HasCode lines e.2.breakpoints c →
      (∀ b ∈ e.2.breakpoints, (lines c b.line).Nodup) ∧ (w.visited e.2 lookups).count c ≤ 1

theorem nodup_spotsIn_iff {breakpoints : List Breakpoint} (hIds : (breakpoints.map (·.id)).Nodup) (c : LoadedClass) :
    (spotsIn lines breakpoints c).Nodup ↔ ∀ b ∈ breakpoints, (lines c b.line).Nodup := by
  have hApart : breakpoints.Pairwise
      (Function.onFun List.Disjoint fun b => (lines c b.line).map fun l => (b.id, l)) := by
    refine (List.pairwise_map.mp hIds).imp ?_
    rintro b b' hOther ⟨id, l⟩ hSpot hSpot'
    obtain ⟨_, -, hEq⟩ := List.mem_map.mp hSpot
    obtain ⟨_, -, hEq'⟩ := List.mem_map.mp hSpot'
    exact hOther ((Prod.mk.inj hEq).1.trans (Prod.mk.inj hEq').1.symm)
  rw [spotsIn, List.nodup_flatMap, and_iff_left hApart]
  exact forall₂_congr fun b _ => List.nodup_map_iff fun l l' hEq => (Prod.mk.inj hEq).2

theorem Account.once_iff (hAccount : Account lines w path i lookups) (hOwn : Own lines)
    (hIds : (i.breakpoints.map (·.id)).Nodup) :
    (i.placements.map (·.spot)).Nodup ↔ ∀ c ∈ w.visited i lookups, HasCode lines i.breakpoints c →
      (∀ b ∈ i.breakpoints, (lines c b.line).Nodup) ∧ (w.visited i lookups).count c ≤ 1 := by
  rw [hAccount.spots, nodup_flatMap_iff_count fun c c' spot hSpot hSpot' => eq_of_mem_spotsIn hOwn hSpot hSpot']
  exact forall₂_congr fun c _ => by rw [spotsIn_ne_nil_iff, nodup_spotsIn_iff hIds]

theorem Accounted.owns_of_placed (hAccounted : Accounted lines w) {e : Path × Installed} (he : e ∈ w.placer.installed)
    {spot : Int × Location} (hSpot : spot ∈ e.2.placements.map (·.spot)) : Owns w e.1 spot.1 := by
  obtain ⟨lookups, hAccount⟩ := hAccounted.accounts e he
  obtain ⟨id, l⟩ := spot
  rw [hAccount.spots, List.mem_flatMap] at hSpot
  obtain ⟨c, -, hSpot⟩ := hSpot
  obtain ⟨b, hb, hId, -⟩ := mem_spotsIn.mp hSpot
  exact .inr ⟨e, he, BEq.rfl, List.mem_map.mpr ⟨b, hb, hId⟩⟩

theorem Accounted.once_iff (hAccounted : Accounted lines w) (hOwned : Owned w) (hOwn : Own lines) :
    Once w ↔ VisitedOnce lines w := by
  have hApart : w.placer.installed.Pairwise
      (Function.onFun List.Disjoint fun e => e.2.placements.map (·.spot)) := by
    refine hAccounted.sane.order.distinct.imp_of_mem fun {d e} hd he hKeys spot hSpot hSpot' => ?_
    rw [hOwned.apart _ _ spot.1 (hAccounted.owns_of_placed hd hSpot) (hAccounted.owns_of_placed he hSpot')] at hKeys
    cases hKeys
  rw [Once, Placer.placements, List.map_flatMap, List.nodup_flatMap, and_iff_left hApart]
  constructor
  · intro hEach e he lookups hAccount
    exact (hAccount.once_iff hOwn (hOwned.placed e he).once).mp (hEach e he)
  · intro hEach e he
    obtain ⟨lookups, hAccount⟩ := hAccounted.accounts e he
    exact (hAccount.once_iff hOwn (hOwned.placed e he).once).mpr (hEach e he lookups hAccount)

/-! At every moment -/

/-- While a world goes on to be another one, nothing is placed twice at a moment: requests that are in the machine for the
same breakpoint and location are one. -/
def OnceAt (w w' : World) (g : History) : Prop :=
  ∀ x ∈ w.placer.placements ++ w'.placer.placements, ∀ y ∈ w.placer.placements ++ w'.placer.placements,
    x.live ∈ liveLocations g → y.live ∈ liveLocations g → x.spot = y.spot → x = y

theorem Sane.nodup_requests (hSane : Sane w) : (w.placer.placements.map (·.request)).Nodup := by
  have hLive := hSane.order.recorded.locations.map (·.1)
  have hOnce := hSane.order.sound.once.sublist (List.sublist_append_left ..)
  rw [← List.map_flatMap, List.map_map] at hLive
  exact hLive.nodup_iff.mpr hOnce

theorem Sane.live_placement (hSane : Sane w) {x : RequestId × Location} :
    x ∈ liveLocations w.history ↔ ∃ y ∈ w.placer.placements, y.live = x := by
  rw [← hSane.order.recorded.locations.mem_iff, ← List.map_flatMap, List.mem_map]
  rfl

theorem Does.placement_before (hDoes : Does (Interleaved Willing) w deed w') (hSane : Sane w) {x : Placement}
    (hx : x ∈ w'.placer.placements) (hIssued : x.request ∈ Backend.issued w.history) : x ∈ w.placer.placements := by
  obtain ⟨e, he, hx⟩ := List.mem_flatMap.mp hx
  cases (hDoes.moves hSane.order).comes e he with
  | kept hKept _ _ => exact List.mem_flatMap.mpr ⟨e, hKept, hx⟩
  | placed _ hFulfils =>
    exact absurd hIssued (hFulfils.placed.fresh _ (List.mem_append_left _ (List.mem_map_of_mem hx)))
  | visited _ hi _ hVisited =>
    obtain ⟨new, -, -, -, hPlacements, -, -, hFresh, -⟩ := hVisited.placed
    rw [hPlacements] at hx
    rcases List.mem_append.mp hx with hx | hx
    · exact List.mem_flatMap.mpr ⟨_, hi, hx⟩
    · exact absurd hIssued (hFresh x hx)

theorem Sane.issued_of_live (hSane : Sane w) {x : Placement} (hLive : x.live ∈ liveLocations w.history) :
    x.request ∈ Backend.issued w.history :=
  hSane.order.sound.issued _ (List.mem_append_left _ (List.mem_map.mpr ⟨_, hLive, rfl⟩))

theorem Does.placed_before (hDoes : Does (Interleaved Willing) w deed w') (hSane : Sane w) {x : Placement}
    (hx : x ∈ w.placer.placements ++ w'.placer.placements) (hLive : x.live ∈ liveLocations w.history) :
    x ∈ w.placer.placements :=
  (List.mem_append.mp hx).elim id fun hx => hDoes.placement_before hSane hx (hSane.issued_of_live hLive)

theorem Does.placed_after (hDoes : Does (Interleaved Willing) w deed w') (hSane : Sane w) {x : Placement}
    (hx : x ∈ w.placer.placements ++ w'.placer.placements) (hLive : x.live ∈ liveLocations w'.history) :
    x ∈ w'.placer.placements := by
  rcases List.mem_append.mp hx with hx | hx
  · obtain ⟨y, hy, hEq⟩ := (hSane.step hDoes).live_placement.mp hLive
    have hRequest : y.request = x.request := congrArg Prod.fst hEq
    have hIssued := hSane.issued_of_live (hSane.live_placement.mpr ⟨x, hx, rfl⟩)
    rw [← hRequest] at hIssued
    have hSame := List.inj_on_of_nodup_map hSane.nodup_requests (hDoes.placement_before hSane hy hIssued) hx hRequest
    rwa [← hSame]
  · exact hx

theorem Sane.once_iff (hSane : Sane w) :
    Once w ↔ ∀ x ∈ w.placer.placements, ∀ y ∈ w.placer.placements, x.spot = y.spot → x = y := by
  constructor
  · exact fun hOnce x hx y hy hSpot => List.inj_on_of_nodup_map hOnce hx hy hSpot
  · exact fun hSame => (List.Nodup.of_map _ hSane.nodup_requests).map_on fun x hx y hy => hSame x hx y hy

theorem Does.onceAt_iff (hDoes : Does (Interleaved Willing) w deed w') (hSane : Sane w) :
    (∀ g, w.history <+: g → g <+: w'.history → OnceAt w w' g) ↔ Once w ∧ Once w' := by
  have hSane' := hSane.step hDoes
  have hHistory := (hDoes.moves hSane.order).history
  rw [hSane.once_iff, hSane'.once_iff]
  constructor
  · intro hAll
    refine ⟨fun x hx y hy => ?_, fun x hx y hy => ?_⟩
    · exact hAll w.history List.prefix_rfl hHistory x (List.mem_append_left _ hx) y (List.mem_append_left _ hy)
        (hSane.live_placement.mpr ⟨x, hx, rfl⟩) (hSane.live_placement.mpr ⟨y, hy, rfl⟩)
    · exact hAll w'.history hHistory List.prefix_rfl x (List.mem_append_right _ hx) y (List.mem_append_right _ hy)
        (hSane'.live_placement.mpr ⟨x, hx, rfl⟩) (hSane'.live_placement.mpr ⟨y, hy, rfl⟩)
  · rintro ⟨hBefore, hAfter⟩ g hFrom hTo x hx y hy hxLive hyLive hSpot
    obtain ⟨m, hClear, hPlace⟩ := hDoes.phases hSane.order
    rcases List.prefix_or_prefix_of_prefix hTo hPlace.isPrefix with hEarly | hLate
    · have hLess := (hClear.between hFrom hEarly).1.adds_nothing.1
      exact hBefore x (hDoes.placed_before hSane hx (hLess.subset hxLive))
        y (hDoes.placed_before hSane hy (hLess.subset hyLive)) hSpot
    · have hMore := (hPlace.between hLate hTo).2.keeps.1
      exact hAfter x (hDoes.placed_after hSane hx (hMore.subset hxLive))
        y (hDoes.placed_after hSane hy (hMore.subset hyLive)) hSpot

/-- While a deed is done, all that stands in the machine is on record before it or after it. -/
theorem Does.live_placed (hDoes : Does (Interleaved Willing) w deed w') (hSane : Sane w) {g : History}
    (hFrom : w.history <+: g) (hTo : g <+: w'.history) {x : RequestId × Location} (hx : x ∈ liveLocations g) :
    ∃ y ∈ w.placer.placements ++ w'.placer.placements, y.live = x := by
  obtain ⟨m, hClear, hPlace⟩ := hDoes.phases hSane.order
  rcases List.prefix_or_prefix_of_prefix hTo hPlace.isPrefix with hEarly | hLate
  · have hLess := (hClear.between hFrom hEarly).1.adds_nothing.1
    obtain ⟨y, hy, hEq⟩ := hSane.live_placement.mp (hLess.subset hx)
    exact ⟨y, List.mem_append_left _ hy, hEq⟩
  · have hMore := (hPlace.between hLate hTo).2.keeps.1
    obtain ⟨y, hy, hEq⟩ := (hSane.step hDoes).live_placement.mp (hMore.subset hx)
    exact ⟨y, List.mem_append_right _ hy, hEq⟩

theorem Accounted.visitedOnce (hAccounted : Accounted lines w) (hLines : ∀ c line, (lines c line).Nodup)
    (hOnce : ((Backend.preparations w.history).map (·.2)).Nodup)
    (hFlat : ∀ e ∈ w.placer.installed, Flat (w.placer.candidates e.1)) : VisitedOnce lines w := by
  intro e he lookups hAccount c hVisited _
  obtain ⟨name, hPrepared⟩ := hAccounted.prepared_of_visited hAccount hVisited
  refine ⟨fun b _ => hLines c b.line, ?_⟩
  exact Nat.le_trans (hAccounted.count_visited_le hAccount hOnce hPrepared) ((hFlat e he).countP_patternsOf_le name)

/-- At no moment of a deed is anything placed twice exactly if, before it and after it, no source has visited a class
twice that has code for its breakpoints. If every class is prepared once, no source does that has no candidate nested in
another. -/
theorem onceAt_iff_visitedOnce {index : SourceIndex} {root : Path}
    (hReaches : Reaches (Interleaved (Faithful lines)) Honest (new index root) deeds w) (hHonest : Honest w deed)
    (hDoes : Does (Interleaved (Faithful lines)) w deed w') (hOwn : Own lines) :
    (∀ g, w.history <+: g → g <+: w'.history → ∀ x ∈ liveLocations g,
      ∃ y ∈ w.placer.placements ++ w'.placer.placements, y.live = x) ∧
    ((∀ g, w.history <+: g → g <+: w'.history → OnceAt w w' g) ↔ VisitedOnce lines w ∧ VisitedOnce lines w') ∧
    ((∀ c line, (lines c line).Nodup) → ((Backend.preparations w.history).map (·.2)).Nodup →
      (∀ e ∈ w.placer.installed, Flat (w.placer.candidates e.1)) → VisitedOnce lines w) := by
  have hAccounted := hReaches.accounted
  have hSane := hAccounted.sane
  have hDoes' := hDoes.willing
  have hOwned : Owned w := hReaches.willing.owned
  have hBefore := hAccounted.once_iff hOwned hOwn
  have hAfter := (hAccounted.step hHonest hDoes).once_iff (hOwned.step hSane hDoes') hOwn
  refine ⟨fun g hFrom hTo x hx => hDoes'.live_placed hSane hFrom hTo hx, ?_, hAccounted.visitedOnce⟩
  rw [hDoes'.onceAt_iff hSane, hBefore, hAfter]

/-- The class `A$B` is nested in a candidate and is one itself, so that two watches report it. -/
theorem placed_twice_nested : ∃ w w', ((Backend.preparations w.history).map (·.2)).Nodup ∧
    Does (Interleaved (Faithful Sample.lines)) w (.report 3 ⟨1, 10⟩) w' ∧ ¬ Once w' ∧
    ((∀ g, w.history <+: g → g <+: w'.history → OnceAt w w' g) ↔
      VisitedOnce Sample.lines w ∧ VisitedOnce Sample.lines w') := by
  obtain ⟨w, hTest, hReaches⟩ := exists_of_replay Sample.lines (fun _ => []) Honest (Sample.start ["A", "A$B"])
    [.set Sample.source [Sample.breakpointAt 3], .sync, .prepare "A$B" ⟨1, 10⟩, .report 2 ⟨1, 10⟩]
    (fun w => decide (((Backend.preparations w.history).map Prod.snd).Nodup ∧ Honest w (.report 3 ⟨1, 10⟩)) &&
      (replayDeed Sample.lines (fun _ => []) w (.report 3 ⟨1, 10⟩)).any fun w' =>
        decide (¬ Once w')) (by decide +kernel)
  obtain ⟨hNow, hNext⟩ := (Bool.and_eq_true ..).mp hTest
  obtain ⟨hPrepared, hHonest⟩ := of_decide_eq_true hNow
  obtain ⟨w', hReplay, hTwice⟩ := (Option.any_eq_true ..).mp hNext
  have hDoes := does_of_replayDeed hReplay
  exact ⟨w, w', hPrepared, hDoes, of_decide_eq_true hTwice,
    (onceAt_iff_visitedOnce hReaches hHonest hDoes Sample.own).2.1⟩

end Twice

end JvmDebug.World
