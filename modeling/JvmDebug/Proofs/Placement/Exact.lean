import JvmDebug.Proofs.Placement.Replay

/-!
# A sync is exact

After a sync, what stands in the machine is what is on record, and what is on record is what the client asked for:
nothing is left of what a source had before it was last set, a source that was not set keeps what it has, and one that
was set is placed anew from what the machine tells about its candidates.
-/

namespace JvmDebug
set_option autoImplicit false

open Jdwp (LoadedClass Location RequestId)
open Backend (History Interleaved Willing liveLocations liveWatches live)
open Placer (Synced Recorded Placed)

/-- What a source should be placed with: its breakpoints, in the revision in which they were set. -/
def BreakpointSet.wanted (s : BreakpointSet) (q : Path) : Option (List Breakpoint × Nat) :=
  (s.bySource.find? q).bind fun breakpoints => (s.revisions.find? q).map (breakpoints, ·)

def Placer.placedWith (p : Placer) (q : Path) : Option (List Breakpoint × Nat) :=
  (p.installed.find? q).map fun i => (i.breakpoints, i.revision)

namespace World

def touch (touched : List Path) : Deed → List Path
  | .set source _ => source.path :: touched
  | .sync => []
  | _ => touched

/-- The sources that were set since the last sync. -/
def touched (deeds : List Deed) : List Path := deeds.foldl touch []

variable {answers : Answering Backend History} {allowed : World → Deed → Prop} {start w w' w₁ : World}
  {deeds since : List Deed} {deed : Deed} {p' : Placer} {h' : History} {q : Path}

theorem touched_snoc : touched (deeds ++ [deed]) = touch (touched deeds) deed := by
  simp [touched, List.foldl_append]

/-! What a sync places -/

section Sync

variable (hSynced : Synced w.book.current w.placer w.history p' h') (hSane : Sane w)
include hSynced hSane

theorem wanted_of_synced {e : Path × Installed} (he : e ∈ p'.installed) :
    w.book.current.bySource.find? e.1 = some e.2.breakpoints ∧
      w.book.current.revisions.find? e.1 = some e.2.revision := by
  obtain ⟨added, hPerm, hFulfils⟩ := hSynced.installed
  rcases List.mem_append.mp (hPerm.subset he) with he | he
  · have hSource := hSane.tidy.distinct.find? (hFulfils e he).wanted
    have hKeyed := hSane.tidy.keyed e.1
    rw [hSource] at hKeyed
    obtain ⟨n, hRevision⟩ := Option.isSome_iff_exists.mp hKeyed
    rw [(hFulfils e he).revision, hRevision]
    exact ⟨hSource, rfl⟩
  · obtain ⟨he, hCurrent⟩ := List.mem_filter.mp he
    have hRevision : w.book.current.revisions.find? e.1 = some e.2.revision := beq_iff_eq.mp hCurrent
    exact ⟨hSane.same e he hRevision, hRevision⟩

theorem placedWith_of_synced (q : Path) : p'.placedWith q = w.book.current.wanted q := by
  rw [Placer.placedWith, BreakpointSet.wanted]
  cases hFind : p'.installed.find? q with
  | some i =>
    obtain ⟨path, hKey, he⟩ := PathMap.exists_mem_of_find? hFind
    obtain ⟨hSource, hRevision⟩ := wanted_of_synced hSynced hSane he
    rw [← PathMap.find?_congr _ hKey, ← PathMap.find?_congr _ hKey, hSource, hRevision]
    rfl
  | none =>
    cases hSource : w.book.current.bySource.find? q with
    | none => rfl
    | some breakpoints =>
      obtain ⟨path, hKey, he⟩ := PathMap.exists_mem_of_find? hSource
      have hCovered := hSynced.covered _ he
      rw [PathMap.find?_congr _ hKey, hFind] at hCovered
      cases hCovered

theorem verified_of_synced (id : Int) : id ∈ p'.verified ↔ id ∈ p'.placements.map (·.breakpoint) := by
  have hEntry : ∀ e ∈ p'.installed, id ∈ e.2.verified ↔ id ∈ e.2.placements.map (·.breakpoint) := by
    intro e he
    obtain ⟨added, hPerm, hFulfils⟩ := hSynced.installed
    rcases List.mem_append.mp (hPerm.subset he) with he | he
    · exact (hFulfils e he).placed.verified id
    · exact hSane.verified e (List.mem_filter.mp he).1 id
  rw [Placer.verified, Placer.placements, List.map_flatMap, List.mem_flatMap, List.mem_flatMap]
  constructor
  · rintro ⟨e, he, hid⟩
    exact ⟨e, he, (hEntry e he).mp hid⟩
  · rintro ⟨e, he, hid⟩
    exact ⟨e, he, (hEntry e he).mpr hid⟩

theorem find?_of_synced (hAgrees : w.placer.placedWith q = w.book.current.wanted q) :
    p'.installed.find? q = w.placer.installed.find? q := by
  cases hFind : w.placer.installed.find? q with
  | none =>
    have hNone : p'.placedWith q = none := by
      rw [placedWith_of_synced hSynced hSane, ← hAgrees, Placer.placedWith, hFind]
      rfl
    exact Option.map_eq_none_iff.mp hNone
  | some i =>
    obtain ⟨path, hKey, he⟩ := PathMap.exists_mem_of_find? hFind
    rw [Placer.placedWith, hFind, BreakpointSet.wanted] at hAgrees
    obtain ⟨breakpoints, -, hRevision⟩ := Option.bind_eq_some_iff.mp hAgrees.symm
    obtain ⟨n, hRevision, hEq⟩ := Option.map_eq_some_iff.mp hRevision
    cases hEq
    have hCurrent : Placer.isCurrent w.book.current (path, i) = true := by
      rw [Placer.isCurrent, PathMap.find?_congr _ hKey, hRevision]
      exact beq_self_eq_true _
    obtain ⟨added, hPerm, -⟩ := hSynced.installed
    have hMem := hPerm.symm.subset (List.mem_append_right _ (List.mem_filter.mpr ⟨he, hCurrent⟩))
    rw [← PathMap.find?_congr _ hKey, hSynced.order.distinct.find? hMem]

end Sync

/-! Sources that were not set keep what they have -/

theorem placedWith_of_reported {r : RequestId} {c : LoadedClass}
    (hReported : Placer.Reported r c w.placer w.history p' h') (hSane : Sane w) (q : Path) :
    p'.placedWith q = w.placer.placedWith q := by
  rw [Placer.placedWith, Placer.placedWith]
  rcases hReported.installed with ⟨-, hSame, -⟩ | ⟨path, i, i', others, hPerm, hPerm', -, hVisited⟩
  · rw [hSame]
  · rw [hReported.order.distinct.find?_perm hPerm', hSane.order.distinct.find?_perm hPerm, PathMap.find?_cons,
      PathMap.find?_cons]
    cases path == q with
    | true => simp [hVisited.breakpoints, hVisited.revision]
    | false => rfl

theorem wanted_set {source : Source} {requested : List RequestedBreakpoint} (hOther : (source.path == q) = false) :
    (w.book.set source requested).2.current.wanted q = w.book.current.wanted q := by
  change (w.book.current.replace source.path requested w.book.next).1.wanted q = _
  rw [BreakpointSet.wanted, BreakpointSet.find?_bySource_replace, BreakpointSet.find?_revisions_replace, hOther]
  rfl

/-- A source that was not set since the last sync is placed as it is wanted. -/
theorem Reaches.agrees {index : SourceIndex} {root : Path}
    (hReaches : Reaches (Interleaved Willing) allowed (new index root) deeds w) (q : Path)
    (hUntouched : ∀ t ∈ touched deeds, (t == q) = false) : w.placer.placedWith q = w.book.current.wanted q := by
  induction hReaches with
  | nil => rfl
  | snoc hBefore _ hDoes ih =>
    have hSane := hBefore.sane
    rw [touched_snoc] at hUntouched
    cases hDoes with
    | set source requested =>
      rw [wanted_set (hUntouched _ List.mem_cons_self)]
      exact ih fun t ht => hUntouched t (List.mem_cons_of_mem _ ht)
    | sync hRun => exact placedWith_of_synced (Does.synced (.sync hRun) hSane.order).1 hSane q
    | report hRun =>
      exact (placedWith_of_reported (Does.reported (.report hRun) hSane.order).1 hSane q).trans (ih hUntouched)
    | prepare name c => exact ih hUntouched

/-- A source that was set since the last sync is not placed in the revision that it has now. -/
theorem Reaches.outdated {index : SourceIndex} {root : Path}
    (hReaches : Reaches (Interleaved Willing) allowed (new index root) deeds w) {t : Path} (ht : t ∈ touched deeds)
    {e : Path × Installed} (he : e ∈ w.placer.installed) (hKey : (t == e.1) = true) :
    w.book.current.revisions.find? e.1 ≠ some e.2.revision := by
  induction hReaches generalizing e with
  | nil => cases he
  | snoc hBefore _ hDoes ih =>
    have hSane := hBefore.sane
    have hComes := (hDoes.moves hSane.order).comes e he
    intro hRevision
    obtain ⟨hOther, hOld, -⟩ := hDoes.same_revision (hComes.dated hSane) hRevision
    rw [touched_snoc] at ht
    cases hDoes with
    | set source requested =>
      rcases List.mem_cons.mp ht with rfl | ht
      · rw [hOther source requested rfl] at hKey
        cases hKey
      · exact ih ht he hKey hOld
    | sync hRun => cases ht
    | report hRun =>
      cases hComes with
      | kept hKept _ _ => exact ih ht hKept hKey hOld
      | placed hSync _ => cases hSync
      | visited _ hi _ hVisited => exact ih ht hi hKey (by rw [hOld, hVisited.revision])
    | prepare name c => exact ih ht he hKey hOld

/-! Nothing is left of what a source had before it was set -/

/-- A request made for a source stands for no other source, and for none of the source's later revisions. -/
structure Bygone (r : RequestId) (q : Path) (n : Nat) (w : World) : Prop where
  dated : n ≤ w.book.current.generation
  issued : r ∈ Backend.issued w.history
  only : ∀ e ∈ w.placer.installed, r ∈ e.2.requests → (e.1 == q) = true ∧ e.2.revision ≤ n

theorem Sane.bygone {r : RequestId} {i : Installed} (hSane : Sane w) (hFind : w.placer.installed.find? q = some i)
    (hr : r ∈ i.requests) : Bygone r q i.revision w := by
  obtain ⟨path, hKey, hMem⟩ := PathMap.exists_mem_of_find? hFind
  obtain ⟨-, hRecorded, hSound⟩ := hSane.order
  refine ⟨hSane.dated _ hMem, hSound.issued r (hRecorded.mem_live hMem r hr), fun e he hr' => ?_⟩
  rw [eq_of_mem_flatMap (hRecorded.once hSound) he hMem hr' hr]
  exact ⟨hKey, Nat.le_refl _⟩

theorem Bygone.step {r : RequestId} {n : Nat} (hBygone : Bygone r q n w) (hSane : Sane w)
    (hDoes : Does (Interleaved Willing) w deed w') : Bygone r q n w' := by
  have hMoves := hDoes.moves hSane.order
  refine ⟨Nat.le_trans hBygone.dated hDoes.generation_le, Backend.issued_of_earlier hMoves.history hBygone.issued, ?_⟩
  intro e he hr
  cases hMoves.comes e he with
  | kept hKept _ _ => exact hBygone.only e hKept hr
  | placed _ hFulfils => exact absurd hBygone.issued (hFulfils.placed.fresh r hr)
  | visited _ hi _ hVisited =>
    obtain ⟨new, v, -, -, hPlacements, -, -, hFresh, -⟩ := hVisited.placed
    rw [Installed.requests, hPlacements, hVisited.watches, List.map_append, List.append_assoc] at hr
    rw [hVisited.revision]
    rcases List.mem_append.mp hr with hr | hr
    · exact hBygone.only _ hi (List.mem_append_left _ hr)
    rcases List.mem_append.mp hr with hr | hr
    · obtain ⟨x, hx, rfl⟩ := List.mem_map.mp hr
      exact absurd hBygone.issued (hFresh x hx)
    · exact hBygone.only _ hi (List.mem_append_right _ hr)

theorem Reaches.bygone {r : RequestId} {n : Nat} (hReaches : Reaches (Interleaved Willing) allowed w₁ since w)
    (hSane : Sane w₁) (hBygone : Bygone r q n w₁) :
    Sane w ∧ Bygone r q n w ∧ ((∃ source requested, .set source requested ∈ since ∧ (source.path == q) = true) →
      ∀ m, w.book.current.revisions.find? q = some m → n < m) := by
  induction hReaches with
  | nil => exact ⟨hSane, hBygone, fun ⟨_, _, hMem, _⟩ => by cases hMem⟩
  | snoc _ _ hDoes ih =>
    obtain ⟨hSane, hBygone, hNewer⟩ := ih
    refine ⟨hSane.step hDoes, hBygone.step hSane hDoes, fun ⟨source, requested, hMem, hKey⟩ m hRevision => ?_⟩
    by_cases hOld : n < m
    · exact hOld
    · obtain ⟨hOther, hBefore, -⟩ := hDoes.same_revision (by have := hBygone.dated; omega) hRevision
      rcases List.mem_append.mp hMem with hMem | hMem
      · exact hNewer ⟨source, requested, hMem, hKey⟩ m hBefore
      · rw [hOther source requested (List.mem_singleton.mp hMem).symm] at hKey
        cases hKey

theorem not_live_of_synced {r : RequestId} {n : Nat} (hSynced : Synced w.book.current w.placer w.history p' h')
    (hBygone : Bygone r q n w) (hNewer : ∀ m, w.book.current.revisions.find? q = some m → n < m) : r ∉ live h' := by
  intro hLive
  obtain ⟨e, he, hr⟩ := hSynced.order.recorded.exists_of_live hLive
  obtain ⟨added, hPerm, hFulfils⟩ := hSynced.installed
  rcases List.mem_append.mp (hPerm.subset he) with he | he
  · exact (hFulfils e he).placed.fresh r hr hBygone.issued
  · obtain ⟨he, hCurrent⟩ := List.mem_filter.mp he
    obtain ⟨hKey, hOld⟩ := hBygone.only e he hr
    have hRevision : w.book.current.revisions.find? e.1 = some e.2.revision := beq_iff_eq.mp hCurrent
    rw [PathMap.find?_congr _ hKey] at hRevision
    have hNew := hNewer _ hRevision
    omega

/-! All of it -/

/-- What a sync leaves behind, after some deeds. -/
structure Exact (start : World) (deeds : List Deed) (w : World) (p : Placer) (h : History) : Prop where
  /-- What stands in the machine is what is on record, and so are the watches in the map; each of it once. -/
  recorded : Recorded p.installed p.watches h
  once : (p.installed.flatMap (·.2.requests)).Nodup
  /-- The breakpoints that have code are those for which something was placed. -/
  verified : ∀ id, id ∈ p.verified ↔ id ∈ p.placements.map (·.breakpoint)
  /-- The sources are those that the client wants, with their breakpoints and revisions. -/
  sources : ∀ q, p.placedWith q = w.book.current.wanted q
  /-- No request that was made for a source before it was last set is left. -/
  bygone : ∀ earlier since w₁, Reaches (Interleaved Willing) Anything start earlier w₁ →
    Reaches (Interleaved Willing) Anything w₁ since w → ∀ q, (∃ source requested,
      .set source requested ∈ since ∧ (source.path == q) = true) →
    ∀ i, w₁.placer.installed.find? q = some i → ∀ r ∈ i.requests, r ∉ live h
  /-- A source that was not set since the last sync keeps its requests. -/
  kept : ∀ q, (∀ t ∈ touched deeds, (t == q) = false) → p.installed.find? q = w.placer.installed.find? q
  /-- The other ones were placed anew, from what the machine told meanwhile. -/
  placed : ∀ t ∈ touched deeds, ∀ e ∈ p.installed, (t == e.1) = true → Placed (p.candidates e.1) w.history e.2 h

theorem exact_of_synced {index : SourceIndex} {root : Path}
    (hReaches : Reaches (Interleaved Willing) Anything (new index root) deeds w)
    (hSynced : Synced w.book.current w.placer w.history p' h') : Exact (new index root) deeds w p' h' where
  recorded := hSynced.order.recorded
  once := hSynced.order.recorded.once hSynced.order.sound
  verified := verified_of_synced hSynced hReaches.sane
  sources := placedWith_of_synced hSynced hReaches.sane
  bygone earlier since w₁ hEarlier hSince q hSet i hFind r hr := by
    have hSane := hEarlier.sane
    obtain ⟨-, hBygone, hNewer⟩ := hSince.bygone hSane (hSane.bygone hFind hr)
    exact not_live_of_synced hSynced hBygone (hNewer hSet)
  kept q hUntouched := find?_of_synced hSynced hReaches.sane (hReaches.agrees q hUntouched)
  placed t ht e he hKey := by
    obtain ⟨added, hPerm, hFulfils⟩ := hSynced.installed
    rcases List.mem_append.mp (hPerm.subset he) with he | he
    · rw [Placer.candidates, hSynced.index, hSynced.root]
      exact (hFulfils e he).placed
    · obtain ⟨he, hCurrent⟩ := List.mem_filter.mp he
      exact absurd (beq_iff_eq.mp hCurrent) (hReaches.outdated ht he hKey)

/-- On a machine that refuses nothing, every sync comes to its end and is exact, whatever was done before. -/
theorem sync_exact {index : SourceIndex} {root : Path}
    (hReaches : Reaches (Interleaved Willing) Anything (new index root) deeds w) :
    Routine.Ensures (Interleaved Willing)
      (fun outcome p h => outcome = .ok p.verified ∧ Exact (new index root) deeds w p h)
      (Placer.sync w.book.current).run w.placer w.history := by
  refine Routine.Ensures.mono ?_ (Placer.sync_succeeds w.book.current hReaches.sane.order)
  rintro _ p h ⟨_, rfl, rfl, hSynced⟩
  exact ⟨rfl, exact_of_synced hReaches hSynced⟩

/-- A source is set again after it was placed and one of its classes was reported. -/
theorem sync_exact_set_again : ∃ w, w.placer.verified = [1] ∧
    Routine.Ensures (Interleaved Willing)
      (fun outcome p h => outcome = .ok p.verified ∧ Exact (Sample.start ["A"])
        [.set Sample.source [Sample.breakpointAt 3], .sync, .prepare "A" ⟨1, 10⟩, .report 1 ⟨1, 10⟩,
          .set Sample.source [Sample.breakpointAt 4, Sample.breakpointAt 3]] w p h)
      (Placer.sync w.book.current).run w.placer w.history := by
  obtain ⟨w, hVerified, hReaches⟩ := exists_of_replay Sample.lines (fun _ => []) Anything (Sample.start ["A"])
    [.set Sample.source [Sample.breakpointAt 3], .sync, .prepare "A" ⟨1, 10⟩, .report 1 ⟨1, 10⟩,
      .set Sample.source [Sample.breakpointAt 4, Sample.breakpointAt 3]] (fun w => w.placer.verified = [1])
    (by decide +kernel)
  exact ⟨w, by simpa using hVerified, sync_exact hReaches.willing⟩

end World
end JvmDebug
