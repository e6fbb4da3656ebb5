import JvmDebug.Breakpoint.Book
import JvmDebug.Proofs.Path

/-!
# Setting the breakpoints of a source

What `set` does to the source that it is about and what it leaves of the others. A source that was set has a revision
that none had before; its breakpoints have the numbers of earlier ones of the source, or new ones.
-/

namespace JvmDebug
set_option autoImplicit false

namespace BreakpointSet

/-! Numbers -/

theorem takeAt_perm {r : RequestedBreakpoint} {earlier others : List Breakpoint} {b : Breakpoint}
    (hTaken : takeAt r earlier = some (b, others)) : earlier.Perm (b :: others) := by
  induction earlier generalizing others with
  | nil => cases hTaken
  | cons x rest ih =>
    rw [takeAt] at hTaken
    split at hTaken
    · cases hTaken
      exact .refl _
    · obtain ⟨⟨found, others'⟩, hRest, hEq⟩ := Option.map_eq_some_iff.mp hTaken
      cases hEq
      exact ((ih hRest).cons x).trans (.swap _ _ _)

/-- Numbers below the next free one, each given once. -/
structure Numbered (next : Int) (breakpoints : List Breakpoint) : Prop where
  once : (breakpoints.map (·.id)).Nodup
  below : ∀ b ∈ breakpoints, b.id < next

theorem Numbered.later {next last : Int} {breakpoints : List Breakpoint} (hNumbered : Numbered next breakpoints)
    (hLater : next ≤ last) : Numbered last breakpoints where
  once := hNumbered.once
  below b hb := Int.lt_of_lt_of_le (hNumbered.below b hb) hLater

theorem Numbered.cons {next : Int} {b : Breakpoint} {others : List Breakpoint} (hOthers : Numbered next others)
    (hNew : b.id ∉ others.map (·.id)) (hBelow : b.id < next) : Numbered next (b :: others) where
  once := List.nodup_cons.mpr ⟨hNew, hOthers.once⟩
  below := List.forall_mem_cons.mpr ⟨hBelow, hOthers.below⟩

/-- A breakpoint of a list, and the others. -/
theorem Numbered.of_perm {next : Int} {b : Breakpoint} {breakpoints others : List Breakpoint}
    (hNumbered : Numbered next breakpoints) (hPerm : breakpoints.Perm (b :: others)) :
    b.id ∉ others.map (·.id) ∧ b.id < next ∧ Numbered next others := by
  obtain ⟨hNew, hOnce⟩ := List.nodup_cons.mp ((hPerm.map (·.id)).nodup_iff.mp hNumbered.once)
  have hBelow := fun d hd => hNumbered.below d (hPerm.symm.subset hd)
  exact ⟨hNew, hBelow b List.mem_cons_self, hOnce, fun d hd => hBelow d (List.mem_cons_of_mem _ hd)⟩

/-- What `number` yields: numbers of earlier breakpoints, or new ones. -/
theorem number_numbered (earlier : List Breakpoint) (next : Int) (requested : List RequestedBreakpoint)
    (hEarlier : Numbered next earlier) :
    next ≤ (number earlier next requested).2 ∧
    Numbered (number earlier next requested).2 (number earlier next requested).1 ∧
    ∀ id ∈ (number earlier next requested).1.map (·.id), id ∈ earlier.map (·.id) ∨ next ≤ id := by
  induction requested generalizing earlier next with
  | nil => exact ⟨Int.le_refl _, ⟨List.nodup_nil, by simp [number]⟩, by simp [number]⟩
  | cons r rest ih =>
    rw [number]
    cases hTaken : takeAt r earlier with
    | some found =>
      obtain ⟨old, others⟩ := found
      have hPerm := takeAt_perm hTaken
      have hIds : (earlier.map (·.id)).Perm (old.id :: others.map (·.id)) := hPerm.map _
      obtain ⟨hOld, hBelow, hOthers⟩ := hEarlier.of_perm hPerm
      obtain ⟨hNext, hNumbered, hFrom⟩ := ih others next hOthers
      refine ⟨hNext, hNumbered.cons (fun hMem => ?_) (Int.lt_of_lt_of_le hBelow hNext), ?_⟩
      · rcases hFrom _ hMem with hIn | hNew
        · exact hOld hIn
        · exact absurd hBelow (Int.not_lt.mpr hNew)
      · refine List.forall_mem_cons.mpr ⟨.inl (hIds.symm.subset List.mem_cons_self), fun id hId => ?_⟩
        exact (hFrom id hId).imp_left fun hIn => hIds.symm.subset (List.mem_cons_of_mem _ hIn)
    | none =>
      have hLater : next ≤ next + 1 := by omega
      obtain ⟨hNext, hNumbered, hFrom⟩ := ih earlier (next + 1) (hEarlier.later hLater)
      have hBelow : next < (number earlier (next + 1) rest).2 := by omega
      refine ⟨Int.le_trans hLater hNext, hNumbered.cons (fun hMem => ?_) hBelow, ?_⟩
      · have hOld : next ∈ earlier.map (·.id) := (hFrom next hMem).resolve_right (by omega)
        obtain ⟨old, hOld, hSame⟩ := List.mem_map.mp hOld
        have hBelow := hEarlier.below old hOld
        omega
      · refine List.forall_mem_cons.mpr ⟨.inr (Int.le_refl _), fun id hId => ?_⟩
        exact (hFrom id hId).imp_right fun hNew => Int.le_trans hLater hNew

def again (b : Breakpoint) : RequestedBreakpoint := ⟨b.position, b.condition⟩

theorem number_again (breakpoints : List Breakpoint) (next : Int) :
    number breakpoints next (breakpoints.map again) = (breakpoints, next) := by
  induction breakpoints with
  | nil => rfl
  | cons b rest ih =>
    have hTaken : takeAt (again b) (b :: rest) = some (b, rest) := by simp [takeAt, again]
    rw [List.map_cons, number, hTaken]
    simp only [ih, again]

/-! Sources -/

/-- No source stands twice, and those that have breakpoints have a revision. -/
structure Tidy (s : BreakpointSet) : Prop where
  distinct : s.bySource.Distinct
  keyed : ∀ q, (s.revisions.find? q).isSome = (s.bySource.find? q).isSome
  dated : ∀ q n, s.revisions.find? q = some n → n ≤ s.generation

theorem tidy_empty : Tidy {} := ⟨List.Pairwise.nil, fun _ => rfl, fun _ _ h => by cases h⟩

/-- No two sources have the same revision. -/
def Apart (s : BreakpointSet) : Prop :=
  ∀ q q' n, s.revisions.find? q = some n → s.revisions.find? q' = some n → (q == q') = true

theorem apart_empty : Apart {} := fun _ _ _ h => nomatch h

section Replace

variable (s : BreakpointSet) (path : Path) (requested : List RequestedBreakpoint) (next : Int)

theorem stored_replace :
    (s.replace path requested next).2 = number ((s.bySource.find? path).getD []) next requested := by
  simp only [replace]
  split <;> rfl

theorem generation_replace : (s.replace path requested next).1.generation = s.generation + 1 := by
  simp only [replace]
  split <;> rfl

theorem mem_bySource_replace {e : Path × List Breakpoint}
    (he : e ∈ (s.replace path requested next).1.bySource) :
    e ∈ s.bySource ∧ (e.1 == path) = false ∨ e = (path, (s.replace path requested next).2.1) := by
  have hNone : (PathMap.erase s.bySource path).find? path = none := by
    rw [PathMap.find?_erase]
    simp
  rw [stored_replace]
  simp only [replace] at he
  split at he
  · exact .inl (PathMap.mem_erase.mp he)
  · rcases PathMap.mem_insert_of_none hNone he with hEq | he
    · exact .inr hEq
    · exact .inl (PathMap.mem_erase.mp he)

theorem find?_bySource_replace (q : Path) :
    (s.replace path requested next).1.bySource.find? q =
      if path == q then
        if (s.replace path requested next).2.1.isEmpty then none else some (s.replace path requested next).2.1
      else s.bySource.find? q := by
  simp only [replace]
  split
  · rw [PathMap.find?_erase]
  · rw [PathMap.find?_insert, PathMap.find?_erase]
    split <;> rfl

theorem find?_revisions_replace (q : Path) :
    (s.replace path requested next).1.revisions.find? q =
      if path == q then if (s.replace path requested next).2.1.isEmpty then none else some (s.generation + 1)
      else s.revisions.find? q := by
  simp only [replace]
  split
  · rw [PathMap.find?_erase]
  · rw [PathMap.find?_insert]

end Replace

variable {s : BreakpointSet}

theorem Tidy.replace (hTidy : s.Tidy) (path : Path) (requested : List RequestedBreakpoint) (next : Int) :
    (s.replace path requested next).1.Tidy where
  distinct := by
    have hErase := hTidy.distinct.erase path
    simp only [BreakpointSet.replace]
    split
    · exact hErase
    · refine hErase.insert _ ?_
      rw [PathMap.find?_erase]
      simp
  keyed q := by
    rw [find?_bySource_replace, find?_revisions_replace]
    split
    · split <;> rfl
    · exact hTidy.keyed q
  dated q n hRevision := by
    rw [find?_revisions_replace] at hRevision
    rw [generation_replace]
    split at hRevision
    · split at hRevision
      · cases hRevision
      · cases hRevision
        exact Nat.le_refl _
    · exact Nat.le_succ_of_le (hTidy.dated q n hRevision)

theorem Apart.replace (hApart : s.Apart) (hTidy : s.Tidy) (path : Path) (requested : List RequestedBreakpoint)
    (next : Int) : (s.replace path requested next).1.Apart := by
  -- What was set has a revision above all others.
  have hOf : ∀ q n, (s.replace path requested next).1.revisions.find? q = some n →
      (path == q) = true ∧ n = s.generation + 1 ∨ s.revisions.find? q = some n ∧ n ≤ s.generation := by
    intro q n hRevision
    rw [find?_revisions_replace] at hRevision
    split at hRevision
    · next hKey =>
      split at hRevision
      · cases hRevision
      · cases hRevision
        exact .inl ⟨hKey, rfl⟩
    · exact .inr ⟨hRevision, hTidy.dated q n hRevision⟩
  intro q q' n hRevision hRevision'
  rcases hOf q n hRevision with ⟨hKey, rfl⟩ | ⟨hOld, hBelow⟩
  · rcases hOf q' _ hRevision' with ⟨hKey', -⟩ | ⟨-, hBelow'⟩
    · exact BEq.trans (BEq.symm hKey) hKey'
    · omega
  · rcases hOf q' n hRevision' with ⟨-, rfl⟩ | ⟨hOld', -⟩
    · omega
    · exact hApart q q' n hOld hOld'

/-- A source that still has a revision it had before was not the one that was set. -/
theorem find?_replace_of_old {path q : Path} {requested : List RequestedBreakpoint} {next : Int} {n : Nat}
    (hOld : n ≤ s.generation) (hRevision : (s.replace path requested next).1.revisions.find? q = some n) :
    (path == q) = false ∧ s.revisions.find? q = some n ∧
      (s.replace path requested next).1.bySource.find? q = s.bySource.find? q := by
  rw [find?_revisions_replace] at hRevision
  rw [find?_bySource_replace]
  split at hRevision
  · split at hRevision
    · cases hRevision
    · cases hRevision
      omega
  · rename_i hOther
    rw [if_neg hOther]
    exact ⟨by simpa using hOther, hRevision, rfl⟩

end BreakpointSet
end JvmDebug
