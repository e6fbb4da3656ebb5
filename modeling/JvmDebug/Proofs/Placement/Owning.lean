import JvmDebug.Proofs.Placement.World

/-!
# The numbers of breakpoints belong to one source

A breakpoint has a number that no breakpoint of another source has, in the book or as it is placed, as long as what is
placed of a source was placed before or is what the book has of it.
-/

namespace JvmDebug.World
set_option autoImplicit false

open Backend (History Interleaved Willing)
open BreakpointSet (Numbered)

variable {answers : Answering Backend History} {w w' : World} {deed : Deed} {q q' : Path} {id : Int}


/-- A source has a breakpoint of this number, in the book or as it is placed. -/
def Owns (w : World) (q : Path) (id : Int) : Prop :=
  (∃ e ∈ w.book.current.bySource, (e.1 == q) = true ∧ id ∈ e.2.map (·.id)) ∨
    ∃ e ∈ w.placer.installed, (e.1 == q) = true ∧ id ∈ e.2.breakpoints.map (·.id)

/-- The breakpoints on record of a source were so before, or are those in the book. -/
def Stems (w : World) (e : Path × Installed) : Prop :=
  (∃ d ∈ w.placer.installed, (d.1 == e.1) = true ∧ d.2.breakpoints = e.2.breakpoints) ∨
    ∃ d ∈ w.book.current.bySource, (d.1 == e.1) = true ∧ d.2 = e.2.breakpoints

/-- The numbers of a source stand once in it and in no other source, and are below the next free one. -/
structure Owned (w : World) : Prop where
  numbered : ∀ e ∈ w.book.current.bySource, Numbered w.book.next e.2
  placed : ∀ e ∈ w.placer.installed, Numbered w.book.next e.2.breakpoints
  apart : ∀ q q' id, Owns w q id → Owns w q' id → (q == q') = true

theorem Owned.below (hOwned : Owned w) (hOwns : Owns w q id) : id < w.book.next := by
  rcases hOwns with ⟨e, he, -, hId⟩ | ⟨e, he, -, hId⟩
  · obtain ⟨b, hb, rfl⟩ := List.mem_map.mp hId
    exact (hOwned.numbered e he).below b hb
  · obtain ⟨b, hb, rfl⟩ := List.mem_map.mp hId
    exact (hOwned.placed e he).below b hb

theorem Owned.earlier (hOwned : Owned w) (path : Path) :
    Numbered w.book.next ((w.book.current.bySource.find? path).getD []) := by
  cases hFind : w.book.current.bySource.find? path with
  | none => exact ⟨List.nodup_nil, by simp⟩
  | some breakpoints =>
    obtain ⟨p, -, hMem⟩ := PathMap.exists_mem_of_find? hFind
    exact hOwned.numbered _ hMem

theorem Does.next_le (hDoes : Does answers w deed w') (hOwned : Owned w) :
    w.book.next ≤ w'.book.next := by
  rcases hDoes.book with hBook | ⟨source, requested, -, hBook⟩
  · exact Int.le_of_eq (by rw [hBook])
  · have hNext := (BreakpointSet.number_numbered _ _ requested (hOwned.earlier source.path)).1
    rw [← BreakpointSet.stored_replace] at hNext
    rw [hBook]
    exact hNext

theorem Does.owns (hDoes : Does answers w deed w') (hStems : ∀ e ∈ w'.placer.installed, Stems w e) (hOwned : Owned w)
    (hOwns : Owns w' q id) : Owns w q id ∨
      w.book.next ≤ id ∧ ∃ source requested, deed = .set source requested ∧ (source.path == q) = true := by
  rcases hOwns with ⟨e, he, hKey, hId⟩ | ⟨e, he, hKey, hId⟩
  · rcases hDoes.book with hBook | ⟨source, requested, hDeed, hBook⟩
    · rw [hBook] at he
      exact .inl (.inl ⟨e, he, hKey, hId⟩)
    · rw [hBook] at he
      rcases BreakpointSet.mem_bySource_replace _ _ _ _ he with ⟨he, -⟩ | rfl
      · exact .inl (.inl ⟨e, he, hKey, hId⟩)
      · rw [BreakpointSet.stored_replace] at hId
        obtain ⟨-, -, hFrom⟩ := BreakpointSet.number_numbered _ _ requested (hOwned.earlier source.path)
        rcases hFrom id hId with hOld | hNew
        · cases hFind : w.book.current.bySource.find? source.path with
          | none => simp [hFind] at hOld
          | some breakpoints =>
            obtain ⟨p, hSource, hMem⟩ := PathMap.exists_mem_of_find? hFind
            rw [hFind] at hOld
            exact .inl (.inl ⟨_, hMem, BEq.trans hSource hKey, hOld⟩)
        · exact .inr ⟨hNew, source, requested, hDeed, hKey⟩
  · rcases hStems e he with ⟨d, hd, hSame, hBreakpoints⟩ | ⟨d, hd, hSame, hBreakpoints⟩
    · rw [← hBreakpoints] at hId
      exact .inl (.inr ⟨d, hd, BEq.trans hSame hKey, hId⟩)
    · rw [← hBreakpoints] at hId
      exact .inl (.inl ⟨d, hd, BEq.trans hSame hKey, hId⟩)

theorem Owned.stemming (hOwned : Owned w) (hStems : ∀ e ∈ w'.placer.installed, Stems w e)
    (hDoes : Does answers w deed w') : Owned w' := by
  have hNext := hDoes.next_le hOwned
  refine ⟨fun e he => ?_, fun e he => ?_, fun q q' id hOwns hOwns' => ?_⟩
  · rcases hDoes.book with hBook | ⟨source, requested, hDeed, hBook⟩
    · rw [hBook] at he ⊢
      exact hOwned.numbered e he
    · have hEarlier := hOwned.earlier source.path
      have hMem := he
      rw [hBook] at hMem
      rcases BreakpointSet.mem_bySource_replace _ _ _ _ hMem with ⟨hMem, -⟩ | rfl
      · exact (hOwned.numbered e hMem).later hNext
      · have hStored := (BreakpointSet.number_numbered _ _ requested hEarlier).2.1
        rw [← BreakpointSet.stored_replace] at hStored
        rw [hBook]
        exact hStored
  · rcases hStems e he with ⟨d, hd, -, hBreakpoints⟩ | ⟨d, hd, -, hBreakpoints⟩
    · rw [← hBreakpoints]
      exact (hOwned.placed d hd).later hNext
    · rw [← hBreakpoints]
      exact (hOwned.numbered d hd).later hNext
  · rcases hDoes.owns hStems hOwned hOwns with hOld | ⟨hNew, source, requested, rfl, hKey⟩
    · rcases hDoes.owns hStems hOwned hOwns' with hOld' | ⟨hNew', -⟩
      · exact hOwned.apart q q' id hOld hOld'
      · have hBelow := hOwned.below hOld
        omega
    · rcases hDoes.owns hStems hOwned hOwns' with hOld' | ⟨-, source', requested', hEq, hKey'⟩
      · have hBelow := hOwned.below hOld'
        omega
      · cases hEq
        exact BEq.trans (BEq.symm hKey) hKey'

theorem owned_new (index : SourceIndex) (root : Path) : Owned (new index root) := by
  refine ⟨fun e he => (by cases he), fun e he => (by cases he), fun q q' id hOwns => ?_⟩
  rcases hOwns with ⟨e, he, -⟩ | ⟨e, he, -⟩ <;> cases he

end JvmDebug.World
