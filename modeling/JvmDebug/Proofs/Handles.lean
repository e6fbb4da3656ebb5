import JvmDebug.Handles
import JvmDebug.Proofs.List
import JvmDebug.Proofs.Routine.Scene
import Mathlib.Algebra.Group.Nat.Defs
import Mathlib.Data.List.Find
import Mathlib.Data.List.Nodup

/-!
# The life of handles

Handles are stored one by one and given up again, some or all at a time. Whatever the order, no handle is given out
twice, one that is valid stands for what it was stored for, and one that was given up is never valid again. What handles
tell after some uses is determined by these uses alone: a handle is the number of a store, and is valid as long as its
owner has not been released since.
-/

namespace JvmDebug.Handles
set_option autoImplicit false

variable {ω α : Type} {h h' h'' : Handles ω α} {issued : List (Int × ω × α)} {kind : String} {handle : Int} {owner : ω}
  {value : α} {may may' : ω → Prop}

/-- Nothing happens but that handles of certain owners are given up. -/
structure Sheds (may : ω → Prop) (h h' : Handles ω α) : Prop where
  kind : h'.kind = h.kind
  next : h'.next = h.next
  sublist : h'.entries.Sublist h.entries
  keeps : ∀ e ∈ h.entries, ¬may e.2.1 → e ∈ h'.entries

theorem Sheds.refl (may : ω → Prop) (h : Handles ω α) : h.Sheds may h := ⟨rfl, rfl, .refl _, fun _ he _ => he⟩

theorem Sheds.trans (hFirst : h.Sheds may h') (hSecond : h'.Sheds may h'') : h.Sheds may h'' where
  kind := hSecond.kind.trans hFirst.kind
  next := hSecond.next.trans hFirst.next
  sublist := hSecond.sublist.trans hFirst.sublist
  keeps e he hNot := hSecond.keeps e (hFirst.keeps e he hNot) hNot

theorem Sheds.mono (hMay : ∀ o, may o → may' o) (hSheds : h.Sheds may h') : h.Sheds may' h' :=
  { hSheds with keeps := fun e he hNot => hSheds.keeps e he fun hMayNot => hNot (hMay _ hMayNot) }

section Release

variable [DecidableEq ω]

theorem sheds_release (h : Handles ω α) (owner : ω) : h.Sheds (· = owner) (h.release owner) where
  kind := rfl
  next := rfl
  sublist := List.filter_sublist
  keeps e he hNot := List.mem_filter.mpr ⟨he, by simpa using hNot⟩

theorem mem_ownedBy {n : Int} : n ∈ h.ownedBy owner ↔ ∃ v, (n, owner, v) ∈ h.entries := by
  simp only [ownedBy, List.mem_map, List.mem_filter, decide_eq_true_eq]
  constructor
  · rintro ⟨⟨_, _, v⟩, ⟨he, rfl⟩, rfl⟩
    exact ⟨v, he⟩
  · rintro ⟨v, he⟩
    exact ⟨_, ⟨he, rfl⟩, rfl⟩

theorem ownedBy_release (h : Handles ω α) (owner : ω) : (h.release owner).ownedBy owner = [] := by
  refine List.eq_nil_iff_forall_not_mem.mpr fun n hn => ?_
  obtain ⟨v, he⟩ := mem_ownedBy.mp hn
  simpa using (List.mem_filter.mp he).2

/-- What belongs to an owner stays when another one is released. -/
theorem entries_release_of_ne {other : ω} (hOther : other ≠ owner) :
    (h.release other).entries.filter (·.2.1 = owner) = h.entries.filter (·.2.1 = owner) := by
  rw [release, List.filter_filter]
  refine List.filter_congr fun e _ => ?_
  by_cases hOwner : e.2.1 = owner
  · simp [hOwner, hOther.symm]
  · simp [hOwner]

theorem ownedBy_release_of_ne {other : ω} (hOther : other ≠ owner) : (h.release other).ownedBy owner = h.ownedBy owner := by
  rw [ownedBy, entries_release_of_ne hOther, ownedBy]

/-- To release an owner changes nothing for a handle that does not belong to it. -/
theorem get_release_of_not_owned (hNot : handle ∉ h.ownedBy owner) : (h.release owner).get handle = h.get handle := by
  have hFind : (h.release owner).find? handle = h.find? handle := by
    rw [find?, release, List.find?_filter, find?]
    refine congrArg _ (List.find?_congr fun e he => ?_)
    by_cases hHandle : e.1 = handle
    · have hOwner : e.2.1 ≠ owner := fun hOwner => hNot (mem_ownedBy.mpr ⟨e.2.2, hHandle ▸ hOwner ▸ he⟩)
      simp [hHandle, hOwner]
    · simp [hHandle]
  rw [get, hFind]
  rfl

/-- An owner that has no handles gets none when others are given up. -/
theorem Sheds.ownedBy_eq_nil (hSheds : h.Sheds may h') (hNone : h.ownedBy owner = []) : h'.ownedBy owner = [] := by
  refine List.eq_nil_iff_forall_not_mem.mpr fun n hn => ?_
  obtain ⟨v, he⟩ := mem_ownedBy.mp hn
  have hThere := mem_ownedBy.mpr ⟨v, hSheds.sublist.subset he⟩
  simp [hNone] at hThere

/-! What an owner stored last -/

theorem latest?_store (h : Handles ω α) (owner : ω) (value : α) : (h.store owner value).2.latest? owner = some value := by
  simp [store, latest?]

theorem latest?_store_of_ne {other : ω} (hOther : other ≠ owner) : (h.store other value).2.latest? owner = h.latest? owner := by
  simp [store, latest?, hOther]

theorem latest?_release (h : Handles ω α) (owner : ω) : (h.release owner).latest? owner = none := by
  simp [release, latest?, List.filter_filter]

theorem latest?_release_of_ne {other : ω} (hOther : other ≠ owner) : (h.release other).latest? owner = h.latest? owner := by
  rw [latest?, entries_release_of_ne hOther, latest?]

theorem latest?_releaseAll (h : Handles ω α) (owner : ω) : h.releaseAll.latest? owner = none := rfl

end Release

theorem sheds_releaseAll (h : Handles ω α) : h.Sheds (fun _ => True) h.releaseAll where
  kind := rfl
  next := rfl
  sublist := List.nil_sublist _
  keeps _ _ hNot := absurd trivial hNot

/-- One thing that can happen to handles. -/
inductive Moves (h : Handles ω α) : Handles ω α → Prop where
  | store (owner : ω) (value : α) : Moves h (h.store owner value).2
  | shed {may : ω → Prop} {h' : Handles ω α} : h.Sheds may h' → Moves h h'

theorem added_store (h : Handles ω α) (owner : ω) (value : α) :
    added h.entries (h.store owner value).2.entries = [(h.next, owner, value)] := added_append ..

theorem Sheds.added (hSheds : h.Sheds may h') : added h.entries h'.entries = [] :=
  added_of_length_le hSheds.sublist.length_le

/-- All that was ever stored, oldest first, and the handles as they are now. -/
inductive Chronicle (kind : String) : List (Int × ω × α) → Handles ω α → Prop where
  | fresh : Chronicle kind [] { kind }
  | moves {issued : List (Int × ω × α)} {h h' : Handles ω α} :
      Chronicle kind issued h → h.Moves h' → Chronicle kind (issued ++ added h.entries h'.entries) h'

namespace Chronicle

theorem kind_eq (hChronicle : Chronicle kind issued h) : h.kind = kind := by
  induction hChronicle with
  | fresh => rfl
  | moves _ hMoves ih =>
    cases hMoves with
    | store _ _ => exact ih
    | shed hSheds => exact hSheds.kind.trans ih

/-- Handles count up from 1. -/
theorem ascending (hChronicle : Chronicle kind issued h) :
    (issued.map (·.1)).Pairwise (· < ·) ∧ (∀ e ∈ issued, 1 ≤ e.1 ∧ e.1 < h.next) ∧ 1 ≤ h.next := by
  induction hChronicle with
  | fresh => simp
  | @moves issued h _ _ hMoves ih =>
    obtain ⟨hOrder, hRange, hNext⟩ := ih
    cases hMoves with
    | store owner value =>
      rw [added_store]
      refine ⟨?_, ?_, by simp only [store]; omega⟩
      · rw [List.map_append, List.pairwise_append]
        refine ⟨hOrder, by simp, ?_⟩
        intro a ha b hb
        obtain ⟨e, he, rfl⟩ := List.mem_map.mp ha
        simp only [List.map_cons, List.map_nil, List.mem_singleton] at hb
        exact hb ▸ (hRange e he).2
      · intro e he
        simp only [store]
        rcases List.mem_append.mp he with he | he
        · have := hRange e he
          omega
        · rw [List.mem_singleton.mp he]
          omega
    | shed hSheds =>
      rw [hSheds.added, List.append_nil, hSheds.next]
      exact ⟨hOrder, hRange, hNext⟩

theorem sublist (hChronicle : Chronicle kind issued h) : h.entries.Sublist issued := by
  induction hChronicle with
  | fresh => exact .refl _
  | moves _ hMoves ih =>
    cases hMoves with
    | store owner value =>
      rw [added_store]
      exact ih.append_right _
    | shed hSheds =>
      rw [hSheds.added, List.append_nil]
      exact hSheds.sublist.trans ih

/-- The handles of an owner are told in the order in which they were given out. -/
theorem ownedBy_ascending [DecidableEq ω] (hChronicle : Chronicle kind issued h) (owner : ω) :
    (h.ownedBy owner).Pairwise (· < ·) :=
  hChronicle.ascending.1.sublist ((List.filter_sublist.trans hChronicle.sublist).map _)

theorem nodup (hChronicle : Chronicle kind issued h) : (issued.map (·.1)).Nodup :=
  hChronicle.ascending.1.imp fun hLt => Int.ne_of_lt hLt

theorem unique (hChronicle : Chronicle kind issued h) {e e' : Int × ω × α} (he : e ∈ issued) (he' : e' ∈ issued)
    (hSame : e.1 = e'.1) : e = e' :=
  List.inj_on_of_nodup_map hChronicle.nodup he he' hSame

theorem get_eq_ok_iff (hChronicle : Chronicle kind issued h) :
    h.get handle = .ok value ↔ ∃ o, (handle, o, value) ∈ h.entries := by
  simp only [get, find?]
  cases hFind : h.entries.find? (·.1 == handle) with
  | none =>
    have hNone := List.find?_eq_none.mp hFind
    simp only [Option.map_none, reduceCtorEq, false_iff, not_exists]
    intro o he
    simpa using hNone _ he
  | some e =>
    have hMem := List.mem_of_find?_eq_some hFind
    have hHandle : e.1 = handle := by simpa using List.find?_some hFind
    simp only [Option.map_some, Except.ok.injEq]
    constructor
    · rintro rfl
      exact ⟨e.2.1, hHandle ▸ hMem⟩
    · rintro ⟨o, he⟩
      have hEq := hChronicle.unique (hChronicle.sublist.subset hMem) (hChronicle.sublist.subset he) hHandle
      rw [hEq]

theorem get_eq_error_iff (hChronicle : Chronicle kind issued h) :
    h.get handle = .error (.notFound s!"{kind} {handle}") ↔ ∀ e ∈ h.entries, e.1 ≠ handle := by
  rw [← hChronicle.kind_eq]
  simp only [get, find?]
  cases hFind : h.entries.find? (·.1 == handle) with
  | none => simpa using List.find?_eq_none.mp hFind
  | some e =>
    have hHandle : e.1 = handle := by simpa using List.find?_some hFind
    simp only [Option.map_some, reduceCtorEq, ne_eq, false_iff, not_forall, not_not]
    exact ⟨e, List.mem_of_find?_eq_some hFind, hHandle⟩

theorem get_store (hChronicle : Chronicle kind issued h) (owner : ω) (value : α) :
    (h.store owner value).2.get h.next = .ok value :=
  (hChronicle.moves (.store owner value)).get_eq_ok_iff.mpr ⟨owner, by simp [store]⟩

/-- What has been found is found still when more has been stored. -/
theorem get_store_of_get (hChronicle : Chronicle kind issued h) (owner : ω) (stored : α)
    (hFound : h.get handle = .ok value) : (h.store owner stored).2.get handle = .ok value := by
  obtain ⟨o, hThere⟩ := hChronicle.get_eq_ok_iff.mp hFound
  exact (hChronicle.moves (.store owner stored)).get_eq_ok_iff.mpr ⟨o, by simp [store, hThere]⟩

/-- A handle stands for what it was stored for, or is not found. -/
theorem get_of_issued (hChronicle : Chronicle kind issued h) (hIssued : (handle, owner, value) ∈ issued) :
    h.get handle = if (h.entries.map (·.1)).contains handle then .ok value
      else .error (.notFound s!"{kind} {handle}") := by
  split
  next hThere =>
    obtain ⟨e, he, hHandle⟩ := List.mem_map.mp (List.contains_iff_mem.mp hThere)
    have hEq := hChronicle.unique (hChronicle.sublist.subset he) hIssued hHandle
    exact hChronicle.get_eq_ok_iff.mpr ⟨owner, hEq ▸ he⟩
  next hGone =>
    refine hChronicle.get_eq_error_iff.mpr fun e he hHandle => hGone ?_
    exact List.contains_iff_mem.mpr (List.mem_map.mpr ⟨e, he, hHandle⟩)

theorem get_eq_error_of_released [DecidableEq ω] (hChronicle : Chronicle kind issued h)
    (hIssued : (handle, owner, value) ∈ issued) (hNone : h.ownedBy owner = []) :
    h.get handle = .error (.notFound s!"{kind} {handle}") := by
  refine hChronicle.get_eq_error_iff.mpr fun e he hHandle => ?_
  have hEq := hChronicle.unique (hChronicle.sublist.subset he) hIssued hHandle
  have hOwned : handle ∈ h.ownedBy owner := mem_ownedBy.mpr ⟨value, hEq ▸ he⟩
  simp [hNone] at hOwned

/-- What was given up stays given up. -/
theorem gone_of_gone (hChronicle : Chronicle kind issued h) (hMoves : h.Moves h')
    (hIssued : (handle, owner, value) ∈ issued) (hGone : ∀ e ∈ h.entries, e.1 ≠ handle) :
    ∀ e ∈ h'.entries, e.1 ≠ handle := by
  cases hMoves with
  | store o v =>
    intro e he
    rcases List.mem_append.mp he with he | he
    · exact hGone e he
    · rw [List.mem_singleton.mp he]
      have hBefore := (hChronicle.ascending.2.1 _ hIssued).2
      dsimp only at hBefore ⊢
      omega
  | shed hSheds => exact fun e he => hGone e (hSheds.sublist.subset he)

end Chronicle

/-- Where nothing is given up, the handles that are valid stay so. -/
theorem Sheds.get_iff {issued' : List (Int × ω × α)} (hSheds : h.Sheds (fun _ => False) h')
    (hBefore : Chronicle kind issued h) (hAfter : Chronicle kind issued' h') (n : Int) (v : α) :
    h'.get n = .ok v ↔ h.get n = .ok v := by
  rw [hAfter.get_eq_ok_iff, hBefore.get_eq_ok_iff]
  constructor
  · rintro ⟨o, hThere⟩
    exact ⟨o, hSheds.sublist.subset hThere⟩
  · rintro ⟨o, hThere⟩
    exact ⟨o, hSheds.keeps _ hThere id⟩

/-! ## After any uses -/

/-- One thing that is done to handles. -/
inductive Use (ω α : Type) where
  | store (owner : ω) (value : α)
  | release (owner : ω)
  | releaseAll

namespace Use

def isStore : Use ω α → Bool
  | store .. => true
  | _ => false

/-- To give up the handles of an owner, alone or with all others. -/
def GivesUp (owner : ω) : Use ω α → Prop
  | store .. => False
  | release o => o = owner
  | releaseAll => True

/-- The handles after one use. -/
def on [DecidableEq ω] (h : Handles ω α) : Use ω α → Handles ω α
  | store owner value => (h.store owner value).2
  | release owner => h.release owner
  | releaseAll => h.releaseAll

end Use

section Uses

variable {uses : List (Use ω α)} {u : Use ω α}

/-- How many values have been stored. -/
def stored (uses : List (Use ω α)) : Nat := uses.countP (·.isStore)

/-- The handle is the number of the store of this value, and its owner has not been released since. -/
def StandsFor (uses : List (Use ω α)) (handle : Int) (owner : ω) (value : α) : Prop :=
  ∃ before later, uses = before ++ .store owner value :: later ∧ handle = stored before + 1 ∧
    ∀ u ∈ later, ¬u.GivesUp owner

theorem stored_append (uses uses' : List (Use ω α)) : stored (uses ++ uses') = stored uses + stored uses' :=
  List.countP_append

theorem StandsFor.range (h : StandsFor uses handle owner value) : 1 ≤ handle ∧ handle ≤ stored uses := by
  obtain ⟨before, later, rfl, rfl, -⟩ := h
  rw [stored_append, stored, stored, List.countP_cons_of_pos rfl]
  omega

/-- A handle stands for a value if it did so before and its owner is not released now, or if the value is stored now. -/
theorem standsFor_snoc : StandsFor (uses ++ [u]) handle owner value ↔
    StandsFor uses handle owner value ∧ ¬u.GivesUp owner ∨ u = .store owner value ∧ handle = stored uses + 1 := by
  constructor
  · rintro ⟨before, later, hCut, hHandle, hKept⟩
    rcases snoc_eq_cut.mp hCut with ⟨rfl, hStore, -⟩ | ⟨later, rfl, rfl⟩
    · exact .inr ⟨hStore.symm, hHandle⟩
    · exact .inl ⟨⟨before, later, rfl, hHandle, fun v hv => hKept v (by simp [hv])⟩, hKept u (by simp)⟩
  · rintro (⟨⟨before, later, rfl, hHandle, hKept⟩, hNow⟩ | ⟨rfl, hHandle⟩)
    · have hStill : ∀ v ∈ later ++ [u], ¬v.GivesUp owner :=
        List.forall_mem_append.mpr ⟨hKept, List.forall_mem_singleton.mpr hNow⟩
      exact ⟨before, later ++ [u], by simp, hHandle, hStill⟩
    · exact ⟨uses, [], rfl, hHandle, nofun⟩

variable [DecidableEq ω]

/-- The handles after some uses, with none before them. -/
def after (kind : String) (uses : List (Use ω α)) : Handles ω α := uses.foldl Use.on { kind }

theorem after_snoc (kind : String) (uses : List (Use ω α)) (u : Use ω α) :
    after kind (uses ++ [u]) = u.on (after kind uses) := by
  rw [after, List.foldl_append]
  rfl

theorem Use.moves (h : Handles ω α) (u : Use ω α) : h.Moves (u.on h) := by
  cases u with
  | store owner value => exact .store owner value
  | release owner => exact .shed (h.sheds_release owner)
  | releaseAll => exact .shed h.sheds_releaseAll

theorem exists_chronicle (kind : String) (uses : List (Use ω α)) : ∃ issued, Chronicle kind issued (after kind uses) := by
  induction uses using List.reverseRecOn with
  | nil => exact ⟨[], .fresh⟩
  | append_singleton uses u ih =>
    obtain ⟨issued, hChronicle⟩ := ih
    rw [after_snoc]
    exact ⟨_, hChronicle.moves (u.moves _)⟩

theorem next_after (kind : String) (uses : List (Use ω α)) : (after kind uses).next = stored uses + 1 := by
  induction uses using List.reverseRecOn with
  | nil => rfl
  | append_singleton uses u ih =>
    rw [after_snoc, stored_append]
    cases u with
    | store owner value => simp [Use.on, store, ih, stored, Use.isStore]
    | release owner => simpa [Use.on, release, stored, Use.isStore] using ih
    | releaseAll => simpa [Use.on, releaseAll, stored, Use.isStore] using ih

/-- The handles that are valid are those that stand for something. -/
theorem mem_entries_after (kind : String) :
    (handle, owner, value) ∈ (after kind uses).entries ↔ StandsFor uses handle owner value := by
  induction uses using List.reverseRecOn with
  | nil => simp [after, StandsFor]
  | append_singleton uses u ih =>
    rw [after_snoc, standsFor_snoc, ← ih]
    -- The last use adds an entry under the next number, or takes away those that it gives up.
    cases u with
    | store o v =>
      simp only [Use.on, store, next_after, List.mem_append, List.mem_singleton, Prod.mk.injEq, Use.GivesUp,
        Use.store.injEq, not_false_eq_true, and_true]
      simp [and_comm, eq_comm]
    | release o => simp [Use.on, release, Use.GivesUp, eq_comm (a := o)]
    | releaseAll => simp [Use.on, releaseAll, Use.GivesUp]

/-- What handles tell of all that was ever done to them. -/
structure Recounts (kind : String) (uses : List (Use ω α)) : Prop where
  /-- A handle is the number of its store. -/
  numbered : ∀ before owner value later, uses = before ++ .store owner value :: later →
    ((after kind before).store owner value).1 = stored before + 1
  /-- Numbers of 64 bits with a sign do for fewer than `2 ^ 63` stores. -/
  fits : stored uses < 2 ^ 63 → ∀ handle owner value, StandsFor uses handle owner value →
    ∃ word : Int64, word.toInt = handle
  found : ∀ handle value, (after kind uses).get handle = .ok value ↔ ∃ owner, StandsFor uses handle owner value
  notFound : ∀ handle, (after kind uses).get handle = .error (.notFound s!"{kind} {handle}") ↔
    ∀ owner value, ¬StandsFor uses handle owner value
  neverIssued : ∀ handle, handle < 1 ∨ stored uses < handle →
    (after kind uses).get handle = .error (.notFound s!"{kind} {handle}")
  ascending : ∀ owner, ((after kind uses).ownedBy owner).Pairwise (· < ·)
  owned : ∀ owner handle, handle ∈ (after kind uses).ownedBy owner ↔ ∃ value, StandsFor uses handle owner value
  /-- To release an owner changes nothing for the others. -/
  others : ∀ owner other, owner ≠ other →
    ((after kind uses).release owner).ownedBy other = (after kind uses).ownedBy other ∧
    ∀ handle value, StandsFor uses handle other value →
      ((after kind uses).release owner).get handle = (after kind uses).get handle

theorem recounts (kind : String) (uses : List (Use ω α)) : Recounts kind uses := by
  obtain ⟨issued, hChronicle⟩ := exists_chronicle kind uses
  have hFound : ∀ handle value, (after kind uses).get handle = .ok value ↔ ∃ owner, StandsFor uses handle owner value := by
    intro handle value
    simp only [hChronicle.get_eq_ok_iff, mem_entries_after]
  have hNotFound : ∀ handle, (after kind uses).get handle = .error (.notFound s!"{kind} {handle}") ↔
      ∀ owner value, ¬StandsFor uses handle owner value := by
    intro handle
    simp only [hChronicle.get_eq_error_iff, ← mem_entries_after kind]
    exact ⟨fun hNone owner value he => hNone _ he rfl, fun hNone e he hHandle => hNone e.2.1 e.2.2 (hHandle ▸ he)⟩
  have hOwned : ∀ owner handle, handle ∈ (after kind uses).ownedBy owner ↔ ∃ value, StandsFor uses handle owner value := by
    intro owner handle
    simp only [mem_ownedBy, mem_entries_after]
  refine ⟨?numbered, ?fits, hFound, hNotFound, ?neverIssued, hChronicle.ownedBy_ascending, hOwned, ?others⟩
  case numbered => exact fun before _ _ _ _ => next_after kind before
  case fits =>
    intro hFew handle owner value hStands
    obtain ⟨hLow, hHigh⟩ := hStands.range
    exact ⟨Int64.ofInt handle, Int64.toInt_ofInt_of_le (by omega) (by omega)⟩
  case neverIssued =>
    intro handle hBeyond
    refine (hNotFound handle).mpr fun owner value hStands => ?_
    have hRange := hStands.range
    omega
  case others =>
    intro owner other hOther
    refine ⟨ownedBy_release_of_ne hOther, fun handle value hStands => get_release_of_not_owned fun hMine => ?_⟩
    -- A valid handle belongs to one owner.
    obtain ⟨mine, hMine⟩ := mem_ownedBy.mp hMine
    have hTheirs := (mem_entries_after kind).mpr hStands
    have hSame := hChronicle.unique (hChronicle.sublist.subset hMine) (hChronicle.sublist.subset hTheirs) rfl
    exact hOther (Prod.mk.inj (Prod.mk.inj hSame).2).1

/-- Numbers go on behind handles that were given up. -/
example :
    let h := after "frame" [.store 7 "a", .store 8 "b", .store 7 "c", .release 7, .store 7 "d"]
    h.ownedBy 7 = [4] ∧ h.ownedBy 8 = [2] ∧ h.find? 1 = none ∧ h.find? 4 = some "d" := by
  decide

end Uses

end JvmDebug.Handles
