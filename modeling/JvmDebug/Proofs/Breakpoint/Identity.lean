import JvmDebug.Proofs.Breakpoint.Book
import JvmDebug.Proofs.List
import Mathlib.Data.List.Induction
import Mathlib.Data.List.Nodup

/-!
# What the numbers of breakpoints stand for

Over any run of changes a number stands for one place in one source. When the breakpoints of a source are replaced, as
many numbers are kept at each place as the old and the new list have in common there. The revision of a source tells the
change that set it, so that it tells the breakpoints of the source too.
-/

namespace JvmDebug
set_option autoImplicit false

/-- Where in its source a position is. -/
def Position.spot (p : Position) : UInt32 × Option UInt32 := (p.line, p.column)

namespace BreakpointSet

variable {r : RequestedBreakpoint} {earlier others breakpoints : List Breakpoint} {old : Breakpoint}
  {x : UInt32 × Option UInt32}

/-- The numbers that stand at a place, in their order. -/
def idsAt (x : UInt32 × Option UInt32) (breakpoints : List Breakpoint) : List Int :=
  (breakpoints.filter fun b => b.position.spot = x).map (·.id)

/-- How many breakpoints are asked for at a place. -/
def askedAt (x : UInt32 × Option UInt32) (requested : List RequestedBreakpoint) : Nat :=
  requested.countP fun r => r.position.spot = x

@[simp] theorem idsAt_nil : idsAt x [] = [] := rfl

theorem idsAt_cons (b : Breakpoint) :
    idsAt x (b :: breakpoints) = if b.position.spot = x then b.id :: idsAt x breakpoints else idsAt x breakpoints := by
  simp only [idsAt, List.filter_cons, decide_eq_true_eq]
  split <;> rfl

theorem askedAt_cons (requested : List RequestedBreakpoint) :
    askedAt x (r :: requested) = if r.position.spot = x then askedAt x requested + 1 else askedAt x requested := by
  by_cases h : r.position.spot = x <;> simp [askedAt, h]

theorem takeAt_cons (b : Breakpoint) (rest : List Breakpoint) :
    takeAt r (b :: rest) = if b.position.spot = r.position.spot then some (b, rest)
      else (takeAt r rest).map fun (found, others) => (found, b :: others) := by
  simp only [takeAt, Position.spot, Prod.mk.injEq]

/-- What is taken out stands at the place asked for, in front of all others that stand there. -/
theorem idsAt_of_takeAt (hTaken : takeAt r earlier = some (old, others)) : old.position.spot = r.position.spot ∧
    ∀ x, idsAt x earlier = if r.position.spot = x then old.id :: idsAt x others else idsAt x others := by
  induction earlier generalizing others with
  | nil => cases hTaken
  | cons b rest ih =>
    rw [takeAt_cons] at hTaken
    split at hTaken
    · next hSpot =>
      cases hTaken
      exact ⟨hSpot, fun x => by rw [idsAt_cons, hSpot]⟩
    · next hSpot =>
      obtain ⟨⟨found, others'⟩, hRest, hEq⟩ := Option.map_eq_some_iff.mp hTaken
      cases hEq
      obtain ⟨hOld, hIds⟩ := ih hRest
      refine ⟨hOld, fun x => ?_⟩
      rw [idsAt_cons, idsAt_cons, hIds]
      by_cases hb : b.position.spot = x
      · have hr : r.position.spot ≠ x := fun hr => hSpot (hb.trans hr.symm)
        rw [if_pos hb, if_pos hb, if_neg hr, if_neg hr]
      · rw [if_neg hb, if_neg hb]

theorem idsAt_of_takeAt_none (hNone : takeAt r earlier = none) : idsAt r.position.spot earlier = [] := by
  induction earlier with
  | nil => rfl
  | cons b rest ih =>
    rw [takeAt_cons] at hNone
    split at hNone
    · cases hNone
    · next hSpot =>
      rw [idsAt_cons, if_neg hSpot]
      exact ih (Option.map_eq_none_iff.mp hNone)

/-- At each place the numbers that stood there are given out again, the first of them first, and then new ones. -/
theorem number_kept (earlier : List Breakpoint) (next : Int) (requested : List RequestedBreakpoint)
    (x : UInt32 × Option UInt32) :
    ∃ fresh, idsAt x (number earlier next requested).1 = (idsAt x earlier).take (askedAt x requested) ++ fresh ∧
      ∀ id ∈ fresh, next ≤ id := by
  induction requested generalizing earlier next with
  | nil => exact ⟨[], by simp [number, askedAt], by simp⟩
  | cons r rest ih =>
    rw [number, askedAt_cons]
    cases hTaken : takeAt r earlier with
    | some found =>
      obtain ⟨old, others⟩ := found
      obtain ⟨fresh, hIds, hFresh⟩ := ih others next
      obtain ⟨-, hEarlier⟩ := idsAt_of_takeAt hTaken
      refine ⟨fresh, ?_, hFresh⟩
      dsimp only
      rw [idsAt_cons, hEarlier x, hIds]
      by_cases hSpot : r.position.spot = x
      · rw [if_pos hSpot, if_pos hSpot, if_pos hSpot, List.take_succ_cons, List.cons_append]
      · rw [if_neg hSpot, if_neg hSpot, if_neg hSpot]
    | none =>
      obtain ⟨fresh, hIds, hFresh⟩ := ih earlier (next + 1)
      have hLater : ∀ id ∈ fresh, next ≤ id := fun id hId => by
        have := hFresh id hId
        omega
      dsimp only
      rw [idsAt_cons, hIds]
      by_cases hSpot : r.position.spot = x
      · subst hSpot
        refine ⟨next :: fresh, ?_, List.forall_mem_cons.mpr ⟨Int.le_refl _, hLater⟩⟩
        rw [if_pos rfl, idsAt_of_takeAt_none hTaken, List.take_nil, List.take_nil]
        rfl
      · rw [if_neg hSpot, if_neg hSpot]
        exact ⟨fresh, rfl, hLater⟩

/-- Whatever is asked for is stored, in its order. -/
theorem number_again_of (earlier : List Breakpoint) (next : Int) (requested : List RequestedBreakpoint) :
    (number earlier next requested).1.map again = requested := by
  induction requested generalizing earlier next with
  | nil => rfl
  | cons r rest ih =>
    rw [number]
    split
    · rw [List.map_cons, ih]
      rfl
    · rw [List.map_cons, ih]
      rfl

/-- A stored breakpoint has the number of an earlier one at its place, or a new one. -/
theorem number_origin (earlier : List Breakpoint) (next : Int) (requested : List RequestedBreakpoint) :
    ∀ b ∈ (number earlier next requested).1,
      (∃ old ∈ earlier, old.id = b.id ∧ old.position.spot = b.position.spot) ∨ next ≤ b.id := by
  induction requested generalizing earlier next with
  | nil => simp [number]
  | cons r rest ih =>
    rw [number]
    cases hTaken : takeAt r earlier with
    | some found =>
      obtain ⟨old, others⟩ := found
      have hMem := fun b hb => (takeAt_perm hTaken).symm.subset (a := b) hb
      refine List.forall_mem_cons.mpr ⟨.inl ⟨old, hMem old List.mem_cons_self, rfl, (idsAt_of_takeAt hTaken).1⟩, ?_⟩
      intro b hb
      refine (ih others next b hb).imp_left ?_
      rintro ⟨d, hd, hSame⟩
      exact ⟨d, hMem d (List.mem_cons_of_mem _ hd), hSame⟩
    | none =>
      refine List.forall_mem_cons.mpr ⟨.inr (Int.le_refl _), fun b hb => (ih earlier (next + 1) b hb).imp_right ?_⟩
      intro hNew
      omega

end BreakpointSet

namespace BreakpointBook

open BreakpointSet (Numbered Tidy idsAt askedAt)

/-- The source that is set, and what is asked for. -/
structure Change where
  source : Source
  requested : List RequestedBreakpoint

variable {changes before after : List Change} {c : Change} {b : BreakpointBook}

def stored (b : BreakpointBook) (c : Change) : List Breakpoint := (b.set c.source c.requested).1.2

def apply (b : BreakpointBook) (c : Change) : BreakpointBook := (b.set c.source c.requested).2

/-- The book after some changes. -/
def of (changes : List Change) : BreakpointBook := changes.foldl apply {}

/-- The breakpoints that the client was told of by some changes, each with the path of its source. -/
def told (b : BreakpointBook) : List Change → List (Path × Breakpoint)
  | [] => []
  | c :: rest => (b.stored c).map (c.source.path, ·) ++ told (b.apply c) rest

/-- What a source has in the book. -/
def breakpointsOf (b : BreakpointBook) (path : Path) : List Breakpoint := (b.current.bySource.find? path).getD []

theorem of_snoc : of (changes ++ [c]) = (of changes).apply c := by
  simp [of, List.foldl_append]

theorem told_append (b : BreakpointBook) (before after : List Change) :
    b.told (before ++ after) = b.told before ++ (before.foldl apply b).told after := by
  induction before generalizing b with
  | nil => rfl
  | cons c rest ih => simp [told, ih]

theorem told_snoc : told {} (changes ++ [c]) = told {} changes ++ ((of changes).stored c).map (c.source.path, ·) := by
  simp [told_append, told, of]

section Apply

variable (b : BreakpointBook) (c : Change)

theorem stored_eq : b.stored c = (BreakpointSet.number (b.breakpointsOf c.source.path) b.next c.requested).1 :=
  congrArg Prod.fst (BreakpointSet.stored_replace b.current c.source.path c.requested b.next)

theorem next_apply : (b.apply c).next = (BreakpointSet.number (b.breakpointsOf c.source.path) b.next c.requested).2 :=
  congrArg Prod.snd (BreakpointSet.stored_replace b.current c.source.path c.requested b.next)

theorem generation_apply : (b.apply c).current.generation = b.current.generation + 1 :=
  BreakpointSet.generation_replace ..

theorem stored_isEmpty : (b.stored c).isEmpty = c.requested.isEmpty := by
  rw [← List.isEmpty_map (f := BreakpointSet.again), stored_eq, BreakpointSet.number_again_of]

theorem find?_bySource_apply (q : Path) : (b.apply c).current.bySource.find? q =
    if c.source.path == q then if c.requested.isEmpty then none else some (b.stored c)
    else b.current.bySource.find? q := by
  rw [← stored_isEmpty]
  exact BreakpointSet.find?_bySource_replace ..

theorem find?_revisions_apply (q : Path) : (b.apply c).current.revisions.find? q =
    if c.source.path == q then if c.requested.isEmpty then none else some (b.current.generation + 1)
    else b.current.revisions.find? q := by
  rw [← stored_isEmpty]
  exact BreakpointSet.find?_revisions_replace ..

theorem breakpointsOf_apply : (b.apply c).breakpointsOf c.source.path = b.stored c := by
  rw [breakpointsOf, find?_bySource_apply, if_pos BEq.rfl]
  split
  · next hNone =>
    rw [← stored_isEmpty, List.isEmpty_iff] at hNone
    rw [hNone]
    rfl
  · rfl

end Apply

theorem generation_of (changes : List Change) : (of changes).current.generation = changes.length := by
  induction changes using List.reverseRecOn with
  | nil => rfl
  | append_singleton changes c ih => rw [of_snoc, generation_apply, ih, List.length_append, List.length_singleton]

theorem tidy_of (changes : List Change) : (of changes).current.Tidy := by
  induction changes using List.reverseRecOn with
  | nil => exact BreakpointSet.tidy_empty
  | append_singleton changes c ih =>
    rw [of_snoc]
    exact ih.replace c.source.path c.requested (of changes).next

/-! ## Numbers -/

/-- The client was told of every breakpoint in the book, and no two of those it was told of have the same number unless
they are at one place of one source. -/
structure Numbers (known : List (Path × Breakpoint)) (b : BreakpointBook) : Prop where
  numbered : ∀ e ∈ b.current.bySource, Numbered b.next e.2
  told : ∀ e ∈ b.current.bySource, ∀ x ∈ e.2, ∃ path, (path == e.1) = true ∧ (path, x) ∈ known
  below : ∀ x ∈ known, x.2.id < b.next
  names : ∀ x ∈ known, ∀ y ∈ known, x.2.id = y.2.id → (x.1 == y.1) = true ∧ x.2.position.spot = y.2.position.spot

section Numbers

variable {known : List (Path × Breakpoint)}

theorem Numbers.earlier (h : Numbers known b) (path : Path) : Numbered b.next (b.breakpointsOf path) := by
  rw [breakpointsOf]
  cases hFind : b.current.bySource.find? path with
  | none => exact ⟨List.nodup_nil, by simp⟩
  | some breakpoints =>
    obtain ⟨p, -, hMem⟩ := PathMap.exists_mem_of_find? hFind
    exact h.numbered _ hMem

theorem Numbers.told_of (h : Numbers known b) {path : Path} {x : Breakpoint} (hx : x ∈ b.breakpointsOf path) :
    ∃ p, (p == path) = true ∧ (p, x) ∈ known := by
  rw [breakpointsOf] at hx
  cases hFind : b.current.bySource.find? path with
  | none => simp [hFind] at hx
  | some breakpoints =>
    obtain ⟨p, hKey, hMem⟩ := PathMap.exists_mem_of_find? hFind
    rw [hFind] at hx
    obtain ⟨p', hKey', hTold⟩ := h.told _ hMem x hx
    exact ⟨p', BEq.trans hKey' hKey, hTold⟩

/-- A number that was told before stands for the place that it stood for. -/
theorem Numbers.stored (h : Numbers known b) {x : Breakpoint} (hx : x ∈ b.stored c) {y : Path × Breakpoint}
    (hy : y ∈ known) (hId : y.2.id = x.id) :
    (y.1 == c.source.path) = true ∧ y.2.position.spot = x.position.spot := by
  rw [stored_eq] at hx
  rcases BreakpointSet.number_origin _ _ _ x hx with ⟨old, hOld, hSame, hSpot⟩ | hNew
  · obtain ⟨p, hKey, hTold⟩ := h.told_of hOld
    obtain ⟨hPath, hOldSpot⟩ := h.names y hy _ hTold (hId.trans hSame.symm)
    exact ⟨BEq.trans hPath hKey, hOldSpot.trans hSpot⟩
  · have hBelow := h.below y hy
    omega

theorem Numbers.apply (h : Numbers known b) (c : Change) :
    Numbers (known ++ (b.stored c).map (c.source.path, ·)) (b.apply c) := by
  obtain ⟨hNext, hNumbered, -⟩ := BreakpointSet.number_numbered _ b.next c.requested (h.earlier c.source.path)
  rw [← next_apply] at hNext hNumbered
  rw [← stored_eq] at hNumbered
  have hCases : ∀ e ∈ (b.apply c).current.bySource, e ∈ b.current.bySource ∨ e = (c.source.path, b.stored c) := by
    intro e he
    exact (BreakpointSet.mem_bySource_replace b.current c.source.path c.requested b.next he).imp_left (·.1)
  refine ⟨fun e he => ?_, fun e he x hx => ?_, fun x hx => ?_, fun x hx y hy hId => ?_⟩
  · rcases hCases e he with hOld | rfl
    · exact (h.numbered e hOld).later hNext
    · exact hNumbered
  · rcases hCases e he with hOld | rfl
    · obtain ⟨path, hKey, hTold⟩ := h.told e hOld x hx
      exact ⟨path, hKey, List.mem_append_left _ hTold⟩
    · exact ⟨c.source.path, BEq.rfl, List.mem_append_right _ (List.mem_map_of_mem hx)⟩
  · rcases List.mem_append.mp hx with hx | hx
    · exact Int.lt_of_lt_of_le (h.below x hx) hNext
    · obtain ⟨d, hd, rfl⟩ := List.mem_map.mp hx
      exact hNumbered.below d hd
  · rcases List.mem_append.mp hx with hx | hx <;> rcases List.mem_append.mp hy with hy | hy
    · exact h.names x hx y hy hId
    · obtain ⟨d, hd, rfl⟩ := List.mem_map.mp hy
      exact h.stored hd hx hId
    · obtain ⟨d, hd, rfl⟩ := List.mem_map.mp hx
      obtain ⟨hPath, hSpot⟩ := h.stored hd hy hId.symm
      exact ⟨BEq.symm hPath, hSpot.symm⟩
    · obtain ⟨d, hd, rfl⟩ := List.mem_map.mp hx
      obtain ⟨d', hd', rfl⟩ := List.mem_map.mp hy
      obtain rfl := List.inj_on_of_nodup_map hNumbered.once hd hd' hId
      exact ⟨BEq.rfl, rfl⟩

/-- Sources that are apart have no number in common. -/
theorem Numbers.once (h : Numbers known b) (hTidy : b.current.Tidy) : (b.current.all.map (·.id)).Nodup := by
  rw [BreakpointSet.all, List.map_flatMap, List.nodup_flatMap]
  refine ⟨fun e he => (h.numbered e he).once, hTidy.distinct.imp_of_mem ?_⟩
  intro d e hd he hApart id hId hId'
  obtain ⟨x, hx, rfl⟩ := List.mem_map.mp hId
  obtain ⟨y, hy, hSame⟩ := List.mem_map.mp hId'
  obtain ⟨p, hKey, hTold⟩ := h.told d hd x hx
  obtain ⟨p', hKey', hTold'⟩ := h.told e he y hy
  have hPath := (h.names _ hTold _ hTold' hSame.symm).1
  rw [BEq.trans (BEq.symm hKey) (BEq.trans hPath hKey')] at hApart
  cases hApart

end Numbers

theorem numbers_of (changes : List Change) : Numbers (told {} changes) (of changes) := by
  induction changes using List.reverseRecOn with
  | nil => exact ⟨nofun, nofun, nofun, nofun⟩
  | append_singleton changes c ih =>
    rw [of_snoc, told_snoc]
    exact ih.apply c

/-! ## Revisions -/

/-- The change that set a source last is this one, and it set something. -/
def LastSet (q : Path) (n : Nat) (changes : List Change) : Prop :=
  ∃ before c after, changes = before ++ c :: after ∧ n = before.length + 1 ∧ (c.source.path == q) = true ∧
    c.requested ≠ [] ∧ ∀ d ∈ after, (d.source.path == q) = false

theorem lastSet_snoc {q : Path} {n : Nat} : LastSet q n (changes ++ [c]) ↔
    if c.source.path == q then c.requested ≠ [] ∧ n = changes.length + 1 else LastSet q n changes := by
  constructor
  · rintro ⟨before, d, after, hSplit, rfl, hKey, hSome, hNone⟩
    rcases snoc_eq_cut.mp hSplit with ⟨rfl, rfl, -⟩ | ⟨others, rfl, rfl⟩
    · rw [if_pos hKey]
      exact ⟨hSome, rfl⟩
    · have hLast := hNone c (by simp)
      rw [if_neg (by simp [hLast])]
      exact ⟨before, d, others, rfl, rfl, hKey, hSome, fun x hx => hNone x (by simp [hx])⟩
  · intro h
    split at h
    · next hKey =>
      obtain ⟨hSome, rfl⟩ := h
      exact ⟨changes, c, [], rfl, rfl, hKey, hSome, nofun⟩
    · next hKey =>
      obtain ⟨before, d, after, rfl, rfl, hd, hSome, hNone⟩ := h
      refine ⟨before, d, after ++ [c], by simp, rfl, hd, hSome, fun x hx => ?_⟩
      rcases List.mem_append.mp hx with hx | hx
      · exact hNone x hx
      · rw [List.mem_singleton.mp hx]
        simpa using hKey

theorem revision_iff (q : Path) (n : Nat) (changes : List Change) :
    (of changes).current.revisions.find? q = some n ↔ LastSet q n changes := by
  induction changes using List.reverseRecOn with
  | nil =>
    refine ⟨nofun, ?_⟩
    rintro ⟨before, c, after, hSplit, -⟩
    simp at hSplit
  | append_singleton changes c ih =>
    rw [of_snoc, find?_revisions_apply, lastSet_snoc, generation_of]
    by_cases hKey : (c.source.path == q) = true
    · rw [if_pos hKey, if_pos hKey]
      by_cases hNone : c.requested = []
      · simp [hNone]
      · rw [if_neg (by simpa using hNone), Option.some_inj, and_iff_right hNone]
        exact eq_comm
    · rw [if_neg hKey, if_neg hKey]
      exact ih

/-- As long as a source has a revision, it has the breakpoints with which it got it. -/
theorem breakpoints_of_later {q : Path} {n : Nat} (before after : List Change)
    (hBefore : (of before).current.revisions.find? q = some n)
    (hAfter : (of (before ++ after)).current.revisions.find? q = some n) :
    (of (before ++ after)).current.bySource.find? q = (of before).current.bySource.find? q := by
  induction after using List.reverseRecOn with
  | nil => rw [List.append_nil]
  | append_singleton after c ih =>
    rw [← List.append_assoc, of_snoc] at hAfter ⊢
    have hOld : n ≤ (of (before ++ after)).current.generation := by
      have := (tidy_of before).dated q n hBefore
      rw [generation_of] at this ⊢
      rw [List.length_append]
      omega
    obtain ⟨-, hRevision, hSame⟩ := BreakpointSet.find?_replace_of_old hOld hAfter
    exact hSame.trans (ih hRevision)

/-! ## All of it -/

/-- How one change replaces the breakpoints of a source. -/
structure Replaces (before : List Change) (c : Change) : Prop where
  generation : ((of before).set c.source c.requested).1.1 = (of before).current.generation + 1 ∧
    (of (before ++ [c])).current.generation = (of before).current.generation + 1
  /-- What is asked for is stored, in its order. -/
  stored : ((of before).stored c).map BreakpointSet.again = c.requested ∧
    (of (before ++ [c])).breakpointsOf c.source.path = (of before).stored c
  /-- At each place as many of the old numbers are kept as there are both old and new breakpoints, in their order; the
  client was told of none of the others. -/
  kept : ∀ x, ∃ fresh, idsAt x ((of before).stored c) =
      (idsAt x ((of before).breakpointsOf c.source.path)).take
        (min (idsAt x ((of before).breakpointsOf c.source.path)).length (askedAt x c.requested)) ++ fresh ∧
    ∀ id ∈ fresh, ∀ y ∈ told {} before, y.2.id ≠ id
  others : ∀ q, (c.source.path == q) = false →
    (of (before ++ [c])).current.bySource.find? q = (of before).current.bySource.find? q

theorem replaces (before : List Change) (c : Change) : Replaces before c where
  generation := ⟨BreakpointSet.generation_replace .., by rw [of_snoc, generation_apply]⟩
  stored := by
    refine ⟨by rw [stored_eq, BreakpointSet.number_again_of], ?_⟩
    rw [of_snoc, breakpointsOf_apply]
  kept x := by
    obtain ⟨fresh, hIds, hFresh⟩ := BreakpointSet.number_kept ((of before).breakpointsOf c.source.path) (of before).next
      c.requested x
    refine ⟨fresh, ?_, fun id hId y hy hSame => ?_⟩
    · rw [stored_eq, hIds, Nat.min_comm, ← List.take_take, List.take_length]
    · have hBelow := (numbers_of before).below y hy
      have hNew := hFresh id hId
      omega
  others q hOther := by
    rw [of_snoc, find?_bySource_apply, if_neg (by simp [hOther])]

/-- What numbers, generations and revisions say after some changes. -/
structure Identified (changes : List Change) : Prop where
  /-- Each number stands once in the book, and is below the next free one. -/
  once : ((of changes).current.all.map (·.id)).Nodup
  below : ∀ b ∈ (of changes).current.all, b.id < (of changes).next
  /-- A number that was ever given out stands for one place of one source. -/
  names : ∀ x ∈ told {} changes, ∀ y ∈ told {} changes, x.2.id = y.2.id →
    (x.1 == y.1) = true ∧ x.2.position.spot = y.2.position.spot
  replaces : ∀ before c after, changes = before ++ c :: after → Replaces before c
  generation : (of changes).current.generation = changes.length
  keyed : ∀ q, ((of changes).current.revisions.find? q).isSome = ((of changes).current.bySource.find? q).isSome
  /-- A source has the generation as its revision in which it was set last, if something was set then. -/
  revision : ∀ q n, (of changes).current.revisions.find? q = some n ↔ LastSet q n changes
  /-- At any two moments at which a source has the same revision it has the same breakpoints. -/
  snapshots : ∀ past past', past <+: changes → past' <+: changes → ∀ q n,
    (of past).current.revisions.find? q = some n → (of past').current.revisions.find? q = some n →
    (of past).current.bySource.find? q = (of past').current.bySource.find? q

theorem identified (changes : List Change) : Identified changes where
  once := (numbers_of changes).once (tidy_of changes)
  below b hb := by
    obtain ⟨e, he, hb⟩ := List.mem_flatMap.mp hb
    exact ((numbers_of changes).numbered e he).below b hb
  names := (numbers_of changes).names
  replaces before c _ _ := BreakpointBook.replaces before c
  generation := generation_of changes
  keyed := (tidy_of changes).keyed
  revision q n := revision_iff q n changes
  snapshots past past' hPast hPast' q n hRevision hRevision' := by
    rcases List.prefix_or_prefix_of_prefix hPast hPast' with ⟨since, rfl⟩ | ⟨since, rfl⟩
    · exact (breakpoints_of_later past since hRevision hRevision').symm
    · exact breakpoints_of_later past' since hRevision' hRevision

end BreakpointBook
end JvmDebug
