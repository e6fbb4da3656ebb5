import JvmDebug.Path
import JvmDebug.Proofs.Text.Pieces

/-!
# Paths, and maps with paths as keys

Paths are equal if their components are. `find?` after `insert` and `erase`, and what these two do to the entries of a
map in which no key stands twice.

The components of a text are those of its pieces. The path below a base has the components that come behind those of the
base, in whatever spelling, so that the base joined with it is the path again.
-/

namespace JvmDebug
set_option autoImplicit false

/-! ## Maps with paths as keys -/

namespace Path

theorem beq_iff {p q : Path} : (p == q) = true ↔ p.components = q.components := by
  change (p.components == q.components) = true ↔ p.components = q.components
  exact beq_iff_eq

instance : EquivBEq Path where
  rfl := beq_iff.mpr rfl
  symm h := beq_iff.mpr (beq_iff.mp h).symm
  trans h h' := beq_iff.mpr ((beq_iff.mp h).trans (beq_iff.mp h'))

end Path

namespace PathMap

variable {α : Type} {m : PathMap α} {p q : Path} {a : α}

theorem find?_cons (e : Path × α) (m : PathMap α) (q : Path) :
    find? (e :: m) q = if e.1 == q then some e.2 else find? m q := by
  simp only [find?, List.find?_cons]
  cases e.1 == q <;> rfl

@[simp] theorem find?_nil (q : Path) : find? ([] : PathMap α) q = none := rfl

theorem find?_congr (m : PathMap α) (hKey : (p == q) = true) : find? m p = find? m q := by
  induction m with
  | nil => rfl
  | cons e m ih => rw [find?_cons, find?_cons, ih, BEq.congr_right hKey]

theorem find?_insert (p : Path) (a : α) (m : PathMap α) (q : Path) :
    find? (insert p a m) q = if p == q then some a else find? m q := by
  induction m with
  | nil => simp [insert, find?_cons]
  | cons e m ih =>
    rw [insert]
    split
    · rename_i hKey
      rw [find?_cons, find?_cons, ← BEq.congr_left hKey]
      cases e.1 == q <;> rfl
    · rename_i hKey
      split
      · rw [find?_cons]
      · rw [find?_cons, find?_cons, ih]
        by_cases hq : (p == q) = true
        · have hOther : (e.1 == q) = false := by
            rw [← BEq.congr_right hq]
            simpa using hKey
          simp [hq, hOther]
        · simp [hq]

theorem find?_erase (m : PathMap α) (p q : Path) : find? (erase m p) q = if p == q then none else find? m q := by
  induction m with
  | nil => simp [erase]
  | cons e m ih =>
    by_cases hKey : (e.1 == p) = true
    · have hErase : erase (e :: m) p = erase m p := by simp [erase, hKey]
      rw [hErase, ih, find?_cons, ← BEq.congr_left hKey]
      cases e.1 == q <;> rfl
    · have hErase : erase (e :: m) p = e :: erase m p := by simp [erase, hKey]
      rw [hErase, find?_cons, find?_cons, ih]
      by_cases hq : (p == q) = true
      · have hOther : (e.1 == q) = false := by
          rw [← BEq.congr_right hq]
          simpa using hKey
        simp [hq, hOther]
      · simp [hq]

theorem mem_erase {e : Path × α} : e ∈ erase m p ↔ e ∈ m ∧ (e.1 == p) = false := by
  simp [erase, List.mem_filter]

def Distinct (m : PathMap α) : Prop := m.Pairwise fun d e => (d.1 == e.1) = false

theorem Distinct.erase (hDistinct : Distinct m) (p : Path) : Distinct (erase m p) := List.Pairwise.filter _ hDistinct

theorem find?_eq_none : find? m q = none ↔ ∀ e ∈ m, (e.1 == q) = false := by
  simp [find?]

theorem erase_eq_self (hFind : find? m q = none) : erase m q = m := by
  rw [erase, List.filter_eq_self]
  intro e he
  rw [find?_eq_none.mp hFind e he]
  rfl

theorem exists_mem_of_find? (hFind : find? m q = some a) : ∃ p, (p == q) = true ∧ (p, a) ∈ m := by
  obtain ⟨e, hEntry, rfl⟩ := Option.map_eq_some_iff.mp hFind
  exact ⟨e.1, by simpa using List.find?_some hEntry, List.mem_of_find?_eq_some hEntry⟩

theorem isSome_find? : (find? m q).isSome ↔ ∃ e ∈ m, (e.1 == q) = true := by
  rw [Option.isSome_iff_ne_none, ne_eq, find?_eq_none]
  simp

theorem Distinct.eq_of_mem (hDistinct : Distinct m) {d e : Path × α} (hd : d ∈ m) (he : e ∈ m)
    (hKey : (d.1 == e.1) = true) : d = e := by
  induction m with
  | nil => cases hd
  | cons x m ih =>
    obtain ⟨hHead, hTail⟩ := List.pairwise_cons.mp hDistinct
    rcases List.mem_cons.mp hd with hFirst | hd
    · rcases List.mem_cons.mp he with hSecond | he
      · rw [hFirst, hSecond]
      · rw [hFirst, hHead e he] at hKey
        cases hKey
    · rcases List.mem_cons.mp he with hSecond | he
      · rw [hSecond, BEq.comm, hHead d hd] at hKey
        cases hKey
      · exact ih hTail hd he

theorem Distinct.find? (hDistinct : Distinct m) (hMem : (p, a) ∈ m) : PathMap.find? m p = some a := by
  induction m with
  | nil => cases hMem
  | cons e m ih =>
    obtain ⟨hHead, hTail⟩ := List.pairwise_cons.mp hDistinct
    rw [find?_cons]
    rcases List.mem_cons.mp hMem with rfl | hMem
    · simp
    · rw [hHead _ hMem]
      exact ih hTail hMem

theorem insert_perm (a : α) (hFind : find? m p = none) : (insert p a m).Perm ((p, a) :: m) := by
  induction m with
  | nil => exact .refl _
  | cons e m ih =>
    have hAll := find?_eq_none.mp hFind
    rw [insert, hAll e List.mem_cons_self]
    simp only [Bool.false_eq_true, if_false]
    split
    · exact .refl _
    · have hTail : find? m p = none := find?_eq_none.mpr fun d hd => hAll d (List.mem_cons_of_mem _ hd)
      exact ((ih hTail).cons e).trans (.swap _ _ _)

theorem mem_insert_of_none {e : Path × α} (hFind : find? m p = none) (he : e ∈ insert p a m) : e = (p, a) ∨ e ∈ m :=
  List.mem_cons.mp ((insert_perm a hFind).subset he)

theorem Distinct.insert (hDistinct : Distinct m) (a : α) (hFind : PathMap.find? m p = none) :
    Distinct (insert p a m) := by
  refine (insert_perm a hFind).symm.pairwise (List.pairwise_cons.mpr ⟨?_, hDistinct⟩) (fun {d e} h => ?_)
  · intro e he
    rw [BEq.comm]
    exact find?_eq_none.mp hFind e he
  · rw [BEq.comm]
    exact h

/-- An entry that is erased, and the others. -/
theorem Distinct.perm_erase (hDistinct : Distinct m) (hFind : PathMap.find? m q = some a) :
    ∃ p, (p == q) = true ∧ m.Perm ((p, a) :: PathMap.erase m q) := by
  induction m with
  | nil => cases hFind
  | cons e m ih =>
    obtain ⟨hHead, hTail⟩ := List.pairwise_cons.mp hDistinct
    rw [find?_cons] at hFind
    by_cases hKey : (e.1 == q) = true
    · rw [if_pos hKey] at hFind
      cases hFind
      refine ⟨e.1, hKey, ?_⟩
      have hErase : PathMap.erase (e :: m) q = m := by
        rw [PathMap.erase, List.filter_cons_of_neg (by simp [hKey]), List.filter_eq_self]
        intro d hd
        rw [← BEq.congr_right hKey, BEq.comm, hHead d hd]
        rfl
      rw [hErase]
    · rw [if_neg hKey] at hFind
      obtain ⟨p, hp, hPerm⟩ := ih hTail hFind
      refine ⟨p, hp, ?_⟩
      have hErase : PathMap.erase (e :: m) q = e :: PathMap.erase m q := by simp [PathMap.erase, hKey]
      rw [hErase]
      exact (hPerm.cons e).trans (.swap _ _ _)

theorem Distinct.perm_erase_of_mem (hDistinct : Distinct m) (hMem : (p, a) ∈ m) :
    m.Perm ((p, a) :: PathMap.erase m p) := by
  obtain ⟨q, hKey, hPerm⟩ := hDistinct.perm_erase (hDistinct.find? hMem)
  have hEntry : (q, a) = (p, a) := hDistinct.eq_of_mem (hPerm.symm.subset List.mem_cons_self) hMem hKey
  rwa [hEntry] at hPerm

theorem Distinct.find?_perm {m' : PathMap α} (hDistinct : Distinct m) (hPerm : m.Perm m') (q : Path) :
    PathMap.find? m q = PathMap.find? m' q := by
  have hDistinct' : Distinct m' := hPerm.pairwise hDistinct fun {d e} h => by rw [BEq.comm]; exact h
  cases hFind : PathMap.find? m q with
  | none =>
    refine (find?_eq_none.mpr fun e he => ?_).symm
    exact find?_eq_none.mp hFind e (hPerm.symm.subset he)
  | some a =>
    obtain ⟨p, hKey, hMem⟩ := exists_mem_of_find? hFind
    rw [← find?_congr m' hKey, hDistinct'.find? (hPerm.subset hMem)]

end PathMap
end JvmDebug

namespace JvmDebug.Path
set_option autoImplicit false

variable {cs rest front piece r : List Char} {c : Component}

/-! ## Bodies -/

theorem bodyComponents_append (front rest : List Char) :
    bodyComponents (front ++ '/' :: rest) = bodyComponents front ++ bodyComponents rest := by
  rw [bodyComponents, splitBy_append_separator rfl, List.filterMap_append]
  rfl

theorem bodyComponents_of_piece (h : '/' ∉ piece) : bodyComponents piece = (bodyComponent? piece).toList := by
  have hWhole : splitBy (· = '/') piece = [piece] := by
    refine splitBy_of_whole fun c hc => decide_eq_false ?_
    rintro rfl
    exact h hc
  rw [bodyComponents, hWhole]
  cases hPiece : bodyComponent? piece <;> simp [hPiece]

@[simp] theorem bodyComponents_nil : bodyComponents [] = [] := rfl

/-- The first piece, and what comes behind it. -/
theorem bodyComponents_front (cs : List Char) : bodyComponents cs =
    (bodyComponent? (cs.takeWhile (· ≠ '/'))).toList ++
      bodyComponents (cs.drop ((cs.takeWhile (· ≠ '/')).length + 1)) := by
  obtain ⟨hNone, hCases⟩ := takeWhile_ne '/' cs
  generalize cs.takeWhile (· ≠ '/') = first at hNone hCases ⊢
  rcases hCases with rfl | ⟨rest, rfl⟩
  · rw [List.drop_of_length_le (Nat.le_succ _), bodyComponents_nil, List.append_nil, bodyComponents_of_piece hNone]
  · rw [bodyComponents_append, bodyComponents_of_piece hNone]
    simp

/-- What comes in front of the last piece, and that piece. -/
theorem bodyComponents_back (cs : List Char) :
    let piece := (cs.reverse.takeWhile (· ≠ '/')).reverse
    let size := if piece.length < cs.length then piece.length + 1 else piece.length
    bodyComponents cs = bodyComponents (cs.take (cs.length - size)) ++ (bodyComponent? piece).toList := by
  obtain ⟨hNone, hCases⟩ := takeWhile_ne '/' cs.reverse
  generalize cs.reverse.takeWhile (· ≠ '/') = last at hNone hCases
  rcases hCases with hAll | ⟨rest, hRest⟩
  · obtain rfl : cs = last.reverse := by rw [← hAll, List.reverse_reverse]
    have hNothing : bodyComponent? [] = none := rfl
    simp [bodyComponents_of_piece, hNone, hNothing]
  · obtain rfl : cs = rest.reverse ++ '/' :: last.reverse := by
      rw [← List.reverse_inj, hRest]
      simp
    have hTake : (rest.reverse ++ '/' :: last.reverse).length - (last.reverse.length + 1) = rest.reverse.length := by
      simp
    have hLess : last.reverse.length < (rest.reverse ++ '/' :: last.reverse).length := by
      rw [List.length_append, List.length_cons]
      omega
    have hPiece : '/' ∉ last.reverse := fun h => hNone (List.mem_reverse.mp h)
    dsimp only
    rw [if_pos hLess, hTake, List.take_left, bodyComponents_append, bodyComponents_of_piece hPiece]

/-! ## Openings -/

/-- A text without an opening begins with a component, if it is not empty. -/
theorem opening_eq_none_iff :
    opening cs = none ↔ cs = [] ∨ (bodyComponent? (cs.takeWhile (· ≠ '/'))).isSome = true := by
  unfold opening
  split
  · simp [bodyComponent?]
  · simp [bodyComponent?]
  · simp [bodyComponent?]
  · next hRoot hHere hHereBody =>
    refine iff_of_true rfl ?_
    cases cs with
    | nil => exact .inl rfl
    | cons c rest =>
      have hPiece : (c :: rest).takeWhile (· ≠ '/') = c :: rest.takeWhile (· ≠ '/') :=
        List.takeWhile_cons_of_pos (decide_eq_true fun hc => hRoot rest (by rw [hc]))
      have hName : c :: rest.takeWhile (· ≠ '/') ≠ ['.'] := by
        intro hDot
        obtain ⟨rfl, hNone⟩ := List.cons.inj hDot
        cases rest with
        | nil => exact hHere rfl
        | cons d rest =>
          have hSlash : d = '/' := by simpa [List.takeWhile_cons] using hNone
          exact hHereBody rest (by rw [hSlash])
      right
      rw [hPiece, bodyComponent?, if_neg (by simpa using hName)]
      split <;> rfl

theorem componentsOf_of_none (h : opening cs = none) : componentsOf cs = bodyComponents cs := by
  rw [componentsOf, h]

/-- Bodies have no root in them, and no `.` that counts. -/
theorem not_mem_bodyComponents (hc : c = .root ∨ c = .here) : c ∉ bodyComponents cs := by
  intro hMem
  obtain ⟨piece, -, hPiece⟩ := List.mem_filterMap.mp hMem
  unfold bodyComponent? at hPiece
  split at hPiece
  · cases hPiece
  · split at hPiece <;> (obtain rfl := Option.some.inj hPiece; simp at hc)

theorem opening_of_body (h : componentsOf cs = bodyComponents rest) : opening cs = none := by
  unfold componentsOf at h
  split at h
  · next d others hOpening =>
    have hKind : d = .root ∨ d = .here := by
      unfold opening at hOpening
      split at hOpening <;> simp at hOpening <;> simp [hOpening]
    exact absurd (h ▸ List.mem_cons_self) (not_mem_bodyComponents hKind)
  · next hNone => exact hNone

/-- A part of a text that has all its components begins as it does. -/
theorem opening_of_prefix (hPrefix : front <+: cs) (hSame : bodyComponents front = bodyComponents cs)
    (h : opening cs = none) : opening front = none := by
  obtain ⟨rest, rfl⟩ := hPrefix
  unfold opening at h ⊢
  split
  · cases h
  · -- The text goes on behind the dot, so that its first piece counts.
    rcases opening_eq_none_iff.mp h with hNil | hFirst
    · cases hNil
    · obtain ⟨c, hc⟩ := Option.isSome_iff_exists.mp hFirst
      rw [bodyComponents_front (['.'] ++ rest), hc] at hSame
      cases hSame
  · cases h
  · rfl

/-! ## Joining -/

theorem componentsOf_append (hSome : cs ≠ []) (rest : List Char) :
    componentsOf (cs ++ '/' :: rest) = componentsOf cs ++ bodyComponents rest := by
  cases hOpening : opening cs with
  | none =>
    have hFirst := (opening_eq_none_iff.mp hOpening).resolve_left hSome
    have hNone : opening (cs ++ '/' :: rest) = none := 
      opening_eq_none_iff.mpr (.inr (takeWhile_ne_append '/' cs rest ▸ hFirst))
    rw [componentsOf_of_none hNone, componentsOf_of_none hOpening, bodyComponents_append]
  | some first =>
    unfold opening at hOpening
    split at hOpening
    · next body => exact congrArg (Component.root :: ·) (bodyComponents_append body rest)
    · exact congrArg (Component.here :: ·) (bodyComponents_append [] rest)
    · next body => exact congrArg (Component.here :: ·) (bodyComponents_append ('/' :: body) rest)
    · cases hOpening

theorem componentsOf_append_slash (front rest : List Char) :
    componentsOf (front ++ '/' :: rest) = componentsOf (front ++ ['/']) ++ bodyComponents rest := by
  by_cases hFront : front = []
  · subst hFront
    rfl
  · rw [componentsOf_append hFront, componentsOf_append hFront, bodyComponents_nil, List.append_nil]

/-- A path that is joined to another adds its components, if it has no opening of its own. -/
theorem components_join {p q : Path} (h : opening q.text.toList = none) :
    (p.join q).components = p.components ++ q.components := by
  have hRelative : ¬q.isAbsolute = true := by
    intro hAbsolute
    obtain ⟨rest, hRest⟩ := List.head?_eq_some_iff.mp (of_decide_eq_true hAbsolute)
    rw [hRest] at h
    cases h
  have hBody : q.components = bodyComponents q.text.toList := componentsOf_of_none h
  unfold join
  rw [if_neg hRelative, hBody]
  unfold components
  split
  · next hEmpty =>
    rw [List.getLast?_eq_none_iff.mp hEmpty]
    exact componentsOf_of_none h
  · next hSlash =>
    obtain ⟨front, hFront⟩ := List.getLast?_eq_some_iff.mp hSlash
    rw [String.toList_append, hFront, List.append_assoc]
    exact componentsOf_append_slash front q.text.toList
  · next last hNotSlash hLast =>
    have hSome : p.text.toList ≠ [] := by
      intro hNone
      simp [hNone] at hLast
    have hText : (p.text ++ "/" ++ q.text).toList = p.text.toList ++ '/' :: q.text.toList := by simp
    rw [hText, componentsOf_append hSome]

/-! ## Taking components off -/

theorem bodyComponents_dropEmpty (fuel : Nat) (cs : List Char) :
    bodyComponents (dropEmpty fuel cs) = bodyComponents cs := by
  induction fuel generalizing cs with
  | zero => rfl
  | succ fuel ih =>
    rw [dropEmpty]
    split
    · next hEmpty => rw [ih, bodyComponents_front cs, hEmpty.2, Option.toList_none, List.nil_append]
    · rfl

theorem opening_dropEmpty {fuel : Nat} (h : cs.length < fuel) : opening (dropEmpty fuel cs) = none := by
  induction fuel generalizing cs with
  | zero => exact absurd h (Nat.not_lt_zero _)
  | succ fuel ih =>
    rw [dropEmpty]
    split
    · next hEmpty =>
      refine ih ?_
      have hPositive := List.length_pos_iff.mpr hEmpty.1
      rw [List.length_drop]
      omega
    · next hBegun =>
      rw [opening_eq_none_iff, Option.isSome_iff_ne_none]
      exact or_iff_not_imp_left.mpr fun hSome hEmpty => hBegun ⟨hSome, hEmpty⟩

/-- The first `kept` characters stay, and the components of what comes behind them. -/
theorem dropEmptyEnd_spec (kept fuel : Nat) (cs : List Char) :
    ∃ body, dropEmptyEnd kept fuel cs = cs.take kept ++ body ∧ body <+: cs.drop kept ∧
      bodyComponents body = bodyComponents (cs.drop kept) := by
  have hAll : ∃ body, cs = cs.take kept ++ body ∧ body <+: cs.drop kept ∧
      bodyComponents body = bodyComponents (cs.drop kept) :=
    ⟨cs.drop kept, (List.take_append_drop kept cs).symm, List.prefix_rfl, rfl⟩
  induction fuel generalizing cs with
  | zero => exact hAll
  | succ fuel ih =>
    rw [dropEmptyEnd]
    dsimp only
    split
    · exact hAll
    · next hLong =>
      have hBack := bodyComponents_back (cs.drop kept)
      have hPiece : ((cs.drop kept).reverse.takeWhile (· ≠ '/')).reverse.length ≤ (cs.drop kept).length := by
        have hShort := (List.takeWhile_prefix (· ≠ '/') (l := (cs.drop kept).reverse)).length_le
        rwa [List.length_reverse] at hShort ⊢
      generalize ((cs.drop kept).reverse.takeWhile (· ≠ '/')).reverse = piece at hBack hPiece ⊢
      dsimp only at hBack
      generalize hSize : (if piece.length < (cs.drop kept).length then piece.length + 1 else piece.length) = size
        at hBack ⊢
      split
      · next hEmpty =>
        have hFits : size ≤ cs.length - kept := by
          rw [List.length_drop] at hSize hPiece
          split at hSize <;> omega
        obtain ⟨body, hBody, hPrefix, hSame⟩ := ih (cs.take (cs.length - size))
          ⟨_, (List.take_append_drop kept _).symm, List.prefix_rfl, rfl⟩
        have hTake : (cs.take (cs.length - size)).take kept = cs.take kept := by
          rw [List.take_take, Nat.min_eq_left (by omega)]
        have hDrop : (cs.take (cs.length - size)).drop kept = (cs.drop kept).take ((cs.drop kept).length - size) := by
          rw [List.drop_take, List.length_drop]
          congr 1
          omega
        rw [hEmpty, Option.toList_none, List.append_nil] at hBack
        rw [hDrop] at hPrefix hSame
        exact ⟨body, by rw [hBody, hTake], hPrefix.trans (List.take_prefix ..), by rw [hSame, hBack]⟩
      · exact hAll

theorem bodyComponents_of_stripBody? {base : List Component} (h : stripBody? base cs = some rest) :
    bodyComponents cs = base ++ bodyComponents rest := by
  induction base generalizing cs with
  | nil =>
    obtain rfl := Option.some.inj h
    rfl
  | cons c base ih =>
    rw [stripBody?] at h
    split at h
    · next hFirst =>
      rw [← bodyComponents_dropEmpty (cs.length + 1), bodyComponents_front, hFirst.2, ih h]
      rfl
    · cases h

theorem componentsOf_trimBody (cs : List Char) : componentsOf (trimBody cs) = bodyComponents cs := by
  obtain ⟨body, hBody, hPrefix, hSame⟩ := dropEmptyEnd_spec 0 (cs.length + 1) (dropEmpty (cs.length + 1) cs)
  have hNone := opening_of_prefix hPrefix hSame (opening_dropEmpty (Nat.lt_succ_self _))
  rw [trimBody, hBody, List.take_zero, List.nil_append, componentsOf_of_none hNone, hSame, List.drop_zero,
    bodyComponents_dropEmpty]

theorem eq_nil_of_componentsOf (h : componentsOf cs = []) : cs = [] := by
  cases hOpening : opening cs with
  | some first =>
    rw [componentsOf, hOpening] at h
    cases h
  | none =>
    refine (opening_eq_none_iff.mp hOpening).resolve_right fun hFirst => ?_
    obtain ⟨c, hc⟩ := Option.isSome_iff_exists.mp hFirst
    rw [componentsOf_of_none hOpening, bodyComponents_front, hc] at h
    cases h

theorem componentsOf_dropEmptyEnd (fuel : Nat) (cs : List Char) :
    componentsOf (dropEmptyEnd (match opening cs with | some _ => 1 | none => 0) fuel cs) = componentsOf cs := by
  cases hOpening : opening cs with
  | none =>
    obtain ⟨body, hBody, hPrefix, hSame⟩ := dropEmptyEnd_spec 0 fuel cs
    have hNone := opening_of_prefix hPrefix hSame hOpening
    dsimp only
    rw [hBody, List.take_zero, List.nil_append, componentsOf_of_none hNone, hSame, componentsOf_of_none hOpening]
    rfl
  | some first =>
    obtain ⟨body, hBody, hPrefix, hSame⟩ := dropEmptyEnd_spec 1 fuel cs
    dsimp only
    rw [hBody]
    unfold opening at hOpening
    split at hOpening
    · exact congrArg (Component.root :: ·) hSame
    · obtain rfl : body = [] := List.prefix_nil.mp hPrefix
      rfl
    · next rest =>
      cases body with
      | nil => exact congrArg (Component.here :: ·) hSame
      | cons c body =>
        obtain rfl : c = '/' := (List.cons_prefix_cons.mp hPrefix).1
        exact congrArg (Component.here :: ·) hSame
    · cases hOpening

/-- The path below a base has the components that come behind those of the base. -/
theorem below?_spec {p base s : Path} (h : p.below? base = some s) :
    base.components = [] ∧ p.components = s.components ∨
      ∃ body, s.components = bodyComponents body ∧ p.components = base.components ++ bodyComponents body := by
  unfold below? at h
  dsimp only at h
  split at h
  · next hEmpty =>
    obtain rfl := Option.some.inj h
    refine .inl ⟨hEmpty, ?_⟩
    unfold components
    rw [String.toList_ofList]
    exact (componentsOf_dropEmptyEnd _ _).symm
  · next c rest hBase =>
    have hStripped : ∀ {base cs}, (stripBody? base cs).map (fun cs => Path.mk (String.ofList (trimBody cs))) = some s →
        ∃ body, s.components = bodyComponents body ∧ bodyComponents cs = base ++ bodyComponents body := by
      intro base cs hMap
      obtain ⟨body, hStrip, rfl⟩ := Option.map_eq_some_iff.mp hMap
      refine ⟨body, ?_, bodyComponents_of_stripBody? hStrip⟩
      unfold components
      rw [String.toList_ofList, componentsOf_trimBody]
    right
    unfold components at hBase ⊢
    rw [hBase]
    split at h
    · next d body hOpening =>
      split at h
      · next hSame =>
        obtain ⟨rest', hRest, hBody⟩ := hStripped h
        refine ⟨rest', hRest, ?_⟩
        rw [componentsOf, hOpening, hSame]
        exact congrArg (d :: ·) hBody
      · cases h
    · next hOpening =>
      obtain ⟨rest', hRest, hBody⟩ := hStripped h
      exact ⟨rest', hRest, (componentsOf_of_none hOpening).trans hBody⟩

/-- Joined to the base again, in whatever spelling, it is the same path. -/
theorem join_below? {p base s r : Path} (h : p.below? base = some s) (hSame : (r == s) = true) :
    (base.join r == p) = true := by
  rw [beq_iff] at hSame ⊢
  rcases below?_spec h with ⟨hEmpty, hAll⟩ | ⟨body, hBody, hAll⟩
  · have hJoin : base.join r = r := by
      unfold join
      rw [eq_nil_of_componentsOf hEmpty, List.getLast?_nil]
      split <;> rfl
    rw [hJoin, hSame, hAll]
  · rw [components_join (opening_of_body (hSame.trans hBody)), hSame, hBody, hAll]

example : ((Path.mk "/w//app/./a.kt/").below? ⟨"/w/"⟩).map (·.text) = some "app/./a.kt" := by decide +kernel

end JvmDebug.Path
