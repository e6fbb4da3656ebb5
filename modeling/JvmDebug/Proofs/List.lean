/-!
# Lists

Lists in which nothing stands twice, what is picked from a list item by item, and lists with one more item at the end.
-/

namespace JvmDebug
set_option autoImplicit false

/-- A list with one more item is cut before that item, or before one that was there already. -/
theorem snoc_eq_cut {α : Type} {l before after : List α} {a b : α} :
    l ++ [a] = before ++ b :: after ↔ before = l ∧ b = a ∧ after = [] ∨ ∃ rest, after = rest ++ [a] ∧ l = before ++ b :: rest := by
  constructor
  · intro h
    rcases List.eq_nil_or_concat after with rfl | ⟨rest, c, rfl⟩
    · obtain ⟨hBefore, hHere⟩ := List.append_inj' h rfl
      exact .inl ⟨hBefore.symm, (List.cons.inj hHere).1.symm, rfl⟩
    · rw [List.concat_eq_append, ← List.cons_append, ← List.append_assoc] at h
      obtain ⟨hBefore, hHere⟩ := List.append_inj' h rfl
      exact .inr ⟨rest, by rw [List.concat_eq_append, (List.cons.inj hHere).1], hBefore⟩
  · rintro (⟨rfl, rfl, rfl⟩ | ⟨rest, rfl, rfl⟩)
    · rfl
    · simp

/-- What is left after each next item was compared with the best so far is in the list, and as good as every item. -/
theorem foldl_best {α : Type} {pick : α → α → α} (R : α → α → Prop) (hRefl : ∀ a, R a a)
    (hTrans : ∀ a b c, R a b → R b c → R a c) (hPick : ∀ a b, pick a b = a ∧ R b a ∨ pick a b = b ∧ R a b)
    (l : List α) (a : α) : l.foldl pick a ∈ a :: l ∧ ∀ x ∈ a :: l, R x (l.foldl pick a) := by
  induction l generalizing a with
  | nil => simpa using hRefl a
  | cons b rest ih =>
    obtain ⟨hMem, hBest⟩ := ih (pick a b)
    have hHead := hBest _ List.mem_cons_self
    rw [List.foldl_cons]
    rcases hPick a b with ⟨hFirst, hR⟩ | ⟨hSecond, hR⟩
    · rw [hFirst] at hMem hBest hHead ⊢
      refine ⟨by grind, fun x hx => ?_⟩
      rcases List.mem_cons.mp hx with rfl | hx
      · exact hHead
      · rcases List.mem_cons.mp hx with rfl | hx
        · exact hTrans _ _ _ hR hHead
        · exact hBest x (List.mem_cons_of_mem _ hx)
    · rw [hSecond] at hMem hBest hHead ⊢
      refine ⟨List.mem_cons_of_mem _ hMem, fun x hx => ?_⟩
      rcases List.mem_cons.mp hx with rfl | hx
      · exact hTrans _ _ _ hR hHead
      · exact hBest x hx

/-- What is left of a list when a part of it is taken out by keys that stand in it once. -/
theorem perm_filter_of_append {α κ : Type} [DecidableEq κ] {taken left all : List α} (key : α → κ)
    (hPerm : (taken ++ left).Perm all) (hOnce : (all.map key).Nodup) :
    left.Perm (all.filter fun x => key x ∉ taken.map key) := by
  have hKeys : ((taken ++ left).map key).Nodup := (hPerm.map key).nodup_iff.mpr hOnce
  rw [List.map_append, List.nodup_append] at hKeys
  have hFilter := hPerm.filter fun x => decide (key x ∉ taken.map key)
  rw [List.filter_append] at hFilter
  have hTaken : taken.filter (fun x => decide (key x ∉ taken.map key)) = [] := by
    rw [List.filter_eq_nil_iff]
    intro x hx
    simpa using ⟨x, hx, rfl⟩
  have hLeft : left.filter (fun x => decide (key x ∉ taken.map key)) = left := by
    rw [List.filter_eq_self]
    intro x hx
    have hx' : key x ∈ left.map key := List.mem_map_of_mem hx
    simpa using fun y hy hEq => hKeys.2.2 (key y) (List.mem_map_of_mem hy) (key x) hx' hEq
  rwa [hTaken, hLeft, List.nil_append] at hFilter

/-- Where nothing stands twice, each item comes from one place. -/
theorem eq_of_mem_flatMap {α β : Type} {f : α → List β} {l : List α} (hOnce : (l.flatMap f).Nodup) {x y : α} {b : β}
    (hx : x ∈ l) (hy : y ∈ l) (hbx : b ∈ f x) (hby : b ∈ f y) : x = y := by
  induction l with
  | nil => cases hx
  | cons z rest ih =>
    rw [List.flatMap_cons, List.nodup_append] at hOnce
    obtain ⟨-, hRest, hApart⟩ := hOnce
    rcases List.mem_cons.mp hx with hxz | hx
    · rcases List.mem_cons.mp hy with hyz | hy
      · rw [hxz, hyz]
      · exact absurd rfl (hApart b (hxz ▸ hbx) b (List.mem_flatMap.mpr ⟨y, hy, hby⟩))
    · rcases List.mem_cons.mp hy with hyz | hy
      · exact absurd rfl (hApart b (hyz ▸ hby) b (List.mem_flatMap.mpr ⟨x, hx, hbx⟩))
      · exact ih hRest hx hy

/-- Parts that have nothing in common make up a list in which nothing stands twice exactly if nothing stands twice in any
of them, and none of them is taken twice. -/
theorem nodup_flatMap_iff_count {α β : Type} [DecidableEq α] {f : α → List β}
    (hApart : ∀ a b, ∀ x ∈ f a, x ∈ f b → a = b) (l : List α) :
    (l.flatMap f).Nodup ↔ ∀ a ∈ l, f a ≠ [] → (f a).Nodup ∧ l.count a ≤ 1 := by
  induction l with
  | nil => simp
  | cons a rest ih =>
    rw [List.flatMap_cons, List.nodup_append, ih]
    constructor
    · rintro ⟨hFirst, hRest, hDisjoint⟩ b hb hSome
      by_cases hEq : a = b
      · subst hEq
        obtain ⟨x, hx⟩ := List.exists_mem_of_ne_nil _ hSome
        have hNone : rest.count a = 0 := List.count_eq_zero.mpr fun ha =>
          hDisjoint x hx x (List.mem_flatMap.mpr ⟨a, ha, hx⟩) rfl
        rw [List.count_cons_self]
        exact ⟨hFirst, by omega⟩
      · rw [List.count_cons_of_ne hEq]
        exact hRest b ((List.mem_cons.mp hb).resolve_left fun hSame => hEq hSame.symm) hSome
    · intro hAll
      refine ⟨?_, fun b hb hSome => ?_, ?_⟩
      · by_cases hSome : f a = []
        · rw [hSome]
          exact List.nodup_nil
        · exact (hAll a List.mem_cons_self hSome).1
      · obtain ⟨hEach, hCount⟩ := hAll b (List.mem_cons_of_mem _ hb) hSome
        exact ⟨hEach, Nat.le_trans List.count_le_count_cons hCount⟩
      · rintro x hx y hy rfl
        obtain ⟨b, hb, hy⟩ := List.mem_flatMap.mp hy
        obtain rfl := hApart a b x hx hy
        have hTwice := (hAll a List.mem_cons_self (List.ne_nil_of_mem hx)).2
        rw [List.count_cons_self] at hTwice
        have hMore := List.count_pos_iff.mpr hb
        omega

end JvmDebug
