import JvmDebug.Text.Blank
import Mathlib.Data.List.TakeWhile

/-!
# Pieces of texts

What is left of a text without the blanks at its ends, and the pieces between separators.
-/

namespace JvmDebug
set_option autoImplicit false

/-! ## Blanks at the ends -/

section Trimming

variable {blanks cs : List Char}

theorem trimmed_blanks_append (h : ∀ c ∈ blanks, isBlank c = true) : trimmed (blanks ++ cs) = trimmed cs := by
  rw [trimmed, trimmed, List.dropWhile_append_of_pos h]

theorem trimmed_append_blanks (h : ∀ c ∈ blanks, isBlank c = true) : trimmed (cs ++ blanks) = trimmed cs := by
  rw [trimmed, trimmed, List.dropWhile_append]
  split
  · next hEmpty =>
    rw [List.isEmpty_iff.mp hEmpty, List.dropWhile_eq_nil_iff.mpr h]
  · rw [List.reverse_append, List.dropWhile_append_of_pos fun c hc => h c (List.mem_reverse.mp hc)]

/-- A text is what is left of it between blanks. -/
theorem exists_blanks_around (cs : List Char) : ∃ left right, cs = left ++ trimmed cs ++ right ∧
    (∀ c ∈ left, isBlank c = true) ∧ ∀ c ∈ right, isBlank c = true := by
  refine ⟨cs.takeWhile isBlank, ((cs.dropWhile isBlank).reverse.takeWhile isBlank).reverse, ?_, ?_, ?_⟩
  · have hEnd := List.takeWhile_append_dropWhile (p := isBlank) (l := (cs.dropWhile isBlank).reverse)
    rw [List.append_assoc, trimmed, ← List.reverse_append, hEnd, List.reverse_reverse, List.takeWhile_append_dropWhile]
  · exact fun c hc => List.mem_takeWhile_imp hc
  · exact fun c hc => List.mem_takeWhile_imp (List.mem_reverse.mp hc)

end Trimming

/-! ## Pieces -/

section Pieces

variable {p : Char → Bool} {cs : List Char}

theorem splitBy_of_whole (h : ∀ c ∈ cs, p c = false) : splitBy p cs = [cs] := by
  induction cs with
  | nil => rfl
  | cons c rest ih =>
    rw [splitBy, ih fun d hd => h d (by simp [hd]), h c (by simp)]
    rfl

theorem splitBy_append_separator {c : Char} (hc : p c = true) (before behind : List Char) :
    splitBy p (before ++ c :: behind) = splitBy p before ++ splitBy p behind := by
  induction before with
  | nil => simp [splitBy, hc]
  | cons d rest ih =>
    obtain ⟨piece, pieces, hPieces⟩ := List.exists_cons_of_ne_nil (splitBy_ne_nil p rest)
    rw [hPieces, List.cons_append] at ih
    rw [List.cons_append, splitBy, splitBy, ih, hPieces]
    split <;> rfl

/-- What stands in front of the first piece goes to that piece. -/
theorem splitBy_prepend {front piece : List Char} {pieces : List (List Char)} (h : ∀ c ∈ front, p c = false)
    (hPieces : splitBy p cs = piece :: pieces) : splitBy p (front ++ cs) = (front ++ piece) :: pieces := by
  induction front with
  | nil => exact hPieces
  | cons c rest ih =>
    rw [List.cons_append, splitBy, ih fun d hd => h d (by simp [hd]), h c (by simp)]
    rfl

/-- What stands behind the last piece goes to that piece. -/
theorem exists_last_piece {behind : List Char} (h : ∀ c ∈ behind, p c = false) (cs : List Char) :
    ∃ pieces last, splitBy p cs = pieces ++ [last] ∧ splitBy p (cs ++ behind) = pieces ++ [last ++ behind] := by
  induction cs with
  | nil => exact ⟨[], [], rfl, splitBy_of_whole h⟩
  | cons c rest ih =>
    obtain ⟨pieces, last, hRest, hBehind⟩ := ih
    by_cases hc : p c = true
    · refine ⟨[] :: pieces, last, ?_, ?_⟩ <;> simp [splitBy, hc, hRest, hBehind]
    · cases pieces with
      | nil => refine ⟨[], c :: last, ?_, ?_⟩ <;> simp [splitBy, hc, hRest, hBehind]
      | cons piece pieces => refine ⟨(c :: piece) :: pieces, last, ?_, ?_⟩ <;> simp [splitBy, hc, hRest, hBehind]

/-- The first piece is the whole text, or a separator comes behind it. -/
theorem takeWhile_ne (d : Char) (cs : List Char) : d ∉ cs.takeWhile (· ≠ d) ∧
    (cs = cs.takeWhile (· ≠ d) ∨ ∃ rest, cs = cs.takeWhile (· ≠ d) ++ d :: rest) := by
  refine ⟨fun h => by simpa using List.mem_takeWhile_imp h, ?_⟩
  induction cs with
  | nil => exact .inl rfl
  | cons c cs ih =>
    rw [List.takeWhile_cons]
    split
    · exact ih.imp (congrArg (c :: ·)) fun ⟨rest, hRest⟩ => ⟨rest, congrArg (c :: ·) hRest⟩
    · next hSeparator =>
      obtain rfl : c = d := by simpa using hSeparator
      exact .inr ⟨cs, rfl⟩

/-- Behind a separator nothing belongs to the first piece. -/
theorem takeWhile_ne_append (d : Char) (front rest : List Char) :
    (front ++ d :: rest).takeWhile (· ≠ d) = front.takeWhile (· ≠ d) := by
  rw [List.takeWhile_append]
  split
  · next hWhole => simpa using ((List.takeWhile_prefix _).eq_of_length hWhole).symm
  · rfl

/-- Blanks around a text do not matter to its trimmed pieces, if no blank separates them. -/
theorem trimmed_pieces (h : ∀ c, isBlank c = true → p c = false) (cs : List Char) :
    (splitBy p (trimmed cs)).map trimmed = (splitBy p cs).map trimmed := by
  obtain ⟨left, right, hText, hLeft, hRight⟩ := exists_blanks_around cs
  obtain ⟨pieces, last, hPieces, hBehind⟩ := exists_last_piece (fun c hc => h c (hRight c hc)) (left ++ trimmed cs)
  obtain ⟨piece, rest, hFirst⟩ := List.exists_cons_of_ne_nil (splitBy_ne_nil p (trimmed cs))
  have hFront := splitBy_prepend (fun c hc => h c (hLeft c hc)) hFirst
  calc (splitBy p (trimmed cs)).map trimmed
    _ = (splitBy p (left ++ trimmed cs)).map trimmed := by
      rw [hFirst, hFront, List.map_cons, List.map_cons, trimmed_blanks_append hLeft]
    _ = (splitBy p (left ++ trimmed cs ++ right)).map trimmed := by
      rw [hPieces, hBehind, List.map_append, List.map_append, List.map_singleton, List.map_singleton,
        trimmed_append_blanks hRight]
    _ = (splitBy p cs).map trimmed := by rw [← hText]

end Pieces

end JvmDebug
