import JvmDebug.Proofs.Text.Utf8
import JvmDebug.Text.Line
import Mathlib.Data.List.Basic

/-!
# The lines of a stream

Which lines a stream of bytes has does not depend on how it is read. Reading takes the first line off the front, once it
is there as a whole, and stops for good at a line that is no text.
-/

namespace JvmDebug.Line
set_option autoImplicit false

/-! ## The first line -/

theorem split_line {line : Bytes} (hLine : 10 ∉ line) (rest : Bytes) :
    split (line ++ 10 :: rest) = (line ++ [10], rest) := by
  induction line with
  | nil => rfl
  | cons b line ih =>
    have hByte : b ≠ 10 := fun h => hLine (by simp [h])
    have hOthers : 10 ∉ line := fun h => hLine (by simp [h])
    rw [List.cons_append, split, if_neg hByte, ih hOthers]
    rfl

theorem split_unended {bytes : Bytes} (hOpen : 10 ∉ bytes) : split bytes = (bytes, []) := by
  induction bytes with
  | nil => rfl
  | cons b bytes ih =>
    have hByte : b ≠ 10 := fun h => hOpen (by simp [h])
    rw [split, if_neg hByte, ih fun h => hOpen (by simp [h])]

/-- Either no line ends in some bytes, or a first line does. -/
theorem open_or_line (bytes : Bytes) : 10 ∉ bytes ∨ ∃ line rest, 10 ∉ line ∧ bytes = line ++ 10 :: rest := by
  by_cases h : 10 ∈ bytes
  · obtain ⟨line, rest, hBytes, hLine⟩ := List.eq_append_cons_of_mem h
    exact .inr ⟨line, rest, hLine, hBytes⟩
  · exact .inl h

theorem isTerminated_line (line : Bytes) : isTerminated (line ++ [10]) = true := by simp [isTerminated]

theorem isTerminated_unended {bytes : Bytes} (hOpen : 10 ∉ bytes) : isTerminated bytes = false := by
  rw [isTerminated, decide_eq_false_iff_not]
  exact fun h => hOpen (List.mem_of_getLast? h)

/-! ## All lines -/

/-- The lines of a stream, each with what ends it. What follows the last line feed is a line if there is anything. -/
def lines : Bytes → List Bytes
  | [] => []
  | b :: rest =>
    if b = 10 then [b] :: lines rest
    else
      match lines rest with
      | [] => [[b]]
      | line :: others => (b :: line) :: others

def IsWhole (line : Bytes) : Prop := ∃ front, 10 ∉ front ∧ line = front ++ [10]

theorem lines_line {line : Bytes} (hLine : 10 ∉ line) (rest : Bytes) :
    lines (line ++ 10 :: rest) = (line ++ [10]) :: lines rest := by
  induction line with
  | nil => rfl
  | cons b line ih =>
    have hByte : b ≠ 10 := fun h => hLine (by simp [h])
    rw [List.cons_append, lines, if_neg hByte, ih fun h => hLine (by simp [h])]
    rfl

theorem lines_unended {bytes : Bytes} (hOpen : 10 ∉ bytes) (hSome : bytes ≠ []) : lines bytes = [bytes] := by
  induction bytes with
  | nil => exact absurd rfl hSome
  | cons b rest ih =>
    have hByte : b ≠ 10 := fun h => hOpen (by simp [h])
    rw [lines, if_neg hByte]
    cases rest with
    | nil => rfl
    | cons b' rest => rw [ih (fun h => hOpen (by simp [h])) (by simp)]

/-- Whole lines are lines of every stream that they stand in front of. -/
theorem lines_append {taken : List Bytes} (hWhole : ∀ line ∈ taken, IsWhole line) (rest : Bytes) :
    lines (taken.flatten ++ rest) = taken ++ lines rest := by
  induction taken with
  | nil => rfl
  | cons line taken ih =>
    obtain ⟨front, hFront, rfl⟩ := hWhole line (by simp)
    have hTaken := ih fun line h => hWhole line (by simp [h])
    rw [List.flatten_cons, List.append_assoc, List.append_assoc, List.singleton_append, lines_line hFront, hTaken]
    rfl

/-! ## Text -/

def text? (line : Bytes) : Option String := (Utf8.decode (content line)).toOption

/-- A line is text with what ends it if it is without. -/
theorem isOk_content (line : Bytes) : (Utf8.decode (content line)).isOk = (Utf8.decode line).isOk := by
  unfold content
  split
  · next rest hReverse =>
    obtain rfl : line = (rest.reverse ++ [13]) ++ [10] := by simpa using congrArg List.reverse hReverse
    rw [Utf8.decode_isOk_snoc (by decide), Utf8.decode_isOk_snoc (by decide)]
  · next rest _ hReverse =>
    obtain rfl : line = rest.reverse ++ [10] := by simpa using congrArg List.reverse hReverse
    rw [Utf8.decode_isOk_snoc (by decide)]
  · rfl

theorem isSome_text? (line : Bytes) : (text? line).isSome = (Utf8.decode line).isOk := by
  rw [← isOk_content, text?]
  cases Utf8.decode (content line) <;> rfl

theorem text?_eq_some_iff {line : Bytes} {text : String} : text? line = some text ↔ Utf8.encode text = content line := by
  rw [text?]
  constructor
  · intro h
    cases hRead : Utf8.decode (content line) with
    | ok s =>
      rw [hRead] at h
      cases h
      exact Utf8.encode_of_decode hRead
    | error why => simp [hRead, Except.toOption] at h
  · intro h
    rw [← h, Utf8.decode_encode]
    rfl

/-- The texts of the lines before the first that is no text. -/
def readable : List Bytes → List String
  | [] => []
  | line :: others =>
    match text? line with
    | some text => text :: readable others
    | none => []

theorem readable_cons {line : Bytes} {text : String} (h : text? line = some text) (others : List Bytes) :
    readable (line :: others) = text :: readable others := by
  rw [readable, h]

theorem readable_cons_none {line : Bytes} (h : text? line = none) (others : List Bytes) :
    readable (line :: others) = [] := by
  rw [readable, h]

theorem readable_append {taken : List Bytes} {texts : List String} (h : taken.mapM text? = some texts)
    (others : List Bytes) : readable (taken ++ others) = texts ++ readable others := by
  induction taken generalizing texts with
  | nil =>
    cases h
    rfl
  | cons line taken ih =>
    rw [List.mapM_cons] at h
    obtain ⟨text, hText, h⟩ := Option.bind_eq_some_iff.mp h
    obtain ⟨rest, hRest, hTexts⟩ := Option.bind_eq_some_iff.mp h
    cases hTexts
    rw [List.cons_append, readable_cons hText, ih hRest]
    rfl

/-- There is a text for each line exactly if each is text. -/
theorem length_readable_iff (bytes : List Bytes) :
    (readable bytes).length = bytes.length ↔ ∀ line ∈ bytes, (Utf8.decode line).isOk = true := by
  induction bytes with
  | nil => simp [readable]
  | cons line others ih =>
    rw [List.forall_mem_cons, ← isSome_text?, ← ih]
    cases hText : text? line with
    | some text => simp [readable_cons hText]
    | none => simp [readable_cons_none hText]

/-! ## Reading -/

/-- A stream is cut behind its first line, which is there as a whole unless nothing will follow. -/
structure Cut (ended : Bool) (bytes line rest : Bytes) : Prop where
  bytes_eq : bytes = line ++ rest
  lines_eq : lines bytes = line :: lines rest
  whole : ended = false → IsWhole line

def Read (ended : Bool) (bytes : Bytes) : Next → Prop
  | .incomplete => ended = false
  | .line text rest => ∃ line, Cut ended bytes line rest ∧ text? line = some text
  | .ended => bytes = [] ∧ ended = true
  | .invalid _ => ∃ line rest, Cut ended bytes line rest ∧ text? line = none

theorem read_text {ended : Bool} {bytes line rest : Bytes} (hCut : Cut ended bytes line rest) :
    Read ended bytes
      (match Utf8.decode line with
      | .ok _ =>
        match Utf8.decode (content line) with
        | .ok text => .line text rest
        | .error why => .invalid why
      | .error why => .invalid why) := by
  have hContent : ∀ {x}, Utf8.decode (content line) = x → text? line = x.toOption := fun h => by rw [text?, h]
  split
  · split
    · next text hText => exact ⟨line, hCut, hContent hText⟩
    · next why hWhy => exact ⟨line, rest, hCut, hContent hWhy⟩
  · next why hWhy =>
    have hNone : (text? line).isSome = false := by
      rw [isSome_text?, hWhy]
      rfl
    exact ⟨line, rest, hCut, by simpa using hNone⟩

theorem read_next (ended : Bool) (bytes : Bytes) : Read ended bytes (next ended bytes) := by
  unfold next
  rcases open_or_line bytes with hOpen | ⟨front, rest, hFront, rfl⟩
  · rw [split_unended hOpen]
    dsimp only
    rw [isTerminated_unended hOpen]
    cases ended with
    | false => rfl
    | true =>
      by_cases hEmpty : bytes = []
      · subst hEmpty
        exact ⟨rfl, rfl⟩
      · simp only [Bool.not_true, Bool.and_false, Bool.false_eq_true, if_false, List.isEmpty_iff, if_neg hEmpty]
        apply read_text
        exact ⟨(List.append_nil _).symm, lines_unended hOpen hEmpty, nofun⟩
  · rw [split_line hFront]
    dsimp only
    rw [isTerminated_line, Bool.not_true, Bool.false_and, if_neg Bool.false_ne_true, if_neg (by simp)]
    apply read_text
    exact ⟨by simp, lines_line hFront rest, fun _ => ⟨front, hFront, rfl⟩⟩

end JvmDebug.Line
