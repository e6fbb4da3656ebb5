import JvmDebug.Dap.Framing
import JvmDebug.Proofs.Text.Lines
import Mathlib.Data.List.Count
import Mathlib.Data.List.TakeWhile

/-!
# Frames delimit themselves

A frame is a message behind its header lines. What is read at the front of a stream of frames is the first message, no
more and no less of the stream, whatever stands in it; and a frame of which the end is missing is never taken for one.
-/

namespace JvmDebug

namespace Dap.Framing
set_option autoImplicit false

/-! Reading on -/

/-- What is read of some bytes from a point between two lines. -/
def goOn (ended : Bool) (length : Option Nat) (inHeaders : Bool) (bytes : Bytes) : Front :=
  readHeaders ended (bytes.length + 1) length inHeaders bytes

/-- One turn of the reading of header lines, which goes on with `next`. -/
def turn (ended : Bool) (length : Option Nat) (inHeaders : Bool) (line : Bytes) (rest : Bytes)
    (next : Option Nat → Bool → Front) : Front :=
  if !Line.isTerminated line && !ended then .incomplete
  else if line.isEmpty then
    if inHeaders then .failed endedInHeaders else .ended
  else
    match Utf8.decode line with
    | .error why => .failed (notText why)
    | .ok text =>
      if text = "\r\n" || text = "\n" then
        if inHeaders then readBody ended length rest else next length false
      else
        match lengthHeader text with
        | none => next length true
        | some (.ok n) => next (some n) true
        | some (.error why) => .failed why

theorem readHeaders_succ (ended : Bool) (fuel : Nat) (length : Option Nat) (inHeaders : Bool) (bytes : Bytes) :
    readHeaders ended (fuel + 1) length inHeaders bytes =
      turn ended length inHeaders (Line.split bytes).1 (Line.split bytes).2
        fun length inHeaders => readHeaders ended fuel length inHeaders (Line.split bytes).2 := rfl

theorem turn_congr {ended : Bool} {length : Option Nat} {inHeaders : Bool} {line rest : Bytes}
    {next next' : Option Nat → Bool → Front} (h : line ≠ [] → ∀ length inHeaders, next length inHeaders = next' length inHeaders) :
    turn ended length inHeaders line rest next = turn ended length inHeaders line rest next' := by
  by_cases hEmpty : line = []
  · simp [turn, hEmpty]
  · simp only [turn, h hEmpty]

theorem length_rest_lt {bytes : Bytes} (h : (Line.split bytes).1 ≠ []) :
    (Line.split bytes).2.length < bytes.length := by
  have hBytes := congrArg List.length (Line.split_append bytes)
  have hLine := List.length_pos_iff.mpr h
  rw [List.length_append] at hBytes
  omega

/-- Fuel for each byte is enough. -/
theorem readHeaders_fuel {ended : Bool} {bytes : Bytes} {f g : Nat} (hf : bytes.length < f) (hg : bytes.length < g)
    (length : Option Nat) (inHeaders : Bool) :
    readHeaders ended f length inHeaders bytes = readHeaders ended g length inHeaders bytes := by
  induction f generalizing bytes g length inHeaders with
  | zero => omega
  | succ f ih =>
    obtain ⟨g, rfl⟩ := Nat.exists_eq_succ_of_ne_zero (Nat.ne_zero_of_lt hg)
    rw [readHeaders_succ, Nat.succ_eq_add_one, readHeaders_succ]
    refine turn_congr fun hLine length inHeaders => ?_
    have hLess := length_rest_lt hLine
    exact ih (by omega) (by omega) length inHeaders

theorem goOn_eq (ended : Bool) (length : Option Nat) (inHeaders : Bool) (bytes : Bytes) :
    goOn ended length inHeaders bytes =
      turn ended length inHeaders (Line.split bytes).1 (Line.split bytes).2
        fun length inHeaders => goOn ended length inHeaders (Line.split bytes).2 := by
  rw [goOn, readHeaders_succ]
  exact turn_congr fun hLine length inHeaders =>
    readHeaders_fuel (length_rest_lt hLine) (Nat.lt_succ_self _) length inHeaders

theorem read_eq (ended : Bool) (bytes : Bytes) : read ended bytes = goOn ended none false bytes := rfl

/-- A whole line is read before what follows it. -/
theorem goOn_line {line : Bytes} (hLine : 10 ∉ line) (ended : Bool) (length : Option Nat) (inHeaders : Bool)
    (rest : Bytes) :
    goOn ended length inHeaders (line ++ 10 :: rest) =
      match Utf8.decode (line ++ [10]) with
      | .error why => .failed (notText why)
      | .ok text =>
        if text = "\r\n" || text = "\n" then
          if inHeaders then readBody ended length rest else goOn ended length false rest
        else
          match lengthHeader text with
          | none => goOn ended length true rest
          | some (.ok n) => goOn ended (some n) true rest
          | some (.error why) => .failed why := by
  rw [goOn_eq, Line.split_line hLine, turn, Line.isTerminated_line]
  simp

/-- What ends inside a line is no message. -/
theorem goOn_unended {bytes : Bytes} (hOpen : 10 ∉ bytes) (length : Option Nat) (inHeaders : Bool) :
    goOn false length inHeaders bytes = .incomplete ∧
      (goOn true length inHeaders bytes = .ended ∧ bytes = [] ∧ inHeaders = false ∨
        ∃ why, goOn true length inHeaders bytes = .failed why) := by
  have hNothing : ∀ length, goOn true length true [] = .failed endedInHeaders := fun _ => rfl
  refine ⟨?_, ?_⟩
  · rw [goOn_eq, Line.split_unended hOpen, turn, Line.isTerminated_unended hOpen]
    rfl
  · by_cases hEmpty : bytes = []
    · cases inHeaders
      · exact .inl ⟨hEmpty ▸ rfl, hEmpty, rfl⟩
      · exact .inr ⟨_, hEmpty ▸ hNothing length⟩
    · right
      rw [goOn_eq, Line.split_unended hOpen, turn]
      simp only [Bool.not_true, Bool.and_false, Bool.false_eq_true, if_false, List.isEmpty_iff, if_neg hEmpty]
      split
      · exact ⟨_, rfl⟩
      · next text hText =>
        have hBytes := Utf8.encode_of_decode hText
        have hNoFeed : '\n' ∉ text.toList := fun h => hOpen (hBytes ▸ (Utf8.mem_encode_lineFeed text).mpr h)
        have hNotEmpty : (decide (text = "\r\n") || decide (text = "\n")) = false := by
          rw [Bool.or_eq_false_iff, decide_eq_false_iff_not, decide_eq_false_iff_not]
          exact ⟨fun h => hNoFeed (by simp [h]), fun h => hNoFeed (by simp [h])⟩
        rw [hNotEmpty]
        simp only [Bool.false_eq_true, if_false, hNothing]
        split <;> exact ⟨_, rfl⟩

/-! What follows does not matter -/

/-- The same, with more behind it. -/
def Front.behind (more : Bytes) : Front → Front
  | .message body rest => .message body (rest ++ more)
  | front => front

/-- Whether a result stays what it is if more comes. -/
def Front.IsFinal (ended : Bool) : Front → Prop
  | .incomplete => False
  | .message .. => True
  | .ended | .failed _ => ended = false

theorem readBody_append {ended : Bool} {length : Option Nat} {bytes : Bytes}
    (h : (readBody ended length bytes).IsFinal ended) (ended' : Bool) (more : Bytes) :
    readBody ended' length (bytes ++ more) = (readBody ended length bytes).behind more := by
  cases length with
  | none => rfl
  | some n =>
    rw [readBody] at h ⊢
    rw [readBody]
    split
    · rfl
    · next hSize =>
      rw [if_neg hSize] at h
      by_cases hMissing : bytes.length < n
      · rw [if_pos hMissing] at h
        cases ended
        · cases h
        · cases h
      · have hStill : ¬ (bytes ++ more).length < n := by
          rw [List.length_append]
          omega
        have hEnough := Nat.le_of_not_lt hMissing
        rw [if_neg hMissing, if_neg hStill, List.take_append_of_le_length hEnough,
          List.drop_append_of_le_length hEnough]
        split <;> rfl

theorem goOn_append {ended : Bool} {length : Option Nat} {inHeaders : Bool} {bytes : Bytes}
    (h : (goOn ended length inHeaders bytes).IsFinal ended) (ended' : Bool) (more : Bytes) :
    goOn ended' length inHeaders (bytes ++ more) = (goOn ended length inHeaders bytes).behind more := by
  induction hLength : bytes.length using Nat.strongRecOn generalizing bytes length inHeaders with
  | ind n ih =>
    rcases Line.open_or_line bytes with hOpen | ⟨line, rest, hLine, rfl⟩
    · obtain ⟨hFalse, hTrue⟩ := goOn_unended hOpen length inHeaders
      cases ended
      · rw [hFalse] at h
        cases h
      · rcases hTrue with ⟨hTrue, -⟩ | ⟨why, hTrue⟩ <;> rw [hTrue] at h <;> cases h
    · have hNext : ∀ {length inHeaders}, (goOn ended length inHeaders rest).IsFinal ended →
          goOn ended' length inHeaders (rest ++ more) = (goOn ended length inHeaders rest).behind more := fun hNext =>
        ih rest.length (by simp at hLength; omega) hNext rfl
      rw [goOn_line hLine] at h
      rw [List.append_assoc, List.cons_append, goOn_line hLine ended', goOn_line hLine ended]
      cases hText : Utf8.decode (line ++ [10]) with
      | error why => rfl
      | ok text =>
        rw [hText] at h
        dsimp only at h ⊢
        split
        · next hEmpty =>
          rw [if_pos hEmpty] at h
          cases inHeaders
          · exact hNext h
          · exact readBody_append h ended' more
        · next hEmpty =>
          rw [if_neg hEmpty] at h
          cases hHeader : lengthHeader text with
          | none =>
            rw [hHeader] at h
            exact hNext h
          | some size =>
            rw [hHeader] at h
            cases size with
            | ok n => exact hNext h
            | error why => rfl

/-- A message at the front of a stream is there whatever follows it. -/
theorem read_append {ended : Bool} {bytes rest : Bytes} {body : String} (h : read ended bytes = .message body rest)
    (ended' : Bool) (more : Bytes) : read ended' (bytes ++ more) = .message body (rest ++ more) := by
  have hFinal : (read ended bytes).IsFinal ended := by
    rw [h]
    trivial
  have hMore := goOn_append hFinal ended' more
  rwa [← read_eq, ← read_eq, h] at hMore

/-! Frames -/

inductive Ending where
  | lf
  | crlf
  deriving DecidableEq, Repr

def Ending.text : Ending → String
  | lf => "\n"
  | crlf => "\r\n"

def emptyLines (endings : List Ending) : Bytes := endings.flatMap fun e => Utf8.encode e.text

/-- A header line that says nothing about the length. -/
structure HeaderLine where
  content : String
  ending : Ending
  oneLine : '\n' ∉ content.toList
  notEmpty : ∀ e : Ending, content ++ ending.text ≠ e.text
  noLength : ¬ "Content-Length:".toList <+: trimmed (content ++ ending.text).toList

def HeaderLine.text (h : HeaderLine) : String := h.content ++ h.ending.text

def headerLines (lines : List HeaderLine) : Bytes := lines.flatMap fun h => Utf8.encode h.text

def lengthText (size : Nat) : String := "Content-Length: " ++ toString size

def lengthLine (size : Nat) (ending : Ending) : String := lengthText size ++ ending.text

/-- A message with its header lines, and the empty lines that stand before it. -/
structure Frame where
  body : String
  above : List HeaderLine := []
  below : List HeaderLine := []
  ending : Ending := .crlf
  last : Ending := .crlf
  gap : List Ending := []

namespace Frame

def size (f : Frame) : Nat := (Utf8.encode f.body).length

/-- From the first header line to the end of the message. -/
def bytes (f : Frame) : Bytes :=
  headerLines f.above ++ Utf8.encode (lengthLine f.size f.ending) ++ headerLines f.below ++ Utf8.encode f.last.text ++
    Utf8.encode f.body

/-- A frame without further header lines is what is written for its message. -/
theorem bytes_plain (body : String) : (bytes { body }) = write body := by
  have hHeader : ∀ n : Nat, header n = lengthLine n .crlf ++ Ending.crlf.text := fun n => by
    change "Content-Length: " ++ toString n ++ (Ending.crlf.text ++ Ending.crlf.text) = _
    exact (String.append_assoc ..).symm
  rw [bytes, write, hHeader, Utf8.encode_append]
  simp only [headerLines, List.flatMap_nil, List.nil_append, List.append_nil, size]

end Frame

/-- Frames one behind the other, and the empty lines after the last of them. -/
def stream (frames : List Frame) (last : List Ending) : Bytes :=
  frames.foldr (fun f rest => emptyLines f.gap ++ f.bytes ++ rest) (emptyLines last)

/-- What is read one after the other, and what is left. -/
inductive Reads : Bytes → List String → Bytes → Prop where
  | nil (bytes : Bytes) : Reads bytes [] bytes
  | cons {bytes rest left : Bytes} {body : String} {bodies : List String} : read true bytes = .message body rest →
      Reads rest bodies left → Reads bytes (body :: bodies) left

/-! Texts that are lines -/

theorem trimmed_between (left middle right : List Char) (hLeft : ∀ c ∈ left, isBlank c = true)
    (hRight : ∀ c ∈ right, isBlank c = true) (hFirst : ∀ c ∈ middle.head?, isBlank c = false)
    (hLast : ∀ c ∈ middle.getLast?, isBlank c = false) : trimmed (left ++ middle ++ right) = middle := by
  have hDrop : ∀ {blanks others : List Char}, (∀ c ∈ blanks, isBlank c = true) → (∀ c ∈ others.head?, isBlank c = false) →
      (blanks ++ others).dropWhile isBlank = others := by
    intro blanks others hBlanks hOthers
    rw [List.dropWhile_append, List.dropWhile_eq_nil_iff.mpr hBlanks]
    cases others with
    | nil => rfl
    | cons c others => simp [hOthers c rfl]
  by_cases hEmpty : middle = []
  · subst hEmpty
    have hAll : (left ++ [] ++ right).dropWhile isBlank = [] := List.dropWhile_eq_nil_iff.mpr fun c hc => by
      rcases List.mem_append.mp hc with hc | hc
      · exact hLeft c (by simpa using hc)
      · exact hRight c hc
    rw [trimmed, hAll]
    rfl
  · have hHead : ∀ c ∈ (middle ++ right).head?, isBlank c = false := by
      obtain ⟨c, cs, rfl⟩ := List.exists_cons_of_ne_nil hEmpty
      exact hFirst
    rw [trimmed, List.append_assoc, hDrop hLeft hHead, List.reverse_append,
      hDrop (fun c hc => hRight c (List.mem_reverse.mp hc)) (by simpa using hLast), List.reverse_reverse]

theorem lengthOf?_toDigits {n : Nat} (h : n < UInt64.size) : lengthOf? (Nat.toDigits 10 n) = some n := by
  have hDigits : ∀ c ∈ Nat.toDigits 10 n, c.isDigit = true := fun c hc =>
    Nat.isDigit_of_mem_toDigits (by decide) (by decide) hc
  have hSome : ((Nat.toDigits 10 n).isEmpty || (Nat.toDigits 10 n).any (!·.isDigit)) = false := by
    rw [Bool.or_eq_false_iff, List.isEmpty_eq_false_iff, List.any_eq_false]
    exact ⟨Nat.toDigits_ne_nil, fun c hc => by rw [hDigits c hc]; decide⟩
  have hValue : (Nat.toDigits 10 n).foldl (fun n c => n * 10 + (c.toNat - 48)) 0 = n := by
    have hFold : (fun n c => n * 10 + (c.toNat - 48) : Nat → Char → Nat) = fun n c => 10 * n + (c.toNat - '0'.toNat) := by
      funext n c
      rw [Nat.mul_comm]
      rfl
    rw [hFold]
    exact Nat.ofDigitChars_toDigits (by decide) (by decide)
  rw [lengthOf?]
  · simp only [hSome, hValue, Bool.false_eq_true, if_false, if_pos h]
  · intro rest hEq
    have hPlus := hDigits '+' (hEq ▸ List.mem_cons_self)
    exact absurd hPlus (by decide)

theorem isBlank_of_isDigit {c : Char} (h : c.isDigit = true) : isBlank c = false := by
  have hRange : 48 ≤ c.toNat ∧ c.toNat ≤ 57 := by simpa [Char.isDigit, UInt32.le_iff_toNat_le] using h
  simp only [isBlank, Bool.or_eq_false_iff, Bool.and_eq_false_iff, decide_eq_false_iff_not]
  omega

theorem isBlank_of_mem_ending {e : Ending} {c : Char} (hc : c ∈ e.text.toList) : isBlank c = true := by
  cases e
  · obtain rfl : c = '\n' := by simpa [Ending.text] using hc
    decide
  · have hEither : c = '\r' ∨ c = '\n' := by simpa [Ending.text] using hc
    rcases hEither with rfl | rfl <;> decide

theorem lengthHeader_lengthLine {n : Nat} (h : n < UInt64.size) (e : Ending) :
    lengthHeader (lengthLine n e) = some (.ok n) := by
  have hDigits : ∀ c ∈ Nat.toDigits 10 n, c.isDigit = true := fun c hc =>
    Nat.isDigit_of_mem_toDigits (by decide) (by decide) hc
  have hLast : ∀ front : List Char, ∀ c ∈ (front ++ Nat.toDigits 10 n).getLast?, isBlank c = false := fun front c hc => by
    have hSome : (Nat.toDigits 10 n).getLast?.isSome := by
      rw [List.getLast?_eq_some_getLast Nat.toDigits_ne_nil, Option.isSome_some]
    rw [List.getLast?_append, Option.or_of_isSome hSome] at hc
    exact isBlank_of_isDigit (hDigits c (List.mem_of_getLast? hc))
  have hText : (lengthLine n e).toList = [] ++ ("Content-Length:".toList ++ ' ' :: Nat.toDigits 10 n) ++ e.text.toList := by
    change ("Content-Length: " ++ toString n ++ e.text).toList = _
    generalize e.text = t
    simp
  have hLine : trimmed (lengthLine n e).toList = "Content-Length:".toList ++ ' ' :: Nat.toDigits 10 n := by
    rw [hText]
    refine trimmed_between _ _ _ (by simp) (fun c hc => isBlank_of_mem_ending hc) (fun c hc => ?_) ?_
    · cases hc
      decide
    · have hSplit : "Content-Length:".toList ++ ' ' :: Nat.toDigits 10 n =
          ("Content-Length:".toList ++ [' ']) ++ Nat.toDigits 10 n := by simp
      rw [hSplit]
      exact hLast _
  have hNumber : trimmed (' ' :: Nat.toDigits 10 n) = Nat.toDigits 10 n := by
    have hSpace : ∀ c ∈ [' '], isBlank c = true := fun c hc => by
      rw [List.mem_singleton.mp hc]
      rfl
    have hBetween := trimmed_between [' '] (Nat.toDigits 10 n) [] hSpace (by simp)
      (fun c hc => isBlank_of_isDigit (hDigits c (List.mem_of_mem_head? hc))) (hLast [])
    rwa [List.append_nil] at hBetween
  rw [lengthHeader, hLine, List.isPrefixOf?_eq_some_iff_append_eq.mpr rfl]
  dsimp only
  rw [hNumber, lengthOf?_toDigits h]

/-- A text that ends with a line, and not before, is the first line of the bytes in front of which it stands. -/
theorem exists_line {content : String} (hLine : '\n' ∉ content.toList) (e : Ending) :
    ∃ line, 10 ∉ line ∧ Utf8.encode (content ++ e.text) = line ++ [10] := by
  rw [Utf8.encode_append]
  have hContent : 10 ∉ Utf8.encode content := mt (Utf8.mem_encode_lineFeed content).mp hLine
  cases e
  · exact ⟨Utf8.encode content, hContent, rfl⟩
  · refine ⟨Utf8.encode content ++ [13], ?_, by rw [List.append_assoc]; rfl⟩
    rw [List.mem_append]
    exact not_or.mpr ⟨hContent, by decide⟩

theorem split_text {content : String} (hLine : '\n' ∉ content.toList) (e : Ending) (rest : Bytes) :
    Line.split (Utf8.encode (content ++ e.text) ++ rest) = (Utf8.encode (content ++ e.text), rest) := by
  obtain ⟨line, hNoFeed, hBytes⟩ := exists_line hLine e
  rw [hBytes, List.append_assoc, List.singleton_append, Line.split_line hNoFeed]

theorem goOn_text {content : String} (hLine : '\n' ∉ content.toList) (e : Ending) (ended : Bool) (length : Option Nat)
    (inHeaders : Bool) (rest : Bytes) :
    goOn ended length inHeaders (Utf8.encode (content ++ e.text) ++ rest) =
      if content ++ e.text = "\r\n" || content ++ e.text = "\n" then
        if inHeaders then readBody ended length rest else goOn ended length false rest
      else
        match lengthHeader (content ++ e.text) with
        | none => goOn ended length true rest
        | some (.ok n) => goOn ended (some n) true rest
        | some (.error why) => .failed why := by
  obtain ⟨line, hNoFeed, hBytes⟩ := exists_line hLine e
  rw [hBytes, List.append_assoc, List.singleton_append, goOn_line hNoFeed, ← hBytes, Utf8.decode_encode]

theorem goOn_emptyLine (e : Ending) (ended : Bool) (length : Option Nat) (inHeaders : Bool) (rest : Bytes) :
    goOn ended length inHeaders (Utf8.encode e.text ++ rest) =
      if inHeaders then readBody ended length rest else goOn ended length false rest := by
  have hEmpty : (decide (e.text = "\r\n") || decide (e.text = "\n")) = true := by cases e <;> decide
  have hNoFeed : '\n' ∉ "".toList := by simp
  have hText := goOn_text hNoFeed e ended length inHeaders rest
  rwa [String.empty_append, if_pos hEmpty] at hText

theorem goOn_emptyLines (endings : List Ending) (ended : Bool) (length : Option Nat) (rest : Bytes) :
    goOn ended length false (emptyLines endings ++ rest) = goOn ended length false rest := by
  induction endings with
  | nil => rfl
  | cons e endings ih =>
    rw [emptyLines, List.flatMap_cons, List.append_assoc, goOn_emptyLine, if_neg Bool.false_ne_true]
    exact ih

/-- What is no empty line is none for the reader. -/
theorem not_empty_text {text : String} (h : ∀ e : Ending, text ≠ e.text) :
    (decide (text = "\r\n") || decide (text = "\n")) = false := by
  rw [Bool.or_eq_false_iff, decide_eq_false_iff_not, decide_eq_false_iff_not]
  exact ⟨h .crlf, h .lf⟩

theorem goOn_headerLine (h : HeaderLine) (ended : Bool) (length : Option Nat) (inHeaders : Bool) (rest : Bytes) :
    goOn ended length inHeaders (Utf8.encode h.text ++ rest) = goOn ended length true rest := by
  have hNone : lengthHeader h.text = none := by
    rw [lengthHeader]
    split
    · rfl
    · next rest hPrefix => exact absurd ⟨rest, List.isPrefixOf?_eq_some_iff_append_eq.mp hPrefix⟩ h.noLength
  have hNotEmpty : ∀ e : Ending, h.text ≠ e.text := h.notEmpty
  have hText := goOn_text h.oneLine h.ending ended length inHeaders rest
  rw [← HeaderLine.text, not_empty_text hNotEmpty, hNone] at hText
  exact hText

theorem lengthText_oneLine (n : Nat) : '\n' ∉ (lengthText n).toList := by
  change '\n' ∉ ("Content-Length: " ++ toString n).toList
  rw [String.toList_append, List.mem_append, Nat.toString_eq_ofList_toDigits]
  rintro (hName | hNumber)
  · simp at hName
  · rw [String.toList_ofList] at hNumber
    have hDigit : ('\n').isDigit = true := Nat.isDigit_of_mem_toDigits (by decide) (by decide) hNumber
    exact absurd hDigit (by decide)

theorem lengthLine_notEmpty {n : Nat} (hSize : n < UInt64.size) (e e' : Ending) : lengthLine n e ≠ e'.text := by
  have hNone : lengthHeader e'.text = none := by cases e' <;> rfl
  intro hEq
  have hSome := lengthHeader_lengthLine hSize e
  rw [hEq, hNone] at hSome
  cases hSome

theorem goOn_lengthLine {n : Nat} (hSize : n < UInt64.size) (e : Ending) (ended : Bool) (length : Option Nat)
    (inHeaders : Bool) (rest : Bytes) :
    goOn ended length inHeaders (Utf8.encode (lengthLine n e) ++ rest) = goOn ended (some n) true rest := by
  have hText := goOn_text (lengthText_oneLine n) e ended length inHeaders rest
  rw [← lengthLine, not_empty_text (lengthLine_notEmpty hSize e), lengthHeader_lengthLine hSize] at hText
  exact hText

theorem goOn_headerLines (lines : List HeaderLine) (ended : Bool) (length : Option Nat) (rest : Bytes) :
    goOn ended length true (headerLines lines ++ rest) = goOn ended length true rest := by
  induction lines with
  | nil => rfl
  | cons h lines ih =>
    rw [headerLines, List.flatMap_cons, List.append_assoc, goOn_headerLine]
    exact ih

namespace Frame

/-- The size that a message may have. -/
def Fits (f : Frame) : Prop := f.size ≤ maxMessageSize

instance (f : Frame) : Decidable f.Fits := inferInstanceAs (Decidable (_ ≤ _))

theorem size_lt {f : Frame} (hFits : f.Fits) : f.size < UInt64.size := Nat.lt_of_le_of_lt hFits (by decide)

/-- A frame at the front of a stream is read as its message, and nothing else of the stream is. -/
theorem read_bytes {f : Frame} (hFits : f.Fits) (endings : List Ending) (ended : Bool) (rest : Bytes) :
    read ended (emptyLines endings ++ f.bytes ++ rest) = .message f.body rest := by
  have hSize := size_lt hFits
  have hAbove : goOn ended none false (headerLines f.above ++ (Utf8.encode (lengthLine f.size f.ending) ++
      (headerLines f.below ++ (Utf8.encode f.last.text ++ (Utf8.encode f.body ++ rest))))) =
        goOn ended (some f.size) true (headerLines f.below ++ (Utf8.encode f.last.text ++ (Utf8.encode f.body ++ rest))) := by
    cases f.above with
    | nil => rw [headerLines, List.flatMap_nil, List.nil_append, goOn_lengthLine hSize]
    | cons h lines =>
      rw [headerLines, List.flatMap_cons, List.append_assoc, goOn_headerLine, ← headerLines, goOn_headerLines,
        goOn_lengthLine hSize]
  have hBody : readBody ended (some f.size) (Utf8.encode f.body ++ rest) = .message f.body rest := by
    have hEnough : ¬ (Utf8.encode f.body ++ rest).length < f.size := by
      rw [List.length_append, size]
      omega
    rw [readBody, if_neg (Nat.not_lt.mpr hFits), if_neg hEnough, size, List.take_left, List.drop_left,
      Utf8.decode_encode]
  rw [read_eq, bytes]
  simp only [List.append_assoc]
  rw [goOn_emptyLines, hAbove, goOn_headerLines, goOn_emptyLine, if_pos rfl, hBody]

end Frame

/-- Nothing is read of empty lines. -/
theorem read_emptyLines (endings : List Ending) : read true (emptyLines endings) = .ended := by
  have hNothing := goOn_emptyLines endings true none []
  rwa [List.append_nil] at hNothing

/-! Cuts -/

theorem readBody_cases (ended : Bool) (length : Option Nat) (bytes : Bytes) :
    (ended = false ∧ readBody ended length bytes = .incomplete) ∨ (∃ why, readBody ended length bytes = .failed why) ∨
      ∃ body rest, readBody ended length bytes = .message body rest := by
  rw [readBody.eq_def]
  split
  · exact .inr (.inl ⟨_, rfl⟩)
  · split
    · exact .inr (.inl ⟨_, rfl⟩)
    · split
      · cases ended
        · exact .inl ⟨rfl, rfl⟩
        · exact .inr (.inl ⟨_, rfl⟩)
      · split
        · exact .inr (.inr ⟨_, _, rfl⟩)
        · exact .inr (.inl ⟨_, rfl⟩)

/-- At the end of a stream there is an error, a message or nothing, and nothing only behind empty lines. -/
theorem goOn_cases (ended : Bool) (length : Option Nat) (inHeaders : Bool) (bytes : Bytes) :
    (ended = false ∧ goOn ended length inHeaders bytes = .incomplete) ∨
      (∃ why, goOn ended length inHeaders bytes = .failed why) ∨
      (∃ body rest, goOn ended length inHeaders bytes = .message body rest) ∨
      (ended = true ∧ goOn ended length inHeaders bytes = .ended ∧ inHeaders = false ∧
        ∃ endings, bytes = emptyLines endings) := by
  induction hLength : bytes.length using Nat.strongRecOn generalizing bytes length inHeaders with
  | ind n ih =>
    rcases Line.open_or_line bytes with hOpen | ⟨line, rest, hLine, rfl⟩
    · obtain ⟨hFalse, hTrue⟩ := goOn_unended hOpen length inHeaders
      cases ended
      · exact .inl ⟨rfl, hFalse⟩
      · rcases hTrue with ⟨hEnded, rfl, hOut⟩ | hFailed
        · exact .inr (.inr (.inr ⟨rfl, hEnded, hOut, [], rfl⟩))
        · exact .inr (.inl hFailed)
    · have hNext := fun length inHeaders => ih rest.length (by simp at hLength; omega) length inHeaders rest rfl
      rw [goOn_line hLine]
      split
      · exact .inr (.inl ⟨_, rfl⟩)
      · next text hText =>
        split
        · next hEmpty =>
          split
          · exact (readBody_cases ended length rest).imp_right (Or.imp_right .inl)
          · next hOut =>
            refine (hNext length false).imp_right (Or.imp_right (Or.imp_right ?_))
            rintro ⟨hEnd, hEnded, -, endings, hRest⟩
            obtain ⟨e, rfl⟩ : ∃ e : Ending, text = e.text := by
              rw [Bool.or_eq_true, decide_eq_true_eq, decide_eq_true_eq] at hEmpty
              exact hEmpty.elim (⟨.crlf, ·⟩) (⟨.lf, ·⟩)
            refine ⟨hEnd, hEnded, by simpa using hOut, e :: endings, ?_⟩
            calc line ++ 10 :: rest = (line ++ [10]) ++ rest := by rw [List.append_assoc, List.singleton_append]
              _ = Utf8.encode e.text ++ emptyLines endings := by rw [Utf8.encode_of_decode hText, hRest]
        · split
          · exact (hNext _ true).imp_right (Or.imp_right (Or.imp_right fun h => absurd h.2.2.1 (by decide)))
          · exact (hNext _ true).imp_right (Or.imp_right (Or.imp_right fun h => absurd h.2.2.1 (by decide)))
          · exact .inr (.inl ⟨_, rfl⟩)

namespace Frame

/-- A frame begins with a line that is not empty. -/
theorem split_bytes {f : Frame} (hFits : f.Fits) (more : Bytes) :
    ∃ text rest, Line.split (f.bytes ++ more) = (Utf8.encode text, rest) ∧ ∀ e : Ending, text ≠ e.text := by
  rw [bytes]
  cases f.above with
  | nil =>
    simp only [headerLines, List.flatMap_nil, List.nil_append, List.append_assoc]
    exact ⟨_, _, split_text (lengthText_oneLine f.size) f.ending _, lengthLine_notEmpty (size_lt hFits) f.ending⟩
  | cons h lines =>
    simp only [headerLines, List.flatMap_cons, List.append_assoc]
    exact ⟨_, _, split_text h.oneLine h.ending _, h.notEmpty⟩

/-- A frame does not begin as an empty line does. -/
theorem not_emptyLines {f : Frame} (hFits : f.Fits) {cut : Bytes} (hSome : cut ≠ []) (hCut : cut <+: f.bytes)
    (endings more : List Ending) : emptyLines endings ++ cut ≠ emptyLines more := by
  intro hEq
  induction endings generalizing more with
  | nil =>
    cases more with
    | nil => exact hSome hEq
    | cons e more =>
      obtain ⟨others, hOthers⟩ := hCut
      obtain ⟨text, rest, hSplit, hNotEmpty⟩ := split_bytes hFits []
      have hBegin : f.bytes ++ [] = Utf8.encode ("" ++ e.text) ++ (emptyLines more ++ others) := by
        rw [List.append_nil, ← hOthers, ← List.nil_append cut, String.empty_append, ← List.append_assoc]
        exact congrArg (· ++ others) hEq
      rw [hBegin, split_text (by simp) e] at hSplit
      exact hNotEmpty e (Utf8.encode_injective (Prod.mk.inj hSplit).1).symm
  | cons e endings ih =>
    cases more with
    | nil => cases e <;> cases hEq
    | cons e' more =>
      have hFirst : Utf8.encode e.text ++ (emptyLines endings ++ cut) = Utf8.encode e'.text ++ emptyLines more := by
        rw [← List.append_assoc]
        exact hEq
      obtain rfl : e = e' := by cases e <;> cases e' <;> first | rfl | cases hFirst
      exact ih more (List.append_cancel_left hFirst)

/-- A frame of which the end is missing is an error at the end of a stream. -/
theorem read_cut {f : Frame} (hFits : f.Fits) (endings : List Ending) {k : Nat} (hSome : 0 < k) (hCut : k < f.bytes.length) :
    ∃ why, read true (emptyLines endings ++ f.bytes.take k) = .failed why := by
  rcases goOn_cases true none false (emptyLines endings ++ f.bytes.take k) with ⟨hOpen, -⟩ | hFailed | ⟨body, rest, hRead⟩ |
    ⟨-, -, -, more, hMore⟩
  · cases hOpen
  · exact hFailed
  · -- With the bytes that are missing it would be this message and something more.
    have hWhole := read_append hRead true (f.bytes.drop k)
    have hFrame := read_bytes hFits endings true []
    rw [List.append_nil] at hFrame
    rw [List.append_assoc, List.take_append_drop, hFrame] at hWhole
    have hMissing := (List.append_eq_nil_iff.mp (Front.message.inj hWhole).2.symm).2
    exact absurd (List.drop_eq_nil_iff.mp hMissing) (Nat.not_le.mpr hCut)
  · have hCutSome : f.bytes.take k ≠ [] := by
      rw [Ne, List.take_eq_nil_iff]
      rintro (hZero | hNone)
      · omega
      · rw [hNone] at hCut
        exact Nat.not_lt_zero k hCut
    exact absurd hMore (not_emptyLines hFits hCutSome (List.take_prefix ..) endings more)

end Frame

/-! Streams -/

/-- The messages of frames are read one after the other, each up to its end. -/
theorem reads_frames {done : List Frame} (hFits : ∀ f ∈ done, f.Fits) (more : Bytes) :
    Reads (done.foldr (fun f rest => emptyLines f.gap ++ f.bytes ++ rest) more) (done.map (·.body)) more := by
  induction done with
  | nil => exact .nil more
  | cons f done ih =>
    have hHere := Frame.read_bytes (hFits f List.mem_cons_self) f.gap true
    exact .cons (hHere _) (ih fun g hg => hFits g (List.mem_cons_of_mem _ hg))

theorem foldr_stream (done todo : List Frame) (last : List Ending) :
    stream (done ++ todo) last = done.foldr (fun f rest => emptyLines f.gap ++ f.bytes ++ rest) (stream todo last) :=
  List.foldr_append

/-- Frames in front of other bytes. -/
theorem foldr_frames (done : List Frame) (more : Bytes) :
    done.foldr (fun f rest => emptyLines f.gap ++ f.bytes ++ rest) more = stream done [] ++ more := by
  induction done with
  | nil => rfl
  | cons g done ih =>
    rw [List.foldr_cons, ih]
    exact (List.append_assoc ..).symm

theorem stream_snoc (done : List Frame) (f : Frame) :
    stream (done ++ [f]) [] = stream done [] ++ (emptyLines f.gap ++ f.bytes) := by
  rw [foldr_stream, foldr_frames]
  exact congrArg (stream done [] ++ ·) (List.append_nil _)

/-- How a stream of frames is read to its end, and a stream that is cut inside a frame. -/
structure Delimits (frames : List Frame) (last : List Ending) : Prop where
  /-- Some of the frames are read, and just their bytes. -/
  reads : ∀ done todo, frames = done ++ todo → Reads (stream frames last) (done.map (·.body)) (stream todo last)
  ends : read true (stream [] last) = .ended
  /-- If a stream ends inside a frame, all frames before it are read, and then there is an error. -/
  cut : ∀ done f todo, frames = done ++ f :: todo → ∀ k, 0 < k → k < f.bytes.length →
    ∃ left why, Reads (stream done [] ++ (emptyLines f.gap ++ f.bytes.take k)) (done.map (·.body)) left ∧
      read true left = .failed why

theorem delimits {frames : List Frame} (hFits : ∀ f ∈ frames, f.Fits) (last : List Ending) : Delimits frames last where
  reads done todo hFrames := by
    rw [hFrames, foldr_stream]
    exact reads_frames (fun f hf => hFits f (hFrames ▸ List.mem_append_left _ hf)) _
  ends := read_emptyLines last
  cut done f todo hFrames k hSome hCut := by
    have hHere : f.Fits := hFits f (hFrames ▸ List.mem_append_right _ List.mem_cons_self)
    obtain ⟨why, hFailed⟩ := Frame.read_cut hHere f.gap hSome hCut
    refine ⟨_, why, ?_, hFailed⟩
    rw [← foldr_frames]
    exact reads_frames (fun g hg => hFits g (hFrames ▸ List.mem_append_left _ hg)) _

theorem read_stream {frames : List Frame} (hFits : ∀ f ∈ frames, f.Fits) (last : List Ending) :
    read true (stream frames last) =
      match frames with
      | [] => .ended
      | f :: others => .message f.body (stream others last) := by
  cases frames with
  | nil => exact read_emptyLines last
  | cons f others => exact Frame.read_bytes (hFits f List.mem_cons_self) f.gap true _

variable {frames : List Frame} {last : List Ending} {ended : Bool} {bytes missing : Bytes}

/-- A message that is read while a part of a stream has come is the first of the stream. -/
theorem read_of_prefix (hFits : ∀ f ∈ frames, f.Fits) {rest : Bytes} {body : String}
    (hStream : bytes ++ missing = stream frames last) (hRead : read ended bytes = .message body rest) :
    ∃ f others, frames = f :: others ∧ body = f.body ∧ rest ++ missing = stream others last := by
  have hWhole := read_append hRead true missing
  rw [hStream, read_stream hFits] at hWhole
  cases frames with
  | nil => cases hWhole
  | cons f others =>
    obtain ⟨rfl, hRest⟩ := Front.message.inj hWhole
    exact ⟨f, others, rfl, rfl, hRest.symm⟩

/-- The reading of a stream of frames comes to an end only where the stream does. -/
theorem end_of_prefix (hFits : ∀ f ∈ frames, f.Fits) (hStream : bytes ++ missing = stream frames last)
    (hRead : read ended bytes = .ended ∨ ∃ why, read ended bytes = .failed why) :
    ended = true ∧ (missing = [] → frames = []) := by
  have hEnded : ended = true := by
    cases ended
    · rcases goOn_cases false none false bytes with ⟨-, hOpen⟩ | ⟨why, hFailed⟩ | ⟨body, rest, hMessage⟩ | ⟨hEnd, -⟩
      · rw [read_eq, hOpen] at hRead
        rcases hRead with hRead | ⟨why, hRead⟩ <;> cases hRead
      · have hFinal : (goOn false none false bytes).IsFinal false := by
          rw [hFailed]
          trivial
        have hWhole := goOn_append hFinal true missing
        rw [hFailed, hStream, ← read_eq, read_stream hFits] at hWhole
        cases frames <;> cases hWhole
      · rw [read_eq, hMessage] at hRead
        rcases hRead with hRead | ⟨why, hRead⟩ <;> cases hRead
      · cases hEnd
    · rfl
  refine ⟨hEnded, fun hNone => ?_⟩
  rw [hNone, List.append_nil] at hStream
  rw [hEnded, hStream, read_stream hFits] at hRead
  cases frames with
  | nil => rfl
  | cons f others => rcases hRead with hRead | ⟨why, hRead⟩ <;> cases hRead

end Dap.Framing
end JvmDebug
