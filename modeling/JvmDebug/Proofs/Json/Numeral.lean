import JvmDebug.Json.Document
import JvmDebug.Json.Printer
import JvmDebug.Proofs.Decimal.Shortest

/-!
# Numbers in JSON text

What a number that is printed is read as: the digits that were written, and by them the number itself.
-/

namespace JvmDebug
set_option autoImplicit false

/-! What a numeral means -/

namespace Numeral

/-- The number that digits are written for. -/
def number (digits : List Nat) : Nat := digits.foldl (fun n d => n * 10 + d) 0

/-- The power of ten of the last digit. -/
def power (n : Numeral) : Int :=
  (match n.exponent with
    | none => 0
    | some (down, digits) => if down then -(number digits : Int) else number digits) - n.fraction.length

/-- The number that a numeral is written for, to its last digit: a whole number, or the double that is nearest. -/
def exact (n : Numeral) : Json :=
  if n.fraction = [] ∧ n.exponent = none then
    .int (if n.negative then -(number n.whole : Int) else number n.whole)
  else
    .float (.ofRatio n.negative (number (n.whole ++ n.fraction) * 10 ^ n.power.toNat) (10 ^ (-n.power).toNat))

end Numeral

/-! Digits -/

/-- The digits that characters are. -/
def digitsOf (cs : List Char) : List Nat := cs.filterMap Document.digit?

theorem digitsOf_append (cs ds : List Char) : digitsOf (cs ++ ds) = digitsOf cs ++ digitsOf ds := List.filterMap_append

theorem digitsOf_cons {c : Char} (h : c.isDigit = true) (cs : List Char) :
    digitsOf (c :: cs) = (c.toNat - 48) :: digitsOf cs := by
  have hDigit : Document.digit? c = some (c.toNat - 48) := if_pos h
  rw [digitsOf, List.filterMap_cons_some hDigit]
  rfl

theorem length_digitsOf {cs : List Char} (h : ∀ c ∈ cs, c.isDigit = true) : (digitsOf cs).length = cs.length := by
  induction cs with
  | nil => rfl
  | cons c cs ih =>
    rw [digitsOf_cons (h c (by simp)), List.length_cons, List.length_cons, ih fun d hd => h d (by simp [hd])]

theorem number_digitsOf {cs : List Char} (h : ∀ c ∈ cs, c.isDigit = true) :
    Numeral.number (digitsOf cs) = Nat.ofDigitChars 10 cs 0 := by
  rw [Numeral.number]
  generalize 0 = n
  induction cs generalizing n with
  | nil => rfl
  | cons c cs ih =>
    rw [digitsOf_cons (h c (by simp)), List.foldl_cons, Nat.ofDigitChars_cons, ih fun d hd => h d (by simp [hd]),
      Nat.mul_comm n]
    rfl

theorem digits_append {cs rest : List Char} (h : ∀ c ∈ cs, c.isDigit = true) (hRest : ∀ c ∈ rest.head?, c.isDigit = false) :
    Document.digits (cs ++ rest) = (digitsOf cs, rest) := by
  have hEnd : rest.takeWhile (·.isDigit) = [] ∧ rest.dropWhile (·.isDigit) = rest := by
    cases rest with
    | nil => exact ⟨rfl, rfl⟩
    | cons c rest => simp [hRest c rfl]
  rw [Document.digits, List.takeWhile_append_of_pos h, List.dropWhile_append_of_pos h, hEnd.1, hEnd.2, List.append_nil]
  rfl

theorem eq_zero_of_digit {c : Char} (h : c.isDigit = true) (hZero : c.toNat - 48 = 0) : c = '0' := by
  simp only [Char.isDigit, Bool.and_eq_true, decide_eq_true_eq] at h
  have hSame : c.toNat = '0'.toNat := by
    have hLow : 48 ≤ c.toNat := h.1
    change c.toNat = 48
    omega
  exact Char.toNat_inj.mp hSame

/-- The first digit of a positive number is not zero. -/
theorem head_toDigits {n : Nat} (h : 0 < n) : (Nat.toDigits 10 n).head? ≠ some '0' := by
  induction n using Nat.strongRecOn with
  | ind n ih =>
    have hFirst : ∀ d < 10, 0 < d → Nat.digitChar d ≠ '0' := by decide
    rw [Nat.toDigits_eq_if (by decide)]
    split
    · next hOne => simpa using hFirst n hOne h
    · next hMore =>
      have hRest := ih (n / 10) (by omega) (by omega)
      cases hDigits : Nat.toDigits 10 (n / 10) with
      | nil => exact absurd hDigits Nat.toDigits_ne_nil
      | cons c cs =>
        rw [hDigits] at hRest
        exact hRest

/-! Numbers as they are written -/

/-- The text of a number without a sign. -/
structure Written where
  whole : List Char
  fraction : List Char
  exponent : Option (Bool × List Char)
  whole_digits : ∀ c ∈ whole, c.isDigit = true
  whole_ne : whole ≠ []
  whole_plain : whole.head? = some '0' → whole.length = 1
  fraction_digits : ∀ c ∈ fraction, c.isDigit = true
  exponent_digits : ∀ x ∈ exponent, x.2 ≠ [] ∧ ∀ c ∈ x.2, c.isDigit = true

namespace Written

def fractionChars : List Char → List Char
  | [] => []
  | cs => '.' :: cs

theorem fractionChars_of_ne {cs : List Char} (h : cs ≠ []) : fractionChars cs = '.' :: cs := by
  cases cs with
  | nil => exact absurd rfl h
  | cons _ _ => rfl

def exponentChars : Option (Bool × List Char) → List Char
  | none => []
  | some (down, cs) => 'e' :: (if down then '-' else '+') :: cs

def chars (w : Written) : List Char := w.whole ++ (fractionChars w.fraction ++ exponentChars w.exponent)

def numeral (w : Written) (negative : Bool) : Numeral :=
  ⟨negative, digitsOf w.whole, digitsOf w.fraction, w.exponent.map fun x => (x.1, digitsOf x.2)⟩

/-- The power of ten of the last digit. -/
def power (w : Written) : Int :=
  (match w.exponent with
    | none => 0
    | some (down, cs) => if down then -(Nat.ofDigitChars 10 cs 0 : Int) else Nat.ofDigitChars 10 cs 0) - w.fraction.length

def value (w : Written) : ℚ := Nat.ofDigitChars 10 (w.whole ++ w.fraction) 0 * 10 ^ w.power

/-- Whether there is a point or an exponent, by which the number is known not to be meant as a whole one. -/
def IsFractional (w : Written) : Prop := w.fraction ≠ [] ∨ w.exponent ≠ none

end Written

/-- What may stand behind a value. -/
def Ends (rest : List Char) : Prop := ∀ c ∈ rest.head?, c = ',' ∨ c = ']' ∨ c = '\x7d'

theorem Ends.not_digit {rest : List Char} (h : Ends rest) : ∀ c ∈ rest.head?, c.isDigit = false := by
  intro c hc
  rcases h c hc with rfl | rfl | rfl <;> decide

namespace Written

theorem exponentPart_chars (w : Written) {rest : List Char} (h : Ends rest) :
    Document.exponentPart (exponentChars w.exponent ++ rest) = some (w.exponent.map fun x => (x.1, digitsOf x.2), rest) := by
  have hDigits := w.exponent_digits
  cases hExponent : w.exponent with
  | none =>
    cases rest with
    | nil => rfl
    | cons c rest =>
      have hOther : ¬ (c = 'e' ∨ c = 'E') := by
        rcases h c rfl with rfl | rfl | rfl <;> decide
      exact if_neg hOther
  | some x =>
    obtain ⟨down, cs⟩ := x
    obtain ⟨hSome, hAll⟩ := hDigits _ hExponent
    have hRead := digits_append hAll h.not_digit
    have hNone : (digitsOf cs).isEmpty = false := by
      have hLength : (digitsOf cs).length = cs.length := length_digitsOf hAll
      have hPos : 0 < cs.length := List.length_pos_iff.mpr hSome
      rw [List.isEmpty_eq_false_iff, ← List.length_pos_iff]
      omega
    have hSign : Document.exponentSign ((if down then '-' else '+') :: cs ++ rest) = (down, cs ++ rest) := by
      cases down <;> rfl
    rw [exponentChars, List.cons_append, Document.exponentPart, if_pos (.inl rfl), hSign]
    dsimp only
    rw [hRead]
    dsimp only
    rw [hNone]
    rfl

theorem fractionPart_chars (w : Written) {rest : List Char} (h : ∀ c ∈ rest.head?, c.isDigit = false ∧ c ≠ '.') :
    Document.fractionPart (fractionChars w.fraction ++ rest) = some (digitsOf w.fraction, rest) := by
  have hAll := w.fraction_digits
  cases hFraction : w.fraction with
  | nil =>
    cases rest with
    | nil => rfl
    | cons c rest =>
      obtain ⟨-, hOther⟩ := h c rfl
      rw [fractionChars, List.nil_append, Document.fractionPart]
      · rfl
      · exact fun _ hEq => hOther (List.cons.inj hEq).1
  | cons d cs =>
    rw [hFraction] at hAll
    have hRead := digits_append hAll fun c hc => (h c hc).1
    rw [fractionChars, List.cons_append, Document.fractionPart, hRead]
    · dsimp only
      rw [digitsOf_cons (hAll d (by simp))]
      rfl
    · exact fun hNil => nomatch hNil

theorem exists_digit (w : Written) : ∃ c cs, w.chars = c :: cs ∧ c.isDigit = true := by
  have hDigits := w.whole_digits
  cases hWhole : w.whole with
  | nil => exact absurd hWhole w.whole_ne
  | cons c cs =>
    rw [hWhole] at hDigits
    exact ⟨c, _, by rw [chars, hWhole, List.cons_append], hDigits c (by simp)⟩

/-- Behind the digits before the point no other digit stands. -/
theorem head_exponentChars (w : Written) {rest : List Char} (h : Ends rest) :
    ∀ c ∈ (exponentChars w.exponent ++ rest).head?, c.isDigit = false ∧ c ≠ '.' := by
  cases w.exponent with
  | none =>
    intro c hc
    rcases h c hc with rfl | rfl | rfl <;> decide
  | some x =>
    intro c hc
    obtain rfl : 'e' = c := Option.some.inj hc
    decide

theorem head_fractionChars (w : Written) {rest : List Char} (h : Ends rest) :
    ∀ c ∈ (fractionChars w.fraction ++ (exponentChars w.exponent ++ rest)).head?, c.isDigit = false := by
  cases w.fraction with
  | nil => exact fun c hc => (w.head_exponentChars h c hc).1
  | cons d cs =>
    intro c hc
    obtain rfl : '.' = c := Option.some.inj hc
    decide

/-- A number that is written is read as its digits. -/
theorem numeral_chars (w : Written) (negative : Bool) {rest : List Char} (h : Ends rest) :
    Document.numeral negative (w.chars ++ rest) = some (.number (w.numeral negative), rest) := by
  have hExponent := w.exponentPart_chars h
  have hFraction : Document.fractionPart (fractionChars w.fraction ++ (exponentChars w.exponent ++ rest)) =
      some (digitsOf w.fraction, exponentChars w.exponent ++ rest) :=
    w.fractionPart_chars (head_exponentChars w h)
  have hWhole : Document.digits (w.whole ++ (fractionChars w.fraction ++ (exponentChars w.exponent ++ rest))) =
      (digitsOf w.whole, fractionChars w.fraction ++ (exponentChars w.exponent ++ rest)) :=
    digits_append w.whole_digits (head_fractionChars w h)
  have hPlain : ¬ ((digitsOf w.whole).isEmpty = true ∨ (digitsOf w.whole).head? = some 0 ∧ 1 < (digitsOf w.whole).length) := by
    have hDigits := w.whole_digits
    have hPlain := w.whole_plain
    have hLength := length_digitsOf w.whole_digits
    cases hFirst : w.whole with
    | nil => exact absurd hFirst w.whole_ne
    | cons c cs =>
      rw [hFirst] at hDigits hPlain hLength
      rw [digitsOf_cons (hDigits c (by simp))] at hLength ⊢
      rintro (hNone | ⟨hZero, hMore⟩)
      · cases hNone
      · have hOne := hPlain (congrArg some (eq_zero_of_digit (hDigits c (by simp)) (Option.some.inj hZero)))
        omega
  rw [chars, List.append_assoc, List.append_assoc, Document.numeral, hWhole]
  dsimp only
  rw [if_neg hPlain, hFraction]
  dsimp only [Option.bind_eq_bind, Option.bind_some, pure_bind]
  rw [hExponent]
  rfl

/-! Values -/

theorem power_numeral (w : Written) (negative : Bool) : (w.numeral negative).power = w.power := by
  have hDigits := w.exponent_digits
  rw [Numeral.power, power, numeral]
  dsimp only
  rw [length_digitsOf w.fraction_digits]
  cases hExponent : w.exponent with
  | none => rfl
  | some x =>
    obtain ⟨down, cs⟩ := x
    have hNumber : Numeral.number (digitsOf cs) = Nat.ofDigitChars 10 cs 0 := number_digitsOf (hDigits _ hExponent).2
    dsimp only [Option.map_some]
    rw [hNumber]

theorem number_numeral (w : Written) (negative : Bool) :
    Numeral.number ((w.numeral negative).whole ++ (w.numeral negative).fraction) =
      Nat.ofDigitChars 10 (w.whole ++ w.fraction) 0 := by
  rw [numeral, ← digitsOf_append, number_digitsOf]
  intro c hc
  rcases List.mem_append.mp hc with hc | hc
  · exact w.whole_digits c hc
  · exact w.fraction_digits c hc

/-- A number with a point or an exponent is read as the double nearest to its value. -/
theorem exact_of_fractional {w : Written} (hFractional : w.IsFractional) (negative : Bool) :
    (w.numeral negative).exact = .float (.ofRatio negative
      (Nat.ofDigitChars 10 (w.whole ++ w.fraction) 0 * 10 ^ w.power.toNat) (10 ^ (-w.power).toNat)) := by
  have hNotWhole : ¬ ((w.numeral negative).fraction = [] ∧ (w.numeral negative).exponent = none) := by
    rintro ⟨hFraction, hExponent⟩
    rcases hFractional with hSome | hSome
    · have hLength := length_digitsOf w.fraction_digits
      change digitsOf w.fraction = [] at hFraction
      rw [hFraction] at hLength
      exact hSome (List.length_eq_zero_iff.mp hLength.symm)
    · exact hSome (Option.map_eq_none_iff.mp hExponent)
  rw [Numeral.exact, if_neg hNotWhole, number_numeral, power_numeral]
  rfl

theorem exact_of_zero {w : Written} (hFractional : w.IsFractional) {x : Binary.Double} {negative : Bool} {e : Int}
    (hParts : x.parts = .finite negative 0 e) (hZero : Nat.ofDigitChars 10 (w.whole ++ w.fraction) 0 = 0) :
    (w.numeral negative).exact = .float x := by
  rw [exact_of_fractional hFractional, hZero, Nat.zero_mul, Binary.Double.ofRatio_of_zero hParts]

theorem exact_of_near {w : Written} (hFractional : w.IsFractional) {x : Binary.Double} {negative : Bool} {m : Nat}
    {e : Int} (hParts : x.parts = .finite negative m e) (hPos : 0 < w.value) (hNear : Binary.double.Near m e w.value) :
    (w.numeral negative).exact = .float x := by
  have hRatio : ((Nat.ofDigitChars 10 (w.whole ++ w.fraction) 0 * 10 ^ w.power.toNat : Nat) : ℚ) /
      (10 ^ (-w.power).toNat : Nat) = w.value := by
    rw [value]
    rcases le_total 0 w.power with h | h
    · obtain ⟨k, hk⟩ := Int.eq_ofNat_of_zero_le h
      simp [hk]
    · obtain ⟨k, hk⟩ : ∃ k : Nat, w.power = -k := ⟨(-w.power).toNat, by omega⟩
      simp [hk, div_eq_mul_inv]
  have hNum : 0 < Nat.ofDigitChars 10 (w.whole ++ w.fraction) 0 := by
    by_contra h
    rw [value, Nat.eq_zero_of_not_pos h] at hPos
    simp at hPos
  rw [exact_of_fractional hFractional, Binary.Double.ofRatio_of_near hParts (by positivity) (by positivity) hRatio hNear]

end Written

/-! Printed decimals -/

namespace Json

theorem digits_toDigits {n : Nat} : ∀ c ∈ Nat.toDigits 10 n, c.isDigit = true :=
  fun _ hc => Nat.isDigit_of_mem_toDigits (by decide) (by decide) hc

theorem toList_toString (n : Nat) : (toString n).toList = Nat.toDigits 10 n := by
  rw [Nat.toString_eq_ofList_toDigits, String.toList_ofList]

theorem toList_toString_int (n : Int) :
    (toString n).toList = if n < 0 then '-' :: Nat.toDigits 10 n.natAbs else Nat.toDigits 10 n.natAbs := by
  cases n with
  | ofNat k =>
    have hNot : ¬ Int.ofNat k < 0 := Int.not_lt.mpr (Int.natCast_nonneg k)
    rw [if_neg hNot]
    exact toList_toString k
  | negSucc k =>
    rw [if_pos (by omega)]
    change ("-" ++ toString (k + 1)).toList = _
    rw [String.toList_append, toList_toString]
    rfl

theorem toList_exponentText (n : Int) :
    (exponentText n).toList = 'e' :: (if n < 0 then '-' else '+') :: Nat.toDigits 10 n.natAbs := by
  change ((if 0 ≤ n then "e+" else "e") ++ toString n).toList = _
  rw [String.toList_append, toList_toString_int]
  split
  · rw [if_neg (by omega), if_neg (by omega)]
    rfl
  · rw [if_pos (by omega), if_pos (by omega)]
    rfl

/-- A whole number, with a zero behind its point. -/
theorem written_whole {s : Decimal.Scaled} (hDigits : 0 < s.digits) (hPower : 0 ≤ s.power) :
    ∃ w : Written, w.IsFractional ∧ s.positional.toList ++ ['.', '0'] = w.chars ∧ w.value = s.value := by
  obtain ⟨k, hk⟩ := Int.eq_ofNat_of_zero_le hPower
  have hText : s.positional.toList = Nat.toDigits 10 s.digits ++ List.replicate k '0' := by
    rw [Decimal.Scaled.positional, if_pos hPower, String.toList_ofList, hk, Int.toNat_natCast]
  refine ⟨⟨Nat.toDigits 10 s.digits ++ List.replicate k '0', ['0'], none, ?_, ?_, ?_, by simp, by simp⟩, .inl (by simp),
    ?_, ?_⟩
  · intro c hc
    rcases List.mem_append.mp hc with hc | hc
    · exact digits_toDigits c hc
    · rw [List.eq_of_mem_replicate hc]
      decide
  · exact List.append_ne_nil_of_left_ne_nil Nat.toDigits_ne_nil _
  · intro hHead
    have hFirst := head_toDigits hDigits
    rw [List.head?_append_of_ne_nil _ Nat.toDigits_ne_nil] at hHead
    exact absurd hHead hFirst
  · rw [hText]
    simp [Written.chars, Written.fractionChars, Written.exponentChars]
  · have hNumber : Nat.ofDigitChars 10 (Nat.toDigits 10 s.digits ++ List.replicate k '0' ++ ['0']) 0 = s.digits * 10 ^ k * 10 := by
      rw [Nat.ofDigitChars_append, Nat.ofDigitChars_append, Nat.ofDigitChars_replicate_zero, Nat.ofDigitChars_ten_toDigits]
      simp [Nat.ofDigitChars_cons, Nat.mul_comm]
    rw [Written.value, hNumber, Decimal.Scaled.value, hk, Written.power]
    simp

/-- A number with its point among its digits, or with zeros before them. -/
theorem written_fraction {s : Decimal.Scaled} (hDigits : 0 < s.digits) (hPower : s.power < 0) :
    ∃ w : Written, w.IsFractional ∧ s.positional.toList = w.chars ∧ w.value = s.value := by
  obtain ⟨k, hk⟩ : ∃ k : Nat, s.power = -k := ⟨(-s.power).toNat, by omega⟩
  let zeros := List.replicate (k + 1 - (Nat.toDigits 10 s.digits).length) '0'
  let padded := zeros ++ Nat.toDigits 10 s.digits
  have hText : s.positional.toList = padded.take (padded.length - k) ++ '.' :: padded.drop (padded.length - k) := by
    rw [Decimal.Scaled.positional, if_neg (by omega)]
    simp only [hk, neg_neg, Int.toNat_natCast, String.toList_ofList]
    rfl
  have hAll : ∀ c ∈ padded, c.isDigit = true := by
    intro c hc
    rcases List.mem_append.mp hc with hc | hc
    · rw [List.eq_of_mem_replicate hc]
      decide
    · exact digits_toDigits c hc
  have hLength : padded.length = max (k + 1) (Nat.toDigits 10 s.digits).length := by
    simp only [padded, zeros, List.length_append, List.length_replicate]
    omega
  have hNumber : Nat.ofDigitChars 10 padded 0 = s.digits := by
    rw [Nat.ofDigitChars_append, Nat.ofDigitChars_replicate_zero, Nat.mul_zero, Nat.ofDigitChars_ten_toDigits]
  -- Zeros stand before the digits only if the first of them is the one before the point.
  have hPlain : padded.head? = some '0' → padded.length = k + 1 := by
    intro hHead
    by_contra hMore
    have hNone : zeros = [] := by
      simp only [zeros]
      rw [show k + 1 - (Nat.toDigits 10 s.digits).length = 0 by omega]
      rfl
    simp only [padded, hNone, List.nil_append] at hHead
    exact head_toDigits hDigits hHead
  have hFraction : (padded.drop (padded.length - k)).length = k := by
    rw [List.length_drop]
    omega
  have hSome : padded.drop (padded.length - k) ≠ [] := by
    rw [← List.length_pos_iff, hFraction]
    omega
  refine ⟨⟨padded.take (padded.length - k), padded.drop (padded.length - k), none, ?_, ?_, ?_, ?_, by simp⟩, .inl hSome,
    ?_, ?_⟩
  · exact fun c hc => hAll c (List.mem_of_mem_take hc)
  · rw [← List.length_pos_iff, List.length_take]
    omega
  · intro hHead
    rw [List.head?_take, if_neg (by omega)] at hHead
    have hOne := hPlain hHead
    rw [List.length_take]
    omega
  · exact fun c hc => hAll c (List.mem_of_mem_drop hc)
  · rw [hText, Written.chars, Written.fractionChars_of_ne hSome, Written.exponentChars, List.append_nil]
  · rw [Written.value, Written.power, Decimal.Scaled.value, List.take_append_drop, hNumber, hFraction, hk, zero_sub]

/-- A number with an exponent. -/
theorem written_exponent {s : Decimal.Scaled} {d : Char} {rest : List Char} (hDigits : Nat.toDigits 10 s.digits = d :: rest) :
    ∃ w : Written, w.IsFractional ∧
      d :: (Written.fractionChars rest ++ (exponentText (rest.length + s.power)).toList) = w.chars ∧ w.value = s.value := by
  have hAll : ∀ c ∈ d :: rest, c.isDigit = true := hDigits ▸ digits_toDigits
  generalize hExponent : (rest.length + s.power : Int) = n
  refine ⟨⟨[d], rest, some (decide (n < 0), Nat.toDigits 10 n.natAbs), ?_, by simp, fun _ => rfl, ?_, ?_⟩, .inr (by simp),
    ?_, ?_⟩
  · exact fun c hc => hAll c (by simp_all)
  · exact fun c hc => hAll c (by simp [hc])
  · rintro x ⟨rfl⟩
    exact ⟨Nat.toDigits_ne_nil, digits_toDigits⟩
  · simp [Written.chars, Written.exponentChars, toList_exponentText]
  · have hNumber : Nat.ofDigitChars 10 (d :: rest) 0 = s.digits := by
      rw [← hDigits, Nat.ofDigitChars_ten_toDigits]
    have hPower : (if n < 0 then -(n.natAbs : Int) else n.natAbs) - rest.length = s.power := by
      split <;> omega
    simp only [Written.value, Written.power, Nat.ofDigitChars_ten_toDigits, List.singleton_append, hNumber,
      decide_eq_true_eq, hPower, Decimal.Scaled.value]

/-- A decimal that is printed is a number with a point or an exponent, and has the value of the decimal. -/
theorem written_decimalText {s : Decimal.Scaled} (hDigits : 0 < s.digits) :
    ∃ w : Written, w.IsFractional ∧ (decimalText s).toList = w.chars ∧ w.value = s.value := by
  let point : Int := (Nat.toDigits 10 s.digits).length + s.power
  by_cases hInside : 0 < point ∧ point ≤ 16
  · have hText : decimalText s = if 0 ≤ s.power then s.positional ++ ".0" else s.positional := if_pos hInside
    rw [hText]
    split
    · next hPower =>
      rw [String.toList_append]
      exact written_whole hDigits hPower
    · next hPower => exact written_fraction hDigits (by omega)
  · by_cases hBefore : -5 < point ∧ point ≤ 0
    · have hText : decimalText s = s.positional := (if_neg hInside).trans (if_pos hBefore)
      have hLength : 0 < (Nat.toDigits 10 s.digits).length := Nat.length_toDigits_pos
      rw [hText]
      exact written_fraction hDigits (by simp only [point] at hBefore; omega)
    · cases hFirst : Nat.toDigits 10 s.digits with
      | nil => exact absurd hFirst Nat.toDigits_ne_nil
      | cons d rest =>
        have hPoint : point - 1 = rest.length + s.power := by
          simp only [point, hFirst, List.length_cons]
          omega
        have hWritten := written_exponent hFirst
        rw [← hPoint] at hWritten
        have hText : (decimalText s).toList = d :: (Written.fractionChars rest ++ (exponentText (point - 1)).toList) := by
          have hMatch : decimalText s = _ := (if_neg hInside).trans (if_neg hBefore)
          simp only [hMatch, point, hFirst]
          cases rest with
          | nil => simp [Written.fractionChars]
          | cons _ _ => simp [Written.fractionChars]
        rw [hText]
        exact hWritten

/-! Printed numbers -/

def signChars (negative : Bool) : List Char := if negative then ['-'] else []

/-- A whole number that is printed is read as that number. -/
theorem written_int (n : Int) :
    ∃ w : Written, (toString n).toList = signChars (decide (n < 0)) ++ w.chars ∧
      (w.numeral (decide (n < 0))).exact = .int n := by
  refine ⟨⟨Nat.toDigits 10 n.natAbs, [], none, digits_toDigits, Nat.toDigits_ne_nil, ?_, by simp, by simp⟩, ?_, ?_⟩
  · intro hHead
    rcases Nat.eq_zero_or_pos n.natAbs with hZero | hPos
    · rw [hZero]
      decide
    · exact absurd hHead (head_toDigits hPos)
  · rw [toList_toString_int, signChars]
    by_cases h : n < 0 <;> simp [h, Written.chars, Written.fractionChars, Written.exponentChars]
  · have hNumber : Numeral.number (digitsOf (Nat.toDigits 10 n.natAbs)) = n.natAbs := by
      rw [number_digitsOf digits_toDigits, Nat.ofDigitChars_ten_toDigits]
    have hSign : (if n < 0 then -(n.natAbs : Int) else n.natAbs) = n := by
      split <;> omega
    rw [Numeral.exact, if_pos ⟨rfl, rfl⟩]
    simp only [Written.numeral, hNumber, decide_eq_true_eq, hSign]

/-- A finite floating-point number that is printed is read as that number. -/
theorem written_float {x : Binary.Double} {negative : Bool} {m : Nat} {e : Int} (h : x.parts = .finite negative m e) :
    ∃ w : Written, (floatText x).toList = signChars negative ++ w.chars ∧ (w.numeral negative).exact = .float x := by
  have hText : (floatText x).toList = signChars negative ++
      (if m = 0 then "0.0" else decimalText (Decimal.shortest Binary.double .toEven m e)).toList := by
    simp only [floatText, h]
    cases negative
    · rfl
    · rw [if_pos rfl, String.toList_append]
      rfl
  rw [hText]
  rcases Nat.eq_zero_or_pos m with rfl | hPos
  · refine ⟨⟨['0'], ['0'], none, by simp, by simp, by simp, by simp, by simp⟩, ?_, ?_⟩
    · rw [if_pos rfl]
      rfl
    · exact Written.exact_of_zero (.inl (by simp)) h rfl
  · obtain ⟨hNumber, -, -⟩ := Binary.Double.bits_of_parts h
    have hNear := Decimal.shortest_near (by decide) .toEven hNumber hPos
    have hValue : 0 < (Decimal.shortest Binary.double .toEven m e).value := by
      have hLow := hNear.low
      have hPos' : (1 : ℚ) ≤ m := by exact_mod_cast hPos
      have hPower : (0 : ℚ) < 2 ^ e := by positivity
      split at hLow <;> nlinarith
    have hDigits : 0 < (Decimal.shortest Binary.double .toEven m e).digits := by
      by_contra hZero
      rw [Decimal.Scaled.value, Nat.eq_zero_of_not_pos hZero] at hValue
      simp at hValue
    obtain ⟨w, hFractional, hChars, hSame⟩ := written_decimalText hDigits
    rw [if_neg (by omega), hChars]
    exact ⟨w, rfl, w.exact_of_near hFractional h (hSame ▸ hValue) (hSame ▸ hNear)⟩

end Json
end JvmDebug
