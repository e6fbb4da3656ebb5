import JvmDebug.Text.Utf8

/-!
# Text survives as bytes

Whatever is written as UTF-8 is read as the same text, and a line feed in the bytes is one in the text.
-/

namespace JvmDebug.Utf8
set_option autoImplicit false

/-! Sequences of one to four bytes -/

theorem isContinuation_iff (b : UInt8) : isContinuation b = true ↔ 0x80 ≤ b.toNat ∧ b.toNat ≤ 0xBF := by
  simp [isContinuation, UInt8.le_iff_toNat_le]

theorem isSecond_iff (lead b : UInt8) :
    isSecond lead b = true ↔ 0x80 ≤ b.toNat ∧ b.toNat ≤ 0xBF ∧ (lead.toNat = 0xE0 → 0xA0 ≤ b.toNat) ∧
      (lead.toNat = 0xED → b.toNat ≤ 0x9F) ∧ (lead.toNat = 0xF0 → 0x90 ≤ b.toNat) ∧
      (lead.toNat = 0xF4 → b.toNat ≤ 0x8F) := by
  have hEq : ∀ n : UInt8, lead = n ↔ lead.toNat = n.toNat := fun n => UInt8.toNat_inj.symm
  rw [isSecond, secondRange]
  simp only [hEq, Bool.and_eq_true, decide_eq_true_eq, UInt8.le_iff_toNat_le, UInt8.reduceToNat]
  split
  · simp only [UInt8.reduceToNat]; omega
  · split
    · simp only [UInt8.reduceToNat]; omega
    · split
      · simp only [UInt8.reduceToNat]; omega
      · split <;> simp only [UInt8.reduceToNat] <;> omega

variable {lead b1 b2 b3 : UInt8} (rest : Bytes)

theorem front_one (hLead : lead.toNat < 0x80) : front lead rest = .char (Char.ofNat lead.toNat) 1 := by
  have hOne : lead < 0x80 := UInt8.lt_iff_toNat_lt.mpr hLead
  rw [front.eq_def, if_pos hOne]

/-- A leading byte of a longer sequence. -/
theorem lead_conditions (hLow : 0xC2 ≤ lead.toNat) (hHigh : lead.toNat ≤ 0xF4) :
    ¬ lead < 0x80 ∧ ¬ (lead < 0xC2 || 0xF4 < lead) = true := by
  simp only [Bool.or_eq_true, decide_eq_true_eq, UInt8.lt_iff_toNat_lt, UInt8.reduceToNat]
  omega

theorem front_two (hLow : 0xC2 ≤ lead.toNat) (hHigh : lead.toNat < 0xE0) (h1 : isContinuation b1 = true) :
    front lead (b1 :: rest) = .char (Char.ofNat (lead.toNat % 32 * 64 + bits b1)) 2 := by
  obtain ⟨hNotOne, hNotBad⟩ := lead_conditions hLow (by omega)
  have hSecond : isSecond lead b1 = true := by
    rw [isContinuation_iff] at h1
    rw [isSecond_iff]
    omega
  have hTwo : lead < 0xE0 := UInt8.lt_iff_toNat_lt.mpr hHigh
  rw [front.eq_def, if_neg hNotOne, if_neg hNotBad]
  simp only [hSecond, Bool.not_true, Bool.false_eq_true, if_false, if_pos hTwo]

theorem front_three (hLow : 0xE0 ≤ lead.toNat) (hHigh : lead.toNat < 0xF0) (h1 : isSecond lead b1 = true)
    (h2 : isContinuation b2 = true) :
    front lead (b1 :: b2 :: rest) = .char (Char.ofNat (lead.toNat % 16 * 4096 + bits b1 * 64 + bits b2)) 3 := by
  have hLead : 0xC2 ≤ lead.toNat := by omega
  obtain ⟨hNotOne, hNotBad⟩ := lead_conditions hLead (by omega)
  have hNotTwo : ¬ lead < 0xE0 := fun h => absurd (UInt8.lt_iff_toNat_lt.mp h) (Nat.not_lt.mpr hLow)
  have hThree : lead < 0xF0 := UInt8.lt_iff_toNat_lt.mpr hHigh
  rw [front.eq_def, if_neg hNotOne, if_neg hNotBad]
  simp only [h1, h2, Bool.not_true, Bool.false_eq_true, if_false, if_neg hNotTwo, if_pos hThree]

theorem front_four (hLow : 0xF0 ≤ lead.toNat) (hHigh : lead.toNat ≤ 0xF4) (h1 : isSecond lead b1 = true)
    (h2 : isContinuation b2 = true) (h3 : isContinuation b3 = true) :
    front lead (b1 :: b2 :: b3 :: rest) =
      .char (Char.ofNat (lead.toNat % 8 * 262144 + bits b1 * 4096 + bits b2 * 64 + bits b3)) 4 := by
  have hLead : 0xC2 ≤ lead.toNat := by omega
  obtain ⟨hNotOne, hNotBad⟩ := lead_conditions hLead hHigh
  have hNotTwo : ¬ lead < 0xE0 := fun h => by
    have h := UInt8.lt_iff_toNat_lt.mp h
    simp only [UInt8.reduceToNat] at h
    omega
  have hNotThree : ¬ lead < 0xF0 := fun h => absurd (UInt8.lt_iff_toNat_lt.mp h) (Nat.not_lt.mpr hLow)
  rw [front.eq_def, if_neg hNotOne, if_neg hNotBad]
  simp only [h1, h2, h3, Bool.not_true, Bool.false_eq_true, if_false, if_neg hNotTwo, if_neg hNotThree]

/-! One character -/

theorem toNat_toUInt8 {n : Nat} (h : n < 256) : n.toUInt8.toNat = n := by
  simp only [Nat.toUInt8_eq, UInt8.toNat_ofNat']
  exact Nat.mod_eq_of_lt h

theorem isContinuation_low (n : Nat) : isContinuation (0x80 + n % 64).toUInt8 = true := by
  rw [isContinuation_iff, toNat_toUInt8 (by omega)]
  omega

theorem bits_low (n : Nat) : bits (0x80 + n % 64).toUInt8 = n % 64 := by
  rw [bits, toNat_toUInt8 (by omega)]
  omega

/-- The bytes of a character are read as that character, whatever follows them. -/
theorem front_encodeChar (c : Char) (rest : Bytes) :
    ∃ lead tail, encodeChar c = lead :: tail ∧ front lead (tail ++ rest) = .char c (tail.length + 1) := by
  have hValid : c.toNat < 55296 ∨ 57343 < c.toNat ∧ c.toNat < 1114112 := c.valid
  have hBack : Char.ofNat c.toNat = c := Char.ofNat_toNat c
  rw [encodeChar]
  generalize c.toNat = n at *
  split
  · refine ⟨_, _, rfl, ?_⟩
    have hLead : n.toUInt8.toNat = n := toNat_toUInt8 (by omega)
    rw [List.nil_append, front_one rest (by omega), hLead, hBack]
    rfl
  · split
    · refine ⟨_, _, rfl, ?_⟩
      have hLead : (0xC0 + n / 64).toUInt8.toNat = 0xC0 + n / 64 := toNat_toUInt8 (by omega)
      have hNumber : (0xC0 + n / 64) % 32 * 64 + n % 64 = n := by omega
      rw [List.cons_append, front_two _ (by omega) (by omega) (isContinuation_low n), hLead, bits_low, hNumber, hBack]
      rfl
    · split
      · refine ⟨_, _, rfl, ?_⟩
        have hLead : (0xE0 + n / 4096).toUInt8.toNat = 0xE0 + n / 4096 := toNat_toUInt8 (by omega)
        have hSecond : isSecond (0xE0 + n / 4096).toUInt8 (0x80 + n / 64 % 64).toUInt8 = true := by
          rw [isSecond_iff, hLead, toNat_toUInt8 (by omega)]
          omega
        have hNumber : (0xE0 + n / 4096) % 16 * 4096 + n / 64 % 64 * 64 + n % 64 = n := by omega
        rw [List.cons_append, List.cons_append, front_three _ (by omega) (by omega) hSecond (isContinuation_low n), hLead,
          bits_low, bits_low, hNumber, hBack]
        rfl
      · refine ⟨_, _, rfl, ?_⟩
        have hLead : (0xF0 + n / 262144).toUInt8.toNat = 0xF0 + n / 262144 := toNat_toUInt8 (by omega)
        have hSecond : isSecond (0xF0 + n / 262144).toUInt8 (0x80 + n / 4096 % 64).toUInt8 = true := by
          rw [isSecond_iff, hLead, toNat_toUInt8 (by omega)]
          omega
        have hNumber : (0xF0 + n / 262144) % 8 * 262144 + n / 4096 % 64 * 4096 + n / 64 % 64 * 64 + n % 64 = n := by
          omega
        rw [List.cons_append, List.cons_append, List.cons_append, front_four _ (by omega) (by omega) hSecond
          (isContinuation_low _) (isContinuation_low n), hLead, bits_low, bits_low, bits_low, hNumber, hBack]
        rfl

/-- A byte of the first half stands for a character of its own, and in no other. -/
theorem mem_encodeChar_low {b : UInt8} (hLow : b.toNat < 0x80) (c : Char) : b ∈ encodeChar c ↔ c.toNat = b.toNat := by
  have hByte : ∀ n, n < 256 → (b = n.toUInt8 ↔ n = b.toNat) := fun n hn => by
    rw [← UInt8.toNat_inj, toNat_toUInt8 hn]
    exact eq_comm
  rw [encodeChar]
  have hValid : c.toNat < 55296 ∨ 57343 < c.toNat ∧ c.toNat < 1114112 := c.valid
  generalize c.toNat = n at *
  split
  · simp only [List.mem_singleton, hByte n (by omega)]
  · split
    · simp only [List.mem_cons, List.not_mem_nil, or_false, hByte (0xC0 + n / 64) (by omega),
        hByte (0x80 + n % 64) (by omega)]
      omega
    · split
      · simp only [List.mem_cons, List.not_mem_nil, or_false, hByte (0xE0 + n / 4096) (by omega),
          hByte (0x80 + n / 64 % 64) (by omega), hByte (0x80 + n % 64) (by omega)]
        omega
      · simp only [List.mem_cons, List.not_mem_nil, or_false, hByte (0xF0 + n / 262144) (by omega),
          hByte (0x80 + n / 4096 % 64) (by omega), hByte (0x80 + n / 64 % 64) (by omega),
          hByte (0x80 + n % 64) (by omega)]
        omega

theorem encodeChar_low {b : UInt8} {c : Char} (hLow : b.toNat < 0x80) (h : c.toNat = b.toNat) : encodeChar c = [b] := by
  rw [encodeChar, h, if_pos hLow]
  exact congrArg ([·]) (UInt8.toNat_inj.mp (toNat_toUInt8 b.toNat_lt))

/-- Only a line feed is written with the byte of a line feed. -/
theorem mem_encodeChar_lineFeed (c : Char) : 10 ∈ encodeChar c ↔ c = '\n' := by
  rw [mem_encodeChar_low (by decide), ← Char.toNat_inj]
  rfl

/-! One character, back -/

/-- What is read as a character is a sequence of one, two, three or four bytes. -/
theorem front_cases {lead : UInt8} {rest : Bytes} {c : Char} {size : Nat} (h : front lead rest = .char c size) :
    (lead.toNat < 0x80 ∧ c = Char.ofNat lead.toNat ∧ size = 1) ∨
      (∃ b1 more, rest = b1 :: more ∧ (0xC2 ≤ lead.toNat ∧ lead.toNat < 0xE0) ∧ isSecond lead b1 = true ∧
        c = Char.ofNat (lead.toNat % 32 * 64 + bits b1) ∧ size = 2) ∨
      (∃ b1 b2 more, rest = b1 :: b2 :: more ∧ (0xE0 ≤ lead.toNat ∧ lead.toNat < 0xF0) ∧ isSecond lead b1 = true ∧
        isContinuation b2 = true ∧ c = Char.ofNat (lead.toNat % 16 * 4096 + bits b1 * 64 + bits b2) ∧ size = 3) ∨
      (∃ b1 b2 b3 more, rest = b1 :: b2 :: b3 :: more ∧ (0xF0 ≤ lead.toNat ∧ lead.toNat ≤ 0xF4) ∧
        isSecond lead b1 = true ∧ isContinuation b2 = true ∧ isContinuation b3 = true ∧
        c = Char.ofNat (lead.toNat % 8 * 262144 + bits b1 * 4096 + bits b2 * 64 + bits b3) ∧ size = 4) := by
  have hLess : ∀ n : UInt8, lead < n ↔ lead.toNat < n.toNat := fun n => UInt8.lt_iff_toNat_lt
  have hMore : ∀ n : UInt8, n < lead ↔ n.toNat < lead.toNat := fun n => UInt8.lt_iff_toNat_lt
  rw [front.eq_def] at h
  simp only [hLess, hMore, UInt8.reduceToNat, Bool.or_eq_true, decide_eq_true_eq, Bool.not_eq_true'] at h
  split at h
  · next hOne => exact .inl ⟨hOne, (Front.char.inj h).1.symm, (Front.char.inj h).2.symm⟩
  · split at h
    · cases h
    · rcases rest with _ | ⟨b1, rest⟩
      · cases h
      · simp only [] at h
        split at h
        · cases h
        · next hSecond =>
          split at h
          · exact .inr (.inl ⟨b1, rest, rfl, by omega, by simpa using hSecond, (Front.char.inj h).1.symm,
              (Front.char.inj h).2.symm⟩)
          · rcases rest with _ | ⟨b2, rest⟩
            · cases h
            · simp only [] at h
              split at h
              · cases h
              · next hThird =>
                split at h
                · exact .inr (.inr (.inl ⟨b1, b2, rest, rfl, by omega, by simpa using hSecond, by simpa using hThird,
                    (Front.char.inj h).1.symm, (Front.char.inj h).2.symm⟩))
                · rcases rest with _ | ⟨b3, rest⟩
                  · cases h
                  · simp only [] at h
                    split at h
                    · cases h
                    · next hFourth =>
                      exact .inr (.inr (.inr ⟨b1, b2, b3, rest, rfl, by omega, by simpa using hSecond,
                        by simpa using hThird, by simpa using hFourth, (Front.char.inj h).1.symm,
                        (Front.char.inj h).2.symm⟩))

theorem eq_toUInt8 {b : UInt8} {n : Nat} (h : n = b.toNat) : n.toUInt8 = b :=
  UInt8.toNat_inj.mp ((toNat_toUInt8 (h ▸ b.toNat_lt)).trans h)

theorem toNat_ofNat_of_valid {n : Nat} (h : n < 55296 ∨ 57343 < n ∧ n < 1114112) : (Char.ofNat n).toNat = n := by
  have hValid : n.isValidChar := h
  rw [Char.ofNat, dif_pos hValid]
  exact UInt32.toNat_ofNatLT ..

/-- What is read as a character is just the bytes that the character is written with. -/
theorem encodeChar_of_front {lead : UInt8} {rest : Bytes} {c : Char} {size : Nat} (h : front lead rest = .char c size) :
    ∃ tail more, rest = tail ++ more ∧ encodeChar c = lead :: tail ∧ size = tail.length + 1 := by
  rcases front_cases h with ⟨hLead, rfl, rfl⟩ | ⟨b1, more, rfl, hLead, h1, rfl, rfl⟩ |
    ⟨b1, b2, more, rfl, hLead, h1, h2, rfl, rfl⟩ | ⟨b1, b2, b3, more, rfl, hLead, h1, h2, h3, rfl, rfl⟩
  · refine ⟨[], rest, rfl, ?_, rfl⟩
    rw [encodeChar, toNat_ofNat_of_valid (by omega), if_pos hLead, eq_toUInt8 rfl]
  · refine ⟨[b1], more, rfl, ?_, rfl⟩
    rw [isSecond_iff] at h1
    simp only [bits]
    rw [encodeChar, toNat_ofNat_of_valid (by omega), if_neg (by omega), if_pos (by omega),
      eq_toUInt8 (b := lead) (by omega), eq_toUInt8 (b := b1) (by omega)]
  · refine ⟨[b1, b2], more, rfl, ?_, rfl⟩
    rw [isSecond_iff] at h1
    rw [isContinuation_iff] at h2
    simp only [bits]
    rw [encodeChar, toNat_ofNat_of_valid (by omega), if_neg (by omega), if_neg (by omega), if_pos (by omega),
      eq_toUInt8 (b := lead) (by omega), eq_toUInt8 (b := b1) (by omega), eq_toUInt8 (b := b2) (by omega)]
  · refine ⟨[b1, b2, b3], more, rfl, ?_, rfl⟩
    rw [isSecond_iff] at h1
    rw [isContinuation_iff] at h2 h3
    simp only [bits]
    rw [encodeChar, toNat_ofNat_of_valid (by omega), if_neg (by omega), if_neg (by omega), if_neg (by omega),
      eq_toUInt8 (b := lead) (by omega), eq_toUInt8 (b := b1) (by omega), eq_toUInt8 (b := b2) (by omega),
      eq_toUInt8 (b := b3) (by omega)]

/-! Texts -/

theorem decodeFrom_skip (start : Nat) (skipped rest : Bytes) :
    decodeFrom start skipped.length (skipped ++ rest) = decodeFrom (start + skipped.length) 0 rest := by
  induction skipped generalizing start with
  | nil => rfl
  | cons b skipped ih =>
    rw [List.cons_append, List.length_cons, decodeFrom, ih]
    congr 1
    omega

/-- Reading goes on behind the bytes of a text with what follows them. -/
theorem decodeFrom_encode (start : Nat) (cs : List Char) (rest : Bytes) :
    decodeFrom start 0 (cs.flatMap encodeChar ++ rest) =
      (decodeFrom (start + (cs.flatMap encodeChar).length) 0 rest).map (cs ++ ·) := by
  induction cs generalizing start with
  | nil =>
    rw [List.flatMap_nil, List.nil_append, List.length_nil, Nat.add_zero]
    cases decodeFrom start 0 rest <;> rfl
  | cons c cs ih =>
    obtain ⟨lead, tail, hBytes, hFront⟩ := front_encodeChar c (cs.flatMap encodeChar ++ rest)
    have hStart : start + 1 + tail.length + (cs.flatMap encodeChar).length =
        start + ((lead :: tail) ++ cs.flatMap encodeChar).length := by
      simp only [List.cons_append, List.length_cons, List.length_append]
      omega
    rw [List.flatMap_cons, hBytes, List.append_assoc, List.cons_append, decodeFrom, hFront]
    simp only [Nat.add_sub_cancel]
    rw [decodeFrom_skip, ih, hStart]
    cases decodeFrom _ 0 rest <;> rfl

theorem decode_encode (s : String) : decode (encode s) = .ok s := by
  have hRead := decodeFrom_encode 0 s.toList []
  rw [List.append_nil] at hRead
  rw [decode, encode, hRead, decodeFrom]
  simp [Except.map]

theorem encode_of_decodeFrom {start : Nat} {bytes : Bytes} {cs : List Char} (h : decodeFrom start 0 bytes = .ok cs) :
    cs.flatMap encodeChar = bytes := by
  induction hLength : bytes.length using Nat.strongRecOn generalizing start bytes cs with
  | ind n ih =>
    cases bytes with
    | nil =>
      cases h
      rfl
    | cons lead rest =>
      rw [decodeFrom] at h
      split at h
      · next c size hFront =>
        obtain ⟨tail, more, rfl, hChar, rfl⟩ := encodeChar_of_front hFront
        rw [Nat.add_sub_cancel, decodeFrom_skip] at h
        cases hMore : decodeFrom (start + 1 + tail.length) 0 more with
        | error why =>
          rw [hMore] at h
          cases h
        | ok others =>
          rw [hMore] at h
          cases h
          have hOthers := ih more.length (by simp at hLength; omega) hMore rfl
          rw [List.flatMap_cons, hChar, hOthers, List.cons_append]
      · cases h
      · cases h

/-- Bytes that can be read as a text are those that it is written with. -/
theorem encode_of_decode {bytes : Bytes} {s : String} (h : decode bytes = .ok s) : encode s = bytes := by
  rw [decode] at h
  cases hRead : decodeFrom 0 0 bytes with
  | error why =>
    rw [hRead] at h
    cases h
  | ok cs =>
    rw [hRead] at h
    cases h
    rw [encode, String.toList_ofList]
    exact encode_of_decodeFrom hRead

theorem encode_append (s t : String) : encode (s ++ t) = encode s ++ encode t := by
  simp [encode]

theorem encode_injective {s t : String} (h : encode s = encode t) : s = t :=
  Except.ok.inj ((decode_encode s).symm.trans (h ▸ decode_encode t))

theorem mem_encode_lineFeed (s : String) : 10 ∈ encode s ↔ '\n' ∈ s.toList := by
  simp [encode, mem_encodeChar_lineFeed]

/-- Text stays text without a last byte of the first half. -/
theorem exists_encode_of_snoc {s : String} {bytes : Bytes} {b : UInt8} (hLow : b.toNat < 0x80) (h : encode s = bytes ++ [b]) :
    ∃ t, encode t = bytes := by
  rcases List.eq_nil_or_concat s.toList with hNil | ⟨cs, c, hChars⟩
  · simp [encode, hNil] at h
  rw [List.concat_eq_append] at hChars
  rw [encode, hChars, List.flatMap_append, List.flatMap_singleton] at h
  -- The last character is written with the last byte, hence with no other.
  have hByte : b ∈ encodeChar c := by
    obtain ⟨lead, tail, hLead, -⟩ := front_encodeChar c []
    have hLast := congrArg List.getLast? h
    rw [hLead, List.getLast?_append, List.getLast?_concat] at hLast
    rw [hLead]
    apply List.mem_of_getLast?
    simpa [List.getLast?_cons] using hLast
  rw [encodeChar_low hLow ((mem_encodeChar_low hLow c).mp hByte)] at h
  exact ⟨String.ofList cs, by simpa [encode] using List.append_inj_left' h rfl⟩

theorem decode_isOk_iff {bytes : Bytes} : (decode bytes).isOk = true ↔ ∃ s, encode s = bytes := by
  constructor
  · intro h
    cases hRead : decode bytes with
    | ok s => exact ⟨s, encode_of_decode hRead⟩
    | error why => simp [hRead, Except.isOk, Except.toBool] at h
  · rintro ⟨s, rfl⟩
    rw [decode_encode]
    rfl

/-- A byte of the first half makes no difference at the end of a text. -/
theorem decode_isOk_snoc {b : UInt8} (hLow : b.toNat < 0x80) (bytes : Bytes) :
    (decode (bytes ++ [b])).isOk = (decode bytes).isOk := by
  rw [Bool.eq_iff_iff, decode_isOk_iff, decode_isOk_iff]
  constructor
  · rintro ⟨s, h⟩
    exact exists_encode_of_snoc hLow h
  · rintro ⟨s, rfl⟩
    have hChar : (Char.ofNat b.toNat).toNat = b.toNat := by
      rw [toNat_ofNat_of_valid]
      omega
    refine ⟨s ++ String.singleton (Char.ofNat b.toNat), ?_⟩
    rw [encode_append]
    simp [encode, encodeChar_low hLow hChar]

end JvmDebug.Utf8
