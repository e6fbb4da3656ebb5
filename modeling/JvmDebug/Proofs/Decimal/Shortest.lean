import JvmDebug.Decimal.Shortest
import JvmDebug.Proofs.Decimal.Nearest

/-!
# The shortest decimal reads back

The decimal that is found for a number lies among the quotients that are rounded to the number: the search comes to
grids on which some point lies close enough.
-/

namespace JvmDebug
set_option autoImplicit false

namespace Decimal

open Binary (Format)

def Scaled.value (s : Scaled) : ℚ := s.digits * 10 ^ s.power

/-! Units -/

theorem inUnits_spec (num : Nat) {den : Nat} (hDen : 0 < den) (power : Int) :
    0 < (inUnits num den power).2 ∧
      ((inUnits num den power).1 : ℚ) = (num / den : ℚ) / 10 ^ power * (inUnits num den power).2 :=
  units_spec (by decide) hDen power rfl

theorem inUnits_snd (a b den : Nat) (power : Int) : (inUnits a den power).2 = (inUnits b den power).2 := by
  rw [inUnits, inUnits]
  split <;> rfl

theorem inUnits_le_iff (num : Nat) {den : Nat} (hDen : 0 < den) (power : Int) (digits : Nat) :
    (inUnits num den power).1 ≤ digits * (inUnits num den power).2 ↔ (num / den : ℚ) ≤ digits * 10 ^ power := by
  obtain ⟨hUnit, hValue⟩ := inUnits_spec num hDen power
  generalize (inUnits num den power).1 = n at *
  generalize (inUnits num den power).2 = d at *
  have hUnit' : (0 : ℚ) < d := by exact_mod_cast hUnit
  have hCast : n ≤ digits * d ↔ (n : ℚ) ≤ digits * d := by exact_mod_cast Iff.rfl
  rw [hCast, hValue, mul_le_mul_iff_left₀ hUnit', div_le_iff₀ (by positivity)]

theorem le_inUnits_iff (num : Nat) {den : Nat} (hDen : 0 < den) (power : Int) (digits : Nat) :
    digits * (inUnits num den power).2 ≤ (inUnits num den power).1 ↔ (digits * 10 ^ power : ℚ) ≤ num / den := by
  obtain ⟨hUnit, hValue⟩ := inUnits_spec num hDen power
  generalize (inUnits num den power).1 = n at *
  generalize (inUnits num den power).2 = d at *
  have hUnit' : (0 : ℚ) < d := by exact_mod_cast hUnit
  have hCast : digits * d ≤ n ↔ (digits * d : ℚ) ≤ n := by exact_mod_cast Iff.rfl
  rw [hCast, hValue, mul_le_mul_iff_left₀ hUnit', le_div_iff₀ (by positivity)]

/-! The first digit -/

theorem lt_pow_digitCount (n : Nat) : n < 10 ^ digitCount n :=
  (Nat.length_toDigits_le_iff (by decide) Nat.length_toDigits_pos).mp le_rfl

theorem pow_le_of_digitCount {n : Nat} (h : 0 < n) : 10 ^ (digitCount n - 1) ≤ n := by
  by_contra hLess
  have hMore : 0 < digitCount n - 1 := by
    by_contra hOne
    rw [show digitCount n - 1 = 0 by omega] at hLess
    omega
  have hFewer := (Nat.length_toDigits_le_iff (b := 10) (by decide) hMore).mpr (not_le.mp hLess)
  rw [← digitCount] at hFewer
  omega

/-- A quotient is at least its leading power. -/
theorem leadingPower_le {num den : Nat} (hNum : 0 < num) (hDen : 0 < den) :
    (10 : ℚ) ^ leadingPower num den ≤ num / den := by
  have hNum' : (0 : ℚ) < num := by exact_mod_cast hNum
  have hDen' : (0 : ℚ) < den := by exact_mod_cast hDen
  rw [leadingPower, le_div_iff₀ hDen']
  split
  · next h =>
    have hWhole := pow_le_of_digitCount (Nat.div_pos h hDen)
    have hCount : (digitCount (num / den) : Int) - 1 = ((digitCount (num / den) - 1 : Nat) : Int) := by
      have hPos : 0 < digitCount (num / den) := Nat.length_toDigits_pos
      omega
    rw [hCount, zpow_natCast]
    exact_mod_cast (Nat.le_div_iff_mul_le hDen).mp hWhole
  · dsimp only
    generalize hCount : digitCount (den / num) = j
    have hBelow : den < 10 ^ j * num := by
      have hLess := lt_pow_digitCount (den / num)
      rwa [hCount, Nat.div_lt_iff_lt_mul hNum] at hLess
    split
    · next h =>
      have hPos : 0 < j := hCount ▸ Nat.length_toDigits_pos
      rw [show (-((j : Int) - 1)) = -((j - 1 : Nat) : Int) by omega, zpow_neg, zpow_natCast, inv_mul_le_iff₀ (by positivity)]
      rw [Nat.pow_eq, mul_comm] at h
      exact_mod_cast h
    · rw [zpow_neg, zpow_natCast, inv_mul_le_iff₀ (by positivity)]
      exact_mod_cast hBelow.le

/-! The interval -/

section

variable {f : Format} {m : Nat} {e : Int}

theorem quarters (n : Nat) (e : Int) :
    ((n * Nat.pow 2 e.toNat : Nat) / (4 * Nat.pow 2 (-e).toNat : Nat) : ℚ) = n * 2 ^ e / 4 := by
  rcases le_total 0 e with h | h
  · obtain ⟨k, rfl⟩ := Int.eq_ofNat_of_zero_le h
    simp only [Nat.pow_eq, Int.toNat_natCast, Int.toNat_neg_natCast, pow_zero, zpow_natCast]
    push_cast
    ring
  · obtain ⟨k, rfl⟩ : ∃ k : Nat, e = -k := ⟨(-e).toNat, by omega⟩
    simp only [Nat.pow_eq, neg_neg, Int.toNat_natCast, Int.toNat_neg_natCast, pow_zero, zpow_neg, zpow_natCast]
    push_cast
    field_simp

variable (f m e) in
theorem den_pos : 0 < (Interval.of f m e).den := Nat.mul_pos (by decide) (Nat.pow_pos (by decide))

theorem value_of : ((Interval.of f m e).value / (Interval.of f m e).den : ℚ) = m * 2 ^ e := by
  rw [Interval.of, quarters]
  push_cast
  ring

theorem low_of (hPos : 0 < m) :
    ((Interval.of f m e).low / (Interval.of f m e).den : ℚ) =
      (4 * m - (if m = 2 ^ f.fraction ∧ f.lowest < e then 1 else 2) : ℚ) * 2 ^ e / 4 := by
  rw [Interval.of, quarters, Nat.cast_sub (by split <;> omega)]
  simp only [Nat.pow_eq, Nat.cast_mul, Nat.cast_ite, Nat.cast_ofNat, Nat.cast_one]

theorem high_of : ((Interval.of f m e).high / (Interval.of f m e).den : ℚ) = (4 * m + 2) * 2 ^ e / 4 := by
  rw [Interval.of, quarters]
  push_cast
  ring

/-- The interval holds the decimals that are rounded to the number. -/
theorem contains_iff (hPos : 0 < m) (digits : Nat) (power : Int) :
    (Interval.of f m e).contains digits power = true ↔ f.Near m e (digits * 10 ^ power) := by
  have hLow := inUnits_le_iff (Interval.of f m e).low (den_pos f m e) power digits
  have hAbove := not_congr (le_inUnits_iff (Interval.of f m e).low (den_pos f m e) power digits)
  have hBelow := not_congr (inUnits_le_iff (Interval.of f m e).high (den_pos f m e) power digits)
  have hHigh := le_inUnits_iff (Interval.of f m e).high (den_pos f m e) power digits
  rw [inUnits_snd (Interval.of f m e).high (Interval.of f m e).low, high_of] at hHigh hBelow
  rw [low_of hPos] at hLow hAbove
  rw [not_le, not_le] at hAbove hBelow
  have hClosed : (Interval.of f m e).closed = decide (m % 2 = 0) := rfl
  simp only [Interval.contains, hClosed]
  generalize (inUnits (Interval.of f m e).low (Interval.of f m e).den power).1 = low at *
  generalize (inUnits (Interval.of f m e).low (Interval.of f m e).den power).2 = d at *
  generalize (inUnits (Interval.of f m e).high (Interval.of f m e).den power).1 = high at *
  generalize (digits * 10 ^ power : ℚ) = q at *
  have hIn : f.Near m e q ↔ low ≤ digits * d ∧ digits * d ≤ high ∧
      (m % 2 = 1 → low < digits * d ∧ digits * d < high) := by
    rw [hLow, hHigh, hAbove, hBelow, div_le_iff₀ (by norm_num), le_div_iff₀ (by norm_num), div_lt_iff₀ (by norm_num),
      lt_div_iff₀ (by norm_num), mul_comm q]
    exact ⟨fun h => ⟨h.low, h.high, h.strict⟩, fun ⟨h, h', h''⟩ => ⟨h, h', h''⟩⟩
  rw [hIn]
  by_cases hEven : m % 2 = 0
  · rw [if_pos (by simpa using hEven), Bool.and_eq_true, decide_eq_true_eq, decide_eq_true_eq]
    exact ⟨fun ⟨h, h'⟩ => ⟨h, h', by omega⟩, fun ⟨h, h', _⟩ => ⟨h, h'⟩⟩
  · rw [if_neg (by simpa using hEven), Bool.and_eq_true, decide_eq_true_eq, decide_eq_true_eq]
    exact ⟨fun ⟨h, h'⟩ => ⟨h.le, h'.le, fun _ => ⟨h, h'⟩⟩, fun ⟨_, _, h⟩ => h (by omega)⟩

/-- Whatever lies closer to a number than a quarter of its last place is rounded to it. -/
theorem near_of_close {q : ℚ} (hBelow : 4 * (m * 2 ^ e - q) < 2 ^ e) (hAbove : 4 * (q - m * 2 ^ e) < 2 ^ e) :
    f.Near m e q := by
  have hPower : (0 : ℚ) < 2 ^ e := by positivity
  have hLow : (4 * m - (if m = 2 ^ f.fraction ∧ f.lowest < e then 1 else 2) : ℚ) * 2 ^ e < 4 * q := by
    split <;> nlinarith
  have hHigh : 4 * q < (4 * m + 2) * 2 ^ e := by nlinarith
  exact ⟨hLow.le, hHigh.le, fun _ => ⟨hLow, hHigh⟩⟩

end

/-! The search -/

theorem contains_of_onGrid? {i : Interval} {tie : Tie} {power : Int} {digits : Nat}
    (h : i.onGrid? tie power = some digits) : i.contains digits power = true := by
  simp only [Interval.onGrid?] at h
  generalize (if 2 * _ < _ then _ else if _ < 2 * _ then _ else tie.pick _) = nearer at h
  split at h
  · next hIn =>
    cases h
    exact hIn
  · split at h
    · next hIn =>
      cases h
      exact hIn
    · cases h

/-- The neighbour of a quotient that is taken for it lies no farther than half a step away. -/
theorem half_step (n : Nat) {d : Nat} (hd : 0 < d) (tie : Tie) :
    let nearer := if 2 * (n % d) < d then n / d else if d < 2 * (n % d) then n / d + 1 else tie.pick (n / d)
    2 * n ≤ (2 * nearer + 1) * d ∧ 2 * nearer * d ≤ 2 * n + d := by
  have hDiv : d * (n / d) + n % d = n := Nat.div_add_mod n d
  have hRest : n % d < d := Nat.mod_lt n hd
  generalize n / d = q at *
  generalize n % d = r at *
  intro nearer
  have hEither : nearer = q ∧ 2 * r ≤ d ∨ nearer = q + 1 ∧ d ≤ 2 * r := by
    simp only [nearer]
    split
    · omega
    · split
      · omega
      · cases tie with
        | toEven =>
          simp only [Tie.pick]
          omega
        | up => exact .inr ⟨rfl, by omega⟩
  clear_value nearer
  rcases hEither with ⟨rfl, hHalf⟩ | ⟨rfl, hHalf⟩
  · constructor <;> nlinarith
  · constructor <;> nlinarith

/-- On a grid that is fine enough, the interval holds a point. -/
theorem onGrid?_isSome {f : Format} {m : Nat} {e power : Int} (tie : Tie) (hPos : 0 < m)
    (hFine : 2 * (10 : ℚ) ^ power < 2 ^ e) : ((Interval.of f m e).onGrid? tie power).isSome = true := by
  obtain ⟨hUnit, hValue⟩ := inUnits_spec (Interval.of f m e).value (den_pos f m e) power
  obtain ⟨hAbove, hBelow⟩ := half_step (inUnits (Interval.of f m e).value (Interval.of f m e).den power).1 hUnit tie
  rw [value_of] at hValue
  simp only [Interval.onGrid?]
  generalize (inUnits (Interval.of f m e).value (Interval.of f m e).den power).1 = n at *
  generalize (inUnits (Interval.of f m e).value (Interval.of f m e).den power).2 = d at *
  generalize (if 2 * (n % d) < d then n / d else if d < 2 * (n % d) then n / d + 1 else tie.pick (n / d)) = nearer at *
  have hStep : (0 : ℚ) < 10 ^ power := by positivity
  have hUnit' : (0 : ℚ) < d := by exact_mod_cast hUnit
  have hAbove' : (2 * n : ℚ) ≤ (2 * nearer + 1) * d := by exact_mod_cast hAbove
  have hBelow' : (2 * nearer * d : ℚ) ≤ 2 * n + d := by exact_mod_cast hBelow
  -- In steps of the grid, the number is `x`.
  obtain ⟨x, hx⟩ : ∃ x : ℚ, (m * 2 ^ e : ℚ) = x * 10 ^ power := ⟨m * 2 ^ e / 10 ^ power, by field_simp⟩
  rw [hx, mul_div_assoc, div_self hStep.ne', mul_one] at hValue
  rw [hValue] at hAbove' hBelow'
  have hHigh : 2 * x ≤ 2 * nearer + 1 := by nlinarith
  have hLow : 2 * (nearer : ℚ) ≤ 2 * x + 1 := by nlinarith
  have hIn : (Interval.of f m e).contains nearer power = true := by
    refine (contains_iff hPos ..).mpr (near_of_close ?_ ?_)
    · rw [hx]
      nlinarith
    · rw [hx]
      nlinarith
  rw [if_pos hIn]
  rfl

/-- The search stops at a grid that has a point in the interval, if it comes to one. -/
theorem contains_search {i : Interval} {tie : Tie} {steps k : Nat} {power : Int} (hSteps : k < steps)
    (hGrid : (i.onGrid? tie (power - k)).isSome = true) :
    i.contains (i.search tie steps power).digits (i.search tie steps power).power = true := by
  induction steps generalizing k power with
  | zero => omega
  | succ steps ih =>
    rw [Interval.search]
    split
    · next hFound => exact contains_of_onGrid? hFound
    · next hNone =>
      cases k with
      | zero => simp [hNone] at hGrid
      | succ k => exact ih (k := k) (by omega) (by rwa [show power - 1 - (k : Int) = power - (k + 1 : Nat) by omega])

theorem value_strip (steps : Nat) (s : Scaled) : (Scaled.strip steps s).value = s.value := by
  induction steps generalizing s with
  | zero => rfl
  | succ steps ih =>
    rw [Scaled.strip]
    split
    · next h =>
      have hZero : s.digits % 10 = 0 := by
        simp only [Bool.and_eq_true, decide_eq_true_eq] at h
        exact h.1
      have hTen : (s.digits : ℚ) = (s.digits / 10 : Nat) * 10 := by exact_mod_cast (by omega : s.digits = s.digits / 10 * 10)
      rw [ih, Scaled.value, Scaled.value, hTen, zpow_add_one₀ (by norm_num)]
      ring
    · rfl

/-- The shortest decimal is rounded to the number that it stands for. Twenty steps reach any format whose significands
have fewer digits than that. -/
theorem shortest_near {f : Format} {m : Nat} {e : Int} (hWidth : 2 ^ (f.fraction + 2) ≤ 10 ^ 19) (tie : Tie)
    (hNumber : f.IsNumber m e) (hPos : 0 < m) : f.Near m e (shortest f tie m e).value := by
  rw [shortest, value_strip]
  have hWidth' : (2 : ℚ) ^ (f.fraction + 2) ≤ 10 ^ 19 := by exact_mod_cast hWidth
  have hSize : (m : ℚ) < 2 ^ (f.fraction + 1) := by exact_mod_cast hNumber.lt
  have hPower : (0 : ℚ) < 2 ^ e := by positivity
  have hValue : 0 < (Interval.of f m e).value :=
    Nat.mul_pos (Nat.mul_pos (by decide) hPos) (Nat.pow_pos (by decide))
  have hLead := leadingPower_le hValue (den_pos f m e)
  rw [value_of] at hLead
  generalize leadingPower (Interval.of f m e).value (Interval.of f m e).den = lead at *
  have hFine : 2 * (10 : ℚ) ^ (lead - (19 : Nat)) < 2 ^ e := by
    rw [zpow_sub₀ (by norm_num), zpow_natCast, ← mul_div_assoc, div_lt_iff₀ (by positivity)]
    calc 2 * (10 : ℚ) ^ lead ≤ 2 * (m * 2 ^ e) := by gcongr
      _ < 2 * (2 ^ (f.fraction + 1) * 2 ^ e) := by gcongr
      _ = 2 ^ e * 2 ^ (f.fraction + 2) := by ring
      _ ≤ 2 ^ e * 10 ^ 19 := by gcongr
  exact (contains_iff hPos ..).mp (contains_search (by decide) (onGrid?_isSome tie hPos hFine))

end Decimal
end JvmDebug
