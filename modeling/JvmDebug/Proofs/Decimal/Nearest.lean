import JvmDebug.Decimal.Binary
import Mathlib.Algebra.Order.Field.Power
import Mathlib.Tactic.FieldSimp
import Mathlib.Tactic.Linarith
import Mathlib.Tactic.NormNum
import Mathlib.Tactic.Positivity
import Mathlib.Tactic.Ring

/-!
# Rounding to the nearest number

Each finite floating-point number has an interval of quotients around it. Whatever lies in that interval is rounded to
the number, however the quotient is written.
-/

namespace JvmDebug
set_option autoImplicit false

/-- What it is to count a quotient in units of a power. -/
theorem units_spec {base num den : Nat} (hBase : 0 < base) (hDen : 0 < den) (power : Int) {n d : Nat}
    (h : (if 0 ≤ power then (num, den * Nat.pow base power.toNat) else (num * Nat.pow base (-power).toNat, den)) = (n, d)) :
    0 < d ∧ (n : ℚ) = (num / den : ℚ) / (base : ℚ) ^ power * d := by
  have hDen' : (den : ℚ) ≠ 0 := by positivity
  have hBase' : (base : ℚ) ≠ 0 := by positivity
  split at h
  · next hPower =>
    obtain ⟨k, rfl⟩ := Int.eq_ofNat_of_zero_le hPower
    obtain ⟨rfl, rfl⟩ := Prod.mk.inj h
    constructor
    · exact Nat.mul_pos hDen (Nat.pow_pos hBase)
    · simp only [Int.toNat_natCast, Nat.pow_eq, Nat.cast_mul, Nat.cast_pow, zpow_natCast]
      field_simp
  · next hPower =>
    obtain ⟨k, rfl⟩ : ∃ k : Nat, power = -k := ⟨(-power).toNat, by omega⟩
    obtain ⟨rfl, rfl⟩ := Prod.mk.inj h
    constructor
    · exact hDen
    · simp only [neg_neg, Int.toNat_natCast, Nat.pow_eq, Nat.cast_mul, Nat.cast_pow, zpow_neg, zpow_natCast]
      field_simp

namespace Binary.Format

variable (f : Format)

theorem inUnits_spec (num : Nat) {den : Nat} (hDen : 0 < den) (power : Int) :
    0 < (inUnits num den power).2 ∧
      ((inUnits num den power).1 : ℚ) = (num / den : ℚ) / 2 ^ power * (inUnits num den power).2 :=
  units_spec (by decide) hDen power rfl

/-- A quotient that lies no farther from a whole number than one half is rounded to it; at just one half the number has
to be even. -/
theorem roundEven_eq {n d m : Nat} (hd : 0 < d) (hLow : 2 * m * d ≤ 2 * n + d) (hHigh : 2 * n ≤ (2 * m + 1) * d)
    (hOdd : m % 2 = 1 → 2 * m * d < 2 * n + d ∧ 2 * n < (2 * m + 1) * d) : roundEven n d = m := by
  have hDiv : d * (n / d) + n % d = n := Nat.div_add_mod n d
  have hRest : n % d < d := Nat.mod_lt n hd
  rw [roundEven]
  generalize n / d = q at *
  generalize n % d = r at *
  subst hDiv
  have hUp : m < q + 2 := by
    by_contra h
    nlinarith
  have hDown : q < m + 1 := by
    by_contra h
    nlinarith
  obtain rfl | rfl : m = q ∨ m = q + 1 := by omega
  · have hHalf : 2 * r ≤ d := by nlinarith
    split
    · rfl
    · split
      · omega
      · have hTie : ¬ m % 2 = 1 := fun h => by
          have hLess := (hOdd h).2
          nlinarith
        omega
  · have hHalf : d ≤ 2 * r := by nlinarith
    split
    · omega
    · split
      · rfl
      · have hTie : ¬ (q + 1) % 2 = 1 := fun h => by
          have hLess := (hOdd h).1
          nlinarith
        omega

/-! Places -/

/-- The power of two that the last place of a quotient stands for. -/
structure IsPlace (q : ℚ) (power : Int) : Prop where
  lowest_le : f.lowest ≤ power
  lt : q < 2 ^ (power + f.fraction + 1)
  le : power = f.lowest ∨ (2 : ℚ) ^ (power + f.fraction) ≤ q

variable {f}

theorem IsPlace.unique {q : ℚ} {p p' : Int} (h : f.IsPlace q p) (h' : f.IsPlace q p') : p = p' := by
  have hHalf : ∀ {p p' : Int}, f.IsPlace q p → f.IsPlace q p' → ¬ p < p' := by
    intro p p' h h' hLess
    rcases h'.le with hLowest | hLe
    · have hLow := h.lowest_le
      omega
    · have hPowers := (zpow_lt_zpow_iff_right₀ (by norm_num : (1 : ℚ) < 2)).mp (hLe.trans_lt h.lt)
      omega
  have hNot := hHalf h h'
  have hNot' := hHalf h' h
  omega

theorem log2_bounds {n : Nat} (h : 0 < n) : (2 : ℚ) ^ (n.log2 : Int) ≤ n ∧ (n : ℚ) < 2 ^ ((n.log2 : Int) + 1) := by
  constructor
  · rw [zpow_natCast]
    exact_mod_cast Nat.log2_self_le (by omega)
  · have hCast : ((n.log2 : Int) + 1) = ((n.log2 + 1 : Nat) : Int) := by omega
    rw [hCast, zpow_natCast]
    exact_mod_cast Nat.lt_log2_self

/-- A quotient lies within a factor of two of the quotient of the leading powers. -/
theorem quotient_bounds {num den : Nat} (hNum : 0 < num) (hDen : 0 < den) :
    (2 : ℚ) ^ ((num.log2 : Int) - den.log2 - 1) < num / den ∧
      (num / den : ℚ) < 2 ^ ((num.log2 : Int) - den.log2 + 1) := by
  obtain ⟨hNumLe, hNumLt⟩ := log2_bounds hNum
  obtain ⟨hDenLe, hDenLt⟩ := log2_bounds hDen
  have hTwo : (2 : ℚ) ≠ 0 := by norm_num
  have hDen' : (0 : ℚ) < den := by exact_mod_cast hDen
  constructor
  · rw [lt_div_iff₀ hDen']
    calc (2 : ℚ) ^ ((num.log2 : Int) - den.log2 - 1) * den
        < 2 ^ ((num.log2 : Int) - den.log2 - 1) * 2 ^ ((den.log2 : Int) + 1) := by gcongr
      _ = 2 ^ (num.log2 : Int) := by rw [← zpow_add₀ hTwo]; congr 1; omega
      _ ≤ num := hNumLe
  · rw [div_lt_iff₀ hDen']
    calc (num : ℚ) < 2 ^ ((num.log2 : Int) + 1) := hNumLt
      _ = 2 ^ ((num.log2 : Int) - den.log2 + 1) * 2 ^ (den.log2 : Int) := by rw [← zpow_add₀ hTwo]; congr 1; omega
      _ ≤ 2 ^ ((num.log2 : Int) - den.log2 + 1) * den := by gcongr

/-- Whether a quotient in units has fewer digits than the significand is decided by its whole part. -/
theorem whole_lt_iff {num den : Nat} (hDen : 0 < den) (power : Int) :
    (inUnits num den power).1 / (inUnits num den power).2 < Nat.pow 2 f.fraction ↔
      (num / den : ℚ) < 2 ^ (power + f.fraction) := by
  obtain ⟨hUnit, hValue⟩ := inUnits_spec num hDen power
  generalize (inUnits num den power).1 = n at *
  generalize (inUnits num den power).2 = d at *
  have hUnit' : (0 : ℚ) < d := by exact_mod_cast hUnit
  have hPower : (0 : ℚ) < 2 ^ power := by positivity
  rw [Nat.div_lt_iff_lt_mul hUnit, Nat.pow_eq, zpow_add₀ (by norm_num), zpow_natCast]
  have hCast : n < 2 ^ f.fraction * d ↔ (n : ℚ) < 2 ^ f.fraction * d := by exact_mod_cast Iff.rfl
  rw [hCast, hValue, mul_lt_mul_iff_left₀ hUnit', div_lt_iff₀ hPower, mul_comm]

/-- The place that is found is the place. -/
theorem isPlace_placeOf {num den : Nat} (hNum : 0 < num) (hDen : 0 < den) :
    f.IsPlace (num / den) (f.placeOf num den) := by
  obtain ⟨hAbove, hBelow⟩ := quotient_bounds hNum hDen
  have hMono : ∀ {a b : Int}, a ≤ b → (2 : ℚ) ^ a ≤ 2 ^ b := fun h => zpow_le_zpow_right₀ (by norm_num) h
  -- Before the lowest place comes in, the quotient has just the digits of a significand.
  obtain ⟨power, hPower, hLe, hLt⟩ : ∃ power : Int, f.placeOf num den = max power f.lowest ∧
      (2 : ℚ) ^ (power + f.fraction) ≤ num / den ∧ (num / den : ℚ) < 2 ^ (power + f.fraction + 1) := by
    let guess : Int := (num.log2 : Int) - den.log2 - f.fraction
    refine ⟨if (inUnits num den guess).1 / (inUnits num den guess).2 < Nat.pow 2 f.fraction then guess - 1 else guess,
      rfl, ?_⟩
    split
    · next h =>
      have hLess := (whole_lt_iff hDen guess).mp h
      exact ⟨(hMono (by omega)).trans hAbove.le, hLess.trans_le (hMono (by omega))⟩
    · next h =>
      have hNotLess := mt (whole_lt_iff hDen guess).mpr h
      exact ⟨not_lt.mp hNotLess, hBelow.trans_le (hMono (by omega))⟩
  rw [hPower]
  refine ⟨le_max_right .., hLt.trans_le (hMono ?_), ?_⟩
  · have hMax := le_max_left power f.lowest
    omega
  · rcases le_total power f.lowest with h | h
    · exact .inl (max_eq_right h)
    · rw [max_eq_left h]
      exact .inr hLe

/-! Intervals -/

/-- The quotients that are rounded to `m * 2 ^ e`: those that lie no farther from it than halfway to the next number. Just
above a power of two the numbers below lie closer. The borders belong to even significands. -/
structure Near (f : Format) (m : Nat) (e : Int) (q : ℚ) : Prop where
  low : (4 * m - (if m = 2 ^ f.fraction ∧ f.lowest < e then 1 else 2) : ℚ) * 2 ^ e ≤ 4 * q
  high : 4 * q ≤ (4 * m + 2) * 2 ^ e
  strict : m % 2 = 1 →
    (4 * m - (if m = 2 ^ f.fraction ∧ f.lowest < e then 1 else 2) : ℚ) * 2 ^ e < 4 * q ∧ 4 * q < (4 * m + 2) * 2 ^ e

/-- The significands and the powers of two of the finite numbers. -/
structure IsNumber (f : Format) (m : Nat) (e : Int) : Prop where
  lowest_le : f.lowest ≤ e
  lt : m < 2 ^ (f.fraction + 1)
  le : e = f.lowest ∨ 2 ^ f.fraction ≤ m

/-- What is rounded to a whole number of units, told by the quotient. -/
theorem roundEven_inUnits {m : Nat} {e : Int} {num den : Nat} {q : ℚ} (hDen : 0 < den) (hq : (num / den : ℚ) = q)
    (hLow : (4 * m - 2 : ℚ) * 2 ^ e ≤ 4 * q) (hHigh : 4 * q ≤ (4 * m + 2) * 2 ^ e)
    (hOdd : m % 2 = 1 → (4 * m - 2 : ℚ) * 2 ^ e < 4 * q ∧ 4 * q < (4 * m + 2) * 2 ^ e) :
    roundEven (inUnits num den e).1 (inUnits num den e).2 = m := by
  obtain ⟨hUnit, hValue⟩ := inUnits_spec num hDen e
  generalize (inUnits num den e).1 = n at *
  generalize (inUnits num den e).2 = d at *
  have hUnit' : (0 : ℚ) < d := by exact_mod_cast hUnit
  have hPower : (0 : ℚ) < 2 ^ e := by positivity
  -- In units of the place, the quotient is `x`.
  obtain ⟨x, hx⟩ : ∃ x : ℚ, q = x * 2 ^ e := ⟨q / 2 ^ e, by field_simp⟩
  rw [hq, hx, mul_div_assoc, div_self hPower.ne', mul_one] at hValue
  rw [hx, ← mul_assoc] at hLow hHigh
  have hLow := le_of_mul_le_mul_right hLow hPower
  have hHigh := le_of_mul_le_mul_right hHigh hPower
  refine roundEven_eq hUnit ?_ ?_ fun h => ?_
  · have hCast : (2 * m * d : ℚ) ≤ 2 * n + d := by rw [hValue]; nlinarith
    exact_mod_cast hCast
  · have hCast : (2 * n : ℚ) ≤ (2 * m + 1) * d := by rw [hValue]; nlinarith
    exact_mod_cast hCast
  · obtain ⟨hLess, hMore⟩ := hOdd h
    rw [hx, ← mul_assoc] at hLess hMore
    have hLess := lt_of_mul_lt_mul_right hLess hPower.le
    have hMore := lt_of_mul_lt_mul_right hMore hPower.le
    constructor
    · have hCast : (2 * m * d : ℚ) < 2 * n + d := by rw [hValue]; nlinarith
      exact_mod_cast hCast
    · have hCast : (2 * n : ℚ) < (2 * m + 1) * d := by rw [hValue]; nlinarith
      exact_mod_cast hCast

/-- The place of a quotient in the interval of a number is that of the number, or just below a power of two one less. -/
theorem Near.place {m : Nat} {e : Int} {q : ℚ} (hNumber : f.IsNumber m e) (h : f.Near m e q) :
    f.IsPlace q e ∨ (m = 2 ^ f.fraction ∧ f.lowest < e ∧ q < 2 ^ (e + f.fraction) ∧ f.IsPlace q (e - 1)) := by
  have hPower : (0 : ℚ) < 2 ^ e := by positivity
  have hSplit : (2 : ℚ) ^ (e + f.fraction) = 2 ^ f.fraction * 2 ^ e := by
    rw [zpow_add₀ (by norm_num), zpow_natCast, mul_comm]
  have hBelow : q < 2 ^ (e + f.fraction + 1) := by
    have hSize : (m : ℚ) + 1 ≤ 2 ^ (f.fraction + 1) := by exact_mod_cast hNumber.lt
    have hHigh := h.high
    rw [zpow_add_one₀ (by norm_num), hSplit]
    rw [pow_succ] at hSize
    nlinarith
  by_cases hPlace : e = f.lowest ∨ (2 : ℚ) ^ (e + f.fraction) ≤ q
  · exact .inl ⟨hNumber.lowest_le, hBelow, hPlace⟩
  · obtain ⟨hNotLowest, hLess⟩ := not_or.mp hPlace
    have hAbove : f.lowest < e := lt_of_le_of_ne hNumber.lowest_le (Ne.symm hNotLowest)
    have hLess := not_le.mp hLess
    have hFull : 2 ^ f.fraction ≤ m := hNumber.le.resolve_left hNotLowest
    have hFull' : (2 : ℚ) ^ f.fraction ≤ m := by exact_mod_cast hFull
    have hLow := h.low
    have hSame : m = 2 ^ f.fraction := by
      have hUpper : (m : ℚ) < 2 ^ f.fraction + 1 := by
        rw [hSplit] at hLess
        split at hLow <;> nlinarith
      have hUpper' : m < 2 ^ f.fraction + 1 := by exact_mod_cast hUpper
      omega
    refine .inr ⟨hSame, hAbove, hLess, by omega, by rwa [show e - 1 + f.fraction + 1 = e + f.fraction by omega], .inr ?_⟩
    rw [if_pos ⟨hSame, hAbove⟩] at hLow
    have hHalf : (2 : ℚ) ^ (e - 1 + f.fraction) * 2 = 2 ^ f.fraction * 2 ^ e := by
      rw [← hSplit, ← zpow_add_one₀ (by norm_num)]
      congr 1
      omega
    have hOne : (1 : ℚ) ≤ 2 ^ f.fraction := one_le_pow₀ (by norm_num)
    nlinarith

/-- A quotient in the interval of a number is rounded to the number. -/
theorem nearest_eq {m : Nat} {e : Int} {num den : Nat} {q : ℚ} (hNum : 0 < num) (hDen : 0 < den)
    (hq : (num / den : ℚ) = q) (hNumber : f.IsNumber m e) (hNear : f.Near m e q) :
    f.nearest num den = min (m + (e - f.lowest).toNat * 2 ^ f.fraction) (f.top * 2 ^ f.fraction) := by
  have hFound := isPlace_placeOf hNum hDen (f := f)
  rw [hq] at hFound
  have hPower : (0 : ℚ) < 2 ^ e := by positivity
  rw [nearest, if_neg (by omega)]
  simp only [Nat.pow_eq]
  rcases hNear.place hNumber with hPlace | ⟨hSame, hAbove, hLess, hPlace⟩
  · rw [hFound.unique hPlace]
    have hLow : (4 * m - 2 : ℚ) * 2 ^ e ≤ 4 * q := by
      have hBorder := hNear.low
      split at hBorder <;> nlinarith
    have hRounds := roundEven_inUnits hDen hq hLow hNear.high fun hOdd => by
      obtain ⟨hBorder, hHigh⟩ := hNear.strict hOdd
      refine ⟨?_, hHigh⟩
      split at hBorder <;> nlinarith
    rw [hRounds]
  · -- The significand is rounded up to the next power of two, and carries.
    rw [hFound.unique hPlace]
    have hHalf : (2 : ℚ) ^ (e - 1) * 2 = 2 ^ e := by
      rw [← zpow_add_one₀ (by norm_num)]
      congr 1
      omega
    have hLess' : q < m * 2 ^ e := by
      rw [zpow_add₀ (by norm_num), zpow_natCast, mul_comm] at hLess
      rw [hSame]
      exact_mod_cast hLess
    have hLow := hNear.low
    rw [if_pos ⟨hSame, hAbove⟩] at hLow
    have hRounds := roundEven_inUnits (m := 2 * m) (e := e - 1) hDen hq
      (by push_cast; nlinarith) (by push_cast; nlinarith) (fun hOdd => by omega)
    have hSteps : (e - f.lowest).toNat = (e - 1 - f.lowest).toNat + 1 := by omega
    rw [hRounds, hSteps, Nat.add_mul, Nat.one_mul, ← hSame]
    congr 1
    omega

end Binary.Format

/-! Doubles -/

namespace Binary.Double

variable {x : Double} {negative : Bool} {m : Nat} {e : Int}

/-- The bits of a finite number, told by its parts. -/
theorem bits_of_parts (h : x.parts = .finite negative m e) :
    double.IsNumber m e ∧ m + (e - double.lowest).toNat * 2 ^ 52 < 2047 * 2 ^ 52 ∧
      x.bits.toNat = m + (e - double.lowest).toNat * 2 ^ 52 + if negative then 2 ^ 63 else 0 := by
  have hBits : x.bits.toNat < 2 ^ 64 := x.bits.toNat_lt
  have hLowest : double.lowest = -1074 := rfl
  have hTop : double.top = 2047 := rfl
  have hSizes : double.fraction = 52 ∧ double.exponent = 11 := ⟨rfl, rfl⟩
  have hSign : ∀ bits : Nat, (if decide (bits / 2 ^ (52 + 11) % 2 = 1) then 2 ^ 63 else 0) = bits / 2 ^ 63 % 2 * 2 ^ 63 := by
    intro bits
    by_cases hOne : bits / 2 ^ (52 + 11) % 2 = 1
    · rw [if_pos (decide_eq_true hOne)]
      omega
    · rw [if_neg (by simpa using hOne)]
      omega
  rw [parts, Format.split] at h
  generalize x.bits.toNat = bits at *
  split at h
  · split at h <;> cases h
  · next hNotTop =>
    rw [hTop] at hNotTop
    simp only [Nat.pow_eq, hSizes] at hNotTop h
    split at h
    · next hLow =>
      obtain ⟨rfl, rfl, rfl⟩ := Parts.finite.inj h
      have hSteps : (double.lowest - double.lowest).toNat = 0 := by rw [sub_self, Int.toNat_zero]
      rw [hSteps, hSign]
      refine ⟨⟨le_rfl, ?_, .inl rfl⟩, ?_, ?_⟩
      · rw [hSizes.1]
        omega
      · omega
      · omega
    · next hHigh =>
      obtain ⟨rfl, rfl, rfl⟩ := Parts.finite.inj h
      generalize hField : bits / 2 ^ 52 % 2 ^ 11 = field at *
      have hSteps : (double.lowest + field - 1 - double.lowest).toNat = field - 1 := by rw [hLowest]; omega
      rw [hSteps, hSign]
      refine ⟨⟨?_, ?_, .inr ?_⟩, ?_, ?_⟩
      · rw [hLowest]
        omega
      · rw [hSizes.1]
        omega
      · rw [hSizes.1]
        omega
      · omega
      · omega

theorem ofRatio_of_nearest {num den : Nat} (h : x.parts = .finite negative m e)
    (hNearest : double.nearest num den = m + (e - double.lowest).toNat * 2 ^ 52) : ofRatio negative num den = x := by
  obtain ⟨-, hLess, hBits⟩ := bits_of_parts h
  have hSame : (ofRatio negative num den).bits.toNat = x.bits.toNat := by
    change (double.nearest num den + if negative then 0x8000000000000000 else 0) % 2 ^ 64 = _
    rw [hNearest, hBits]
    split <;> omega
  obtain ⟨bits⟩ := x
  exact congrArg Double.mk (UInt64.toNat_inj.mp hSame)

/-- A quotient in the interval of a finite number is rounded to the number. -/
theorem ofRatio_of_near {num den : Nat} {q : ℚ} (h : x.parts = .finite negative m e) (hNum : 0 < num) (hDen : 0 < den)
    (hq : (num / den : ℚ) = q) (hNear : double.Near m e q) : ofRatio negative num den = x := by
  obtain ⟨hNumber, hLess, -⟩ := bits_of_parts h
  have hNearest := Format.nearest_eq hNum hDen hq hNumber hNear
  exact ofRatio_of_nearest h (hNearest.trans (min_eq_left hLess.le))

theorem ofRatio_of_zero (h : x.parts = .finite negative 0 e) (den : Nat) : ofRatio negative 0 den = x := by
  obtain ⟨hNumber, -, -⟩ := bits_of_parts h
  have hLowest : e = double.lowest := hNumber.le.resolve_right (by decide)
  have hSteps : (e - double.lowest).toNat = 0 := by rw [hLowest, sub_self, Int.toNat_zero]
  refine ofRatio_of_nearest h ?_
  rw [hSteps]
  rfl

end Binary.Double
end JvmDebug
