/-!
# Binary floating point

A floating-point number is known by its bits. `Format.split` takes them apart into a sign and a natural number times
a power of two; `Format.nearest` is the number closest to a quotient of natural numbers, a tie going to the even
significand.
-/

namespace JvmDebug
set_option autoImplicit false

namespace Binary

/-- The widths of a binary interchange format: stored bits of the significand and of the exponent. -/
structure Format where
  fraction : Nat
  exponent : Nat

def single : Format := ⟨23, 8⟩
def double : Format := ⟨52, 11⟩

/-- A floating-point number as sign, significand and power of two. -/
inductive Parts where
  | nan
  | infinite (negative : Bool)
  | finite (negative : Bool) (significand : Nat) (power : Int)
  deriving DecidableEq, Repr

namespace Format

/-- The power of two that the last place of the smallest numbers stands for. -/
def lowest (f : Format) : Int := 2 - Nat.pow 2 (f.exponent - 1) - f.fraction

/-- The exponent field that infinities and NaN carry. -/
def top (f : Format) : Nat := Nat.pow 2 f.exponent - 1

def split (f : Format) (bits : Nat) : Parts :=
  let fractionField := bits % Nat.pow 2 f.fraction
  let exponentField := bits / Nat.pow 2 f.fraction % Nat.pow 2 f.exponent
  let negative := bits / Nat.pow 2 (f.fraction + f.exponent) % 2 = 1
  if exponentField = f.top then
    if fractionField = 0 then .infinite negative else .nan
  else if exponentField = 0 then .finite negative fractionField f.lowest
  else .finite negative (Nat.pow 2 f.fraction + fractionField) (f.lowest + exponentField - 1)

/-- The quotient rounded to a whole number, a tie to the even one. -/
def roundEven (num den : Nat) : Nat :=
  let q := num / den
  let r := num % den
  if 2 * r < den then q else if den < 2 * r then q + 1 else q + q % 2

/-- The quotient `num / den` counted in units of `2 ^ power`, as a quotient again. -/
def inUnits (num den : Nat) (power : Int) : Nat × Nat :=
  if 0 ≤ power then (num, den * Nat.pow 2 power.toNat) else (num * Nat.pow 2 (-power).toNat, den)

/-- The power of two of the last place that a number of the size of `num / den` has. -/
def placeOf (f : Format) (num den : Nat) : Int :=
  let guess := (num.log2 : Int) - den.log2 - f.fraction
  let (n, d) := inUnits num den guess
  let power := if n / d < Nat.pow 2 f.fraction then guess - 1 else guess
  max power f.lowest

/-- The bits, without a sign, of the number nearest to `num / den`; too large a quotient gives infinity. -/
def nearest (f : Format) (num den : Nat) : Nat :=
  if num = 0 then 0
  else
    let power := f.placeOf num den
    let (n, d) := inUnits num den power
    let m := roundEven n d
    -- A significand that rounds up to the next power of two carries into the exponent field by itself.
    let bits := m + (power - f.lowest).toNat * Nat.pow 2 f.fraction
    min bits (f.top * Nat.pow 2 f.fraction)

end Format

/-- A 64-bit floating-point number, by its bits. -/
structure Double where
  bits : UInt64
  deriving DecidableEq, Repr

namespace Double

def parts (x : Double) : Parts := double.split x.bits.toNat

def ofRatio (negative : Bool) (num den : Nat) : Double :=
  ⟨(double.nearest num den + if negative then 0x8000000000000000 else 0).toUInt64⟩

end Double
end Binary
end JvmDebug
