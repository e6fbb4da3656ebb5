import JvmDebug.Decimal.Binary

/-!
# Shortest decimals

A finite floating-point number stands for an interval: all reals that round to it. Among the decimals in the interval
`shortest` finds one with the fewest digits, and of those the one nearest to the number. Where two are equally near, a
`Tie` decides.
-/

namespace JvmDebug
set_option autoImplicit false

namespace Decimal

/-- The decimal `digits * 10 ^ power`. -/
structure Scaled where
  digits : Nat
  power : Int
  deriving DecidableEq, Repr

/-- The quotient `num / den` counted in units of `10 ^ power`, as a quotient again. -/
def inUnits (num den : Nat) (power : Int) : Nat × Nat :=
  if 0 ≤ power then (num, den * Nat.pow 10 power.toNat) else (num * Nat.pow 10 (-power).toNat, den)

def digitCount (n : Nat) : Nat := (Nat.toDigits 10 n).length

/-- The power of ten of the first digit of a positive quotient. -/
def leadingPower (num den : Nat) : Int :=
  if den ≤ num then (digitCount (num / den) : Int) - 1
  else
    let j := digitCount (den / num)
    if den ≤ num * Nat.pow 10 (j - 1) then -((j : Int) - 1) else -(j : Int)

/-- The reals that round to a number: it lies at `value / den`, its borders at `low / den` and `high / den`, and the
borders themselves belong to it when `closed`. -/
structure Interval where
  low : Nat
  value : Nat
  high : Nat
  den : Nat
  closed : Bool

/-- The interval of `significand * 2 ^ power`. Just above a power of two the numbers below lie closer. -/
def Interval.of (f : Binary.Format) (significand : Nat) (power : Int) : Interval :=
  let narrow := significand = Nat.pow 2 f.fraction ∧ f.lowest < power
  let unit := Nat.pow 2 power.toNat
  { low := (4 * significand - if narrow then 1 else 2) * unit
    value := 4 * significand * unit
    high := (4 * significand + 2) * unit
    den := 4 * Nat.pow 2 (-power).toNat
    closed := significand % 2 = 0 }

/-- Whether `digits * 10 ^ power` lies in the interval. -/
def Interval.contains (i : Interval) (digits : Nat) (power : Int) : Bool :=
  let (low, d) := inUnits i.low i.den power
  let (high, _) := inUnits i.high i.den power
  if i.closed then low ≤ digits * d && digits * d ≤ high else low < digits * d && digits * d < high

/-- Which of two neighbours is taken for a number halfway between them: the even one, or the larger one. -/
inductive Tie where
  | toEven
  | up
  deriving DecidableEq, Repr

/-- The neighbour of the number halfway between `below` and the next. -/
def Tie.pick (below : Nat) : Tie → Nat
  | toEven => below + below % 2
  | up => below + 1

/-- The nearest decimal in the interval among the multiples of `10 ^ power`. -/
def Interval.onGrid? (i : Interval) (tie : Tie) (power : Int) : Option Nat :=
  let (n, d) := inUnits i.value i.den power
  let below := n / d
  let nearer := if 2 * (n % d) < d then below else if d < 2 * (n % d) then below + 1 else tie.pick below
  let other := 2 * below + 1 - nearer
  if i.contains nearer power then some nearer
  else if i.contains other power then some other
  else none

/-- The first grid, from `power` on towards finer ones, that has a point in the interval. -/
def Interval.search (i : Interval) (tie : Tie) : (steps : Nat) → (power : Int) → Scaled
  | 0, power => ⟨(inUnits i.value i.den power).1 / (inUnits i.value i.den power).2, power⟩
  | steps + 1, power =>
    match i.onGrid? tie power with
    | some digits => ⟨digits, power⟩
    | none => i.search tie steps (power - 1)

/-- Moves zeros at the end of the digits into the power of ten. -/
def Scaled.strip : (steps : Nat) → Scaled → Scaled
  | 0, s => s
  | steps + 1, s =>
    if s.digits % 10 = 0 && s.digits ≠ 0 then strip steps ⟨s.digits / 10, s.power + 1⟩ else s

/-- The shortest decimal that reads back as the positive number `significand * 2 ^ power`. -/
def shortest (f : Binary.Format) (tie : Tie) (significand : Nat) (power : Int) : Scaled :=
  let i := Interval.of f significand power
  Scaled.strip 20 (i.search tie 20 (leadingPower i.value i.den))

/-- A decimal without an exponent, and without a point if it is whole. -/
def Scaled.positional (s : Scaled) : String :=
  let text := (Nat.toDigits 10 s.digits)
  if 0 ≤ s.power then String.ofList (text ++ List.replicate s.power.toNat '0')
  else
    let places := (-s.power).toNat
    let padded := List.replicate (places + 1 - text.length) '0' ++ text
    let whole := padded.length - places
    String.ofList (padded.take whole ++ '.' :: padded.drop whole)

/-- A floating-point number with the fewest digits that read back, never with an exponent; a tie goes up. -/
def display (f : Binary.Format) (bits : Nat) : String :=
  match f.split bits with
  | .nan => "NaN"
  | .infinite negative => if negative then "-inf" else "inf"
  | .finite negative significand power =>
    let text := if significand = 0 then "0" else (shortest f .up significand power).positional
    if negative then "-" ++ text else text

end Decimal
end JvmDebug
