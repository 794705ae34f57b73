/-!
# Binary floating-point numbers as whole multiples of a unit

Every finite `Float` is a whole multiple of `2 ^ (-1074)`, the least positive one. Counted in that
unit, rounding, truncation, remainders and comparison with integers are integer arithmetic, and a
result is rounded once, at the end.

A magnitude is the pattern of a number without its sign bit. The pattern `b` stands for
`m * 2 ^ k` units, where `k` is one less than the exponent field (zero if that field is zero) and
`m` is what is left of `b` after `k` steps of `2 ^ 52`; so magnitudes are ordered like the numbers
they stand for, and a carry out of a rounded significand moves on to the next exponent by itself.
-/

namespace ScopedScript.Binary

/-! ## Patterns -/

/-- The weight of the lowest exponent bit in a pattern. -/
def exponentUnit : Nat := Nat.pow 2 52

/-- The weight of the sign bit in a pattern. -/
def signUnit : Nat := Nat.pow 2 63

/-- The pattern of infinity, above those of all finite magnitudes. -/
def infinity : Nat := 2047 * exponentUnit

/-- The pattern of a number without its sign bit. -/
def magnitude (x : Float) : Nat := x.toBits.toNat % signUnit

/-- Whether the sign bit is set. -/
def isNegative (x : Float) : Bool := signUnit ≤ x.toBits.toNat

/-- Whether a number is neither infinite nor NaN. -/
def isFinite (x : Float) : Bool := magnitude x < infinity

/-- Whether a number is NaN. -/
def isNaN (x : Float) : Bool := infinity < magnitude x

/-- The number of a sign and a magnitude. -/
def ofMagnitude (negative : Bool) (pattern : Nat) : Float :=
  Float.ofBits (UInt64.ofNat (if negative then signUnit + pattern else pattern))

/-- Not a number. -/
def nan : Float := ofMagnitude false (infinity + exponentUnit / 2)

/-! ## Units -/

/-- How many units make one. -/
def one : Nat := Nat.pow 2 1074

/-- How often a pattern's significand is doubled. -/
def scale (pattern : Nat) : Nat := pattern / exponentUnit - 1

/-- The units that a finite pattern stands for. -/
def patternUnits (pattern : Nat) : Nat :=
  (pattern - scale pattern * exponentUnit) * Nat.pow 2 (scale pattern)

/-- A finite number as a count of units. -/
def units (x : Float) : Option Int :=
  if isFinite x then
    let count : Int := patternUnits (magnitude x)
    some (if isNegative x then -count else count)
  else none

/-- A quotient rounded to the nearest whole number, a tie going to the even one. -/
def roundHalfEven (num den : Nat) : Nat :=
  let quotient := num / den
  let rest := num % den
  if 2 * rest < den ∨ (2 * rest = den ∧ quotient % 2 = 0) then quotient else quotient + 1

/-- The pattern nearest to `num / den` units. The significand keeps 53 bits, or as many as there
are below that; what rounds past the largest finite number is infinite. -/
def nearestPattern (num den : Nat) : Nat :=
  let scale := (num / den).log2 - 52
  min infinity (scale * exponentUnit + roundHalfEven num (den * Nat.pow 2 scale))

/-- The number nearest to `num / den` units, with the given sign. -/
def nearest (negative : Bool) (num den : Nat) : Float :=
  ofMagnitude negative (nearestPattern num den)

/-! ## Whole numbers -/

/-- The number nearest to an integer. -/
def ofInt (n : Int) : Float :=
  nearest (n < 0) (n.natAbs * one) 1

/-- The integer part of a finite number, cut toward zero. -/
def truncate (x : Float) : Option Int :=
  (units x).map (·.tdiv one)

/-- What is cut off a finite number, in units; it takes the sign of the number. -/
def fraction (x : Float) : Option Int :=
  (units x).map (·.tmod one)

/-- The greatest whole number that is not above. Whole numbers, infinities and NaN are their own
floor. -/
def floor (x : Float) : Float :=
  match units x with
  | some count => if count % one = 0 then x else ofInt (count.fdiv one)
  | none => x

/-- The remainder of the division cut toward zero; it takes the sign of the dividend. -/
def remainder (x y : Float) : Float :=
  match units x, units y with
  | some a, some b =>
    if b = 0 then nan else nearest (isNegative x) (a.natAbs % b.natAbs) 1
  | some _, none => if isNaN y then nan else x
  | none, _ => nan

/-- The quotient rounded down. -/
def floorDiv (x y : Float) : Float := floor (x / y)

/-- The remainder that takes the sign of the divisor. -/
def floorMod (x y : Float) : Float :=
  let rest := remainder x y
  if rest != 0 && (decide (rest < 0) != decide (y < 0)) then rest + y else rest

/-! ## Order -/

/-- The whole counts of units, and an infinity on either side. -/
inductive Extended where
  | negativeInfinity
  /-- A count of units. -/
  | finite (count : Int)
  | positiveInfinity
  deriving DecidableEq

/-- The order of the extended counts. -/
def Extended.compare : Extended → Extended → Ordering
  | .negativeInfinity, .negativeInfinity => .eq
  | .negativeInfinity, _ => .lt
  | .finite _, .negativeInfinity => .gt
  | .finite a, .finite b => Ord.compare a b
  | .finite _, .positiveInfinity => .lt
  | .positiveInfinity, .positiveInfinity => .eq
  | .positiveInfinity, _ => .gt

/-- The exact value of a number; NaN has none. -/
def extended (x : Float) : Option Extended :=
  match units x with
  | some count => some (.finite count)
  | none =>
    if isNaN x then none
    else if isNegative x then some .negativeInfinity else some .positiveInfinity

/-- Two numbers in the order of their exact values; NaN has no place in it. -/
def compare (x y : Float) : Option Ordering := do
  return (← extended x).compare (← extended y)

/-- An integer of sixty-four bits and a number in the order of their exact values; NaN has no place
in it. The integer is never rounded: outside the range of such integers the number decides alone,
and inside it the integer parts decide, or else the fraction. -/
def compareInt (n : Int) (x : Float) : Option Ordering :=
  if isNaN x then none
  else if (compare x (-ofInt Int64.minValue.toInt)).any (·.isGE) then some .lt
  else if compare x (ofInt Int64.minValue.toInt) = some .lt then some .gt
  else do
    return (Ord.compare n (Int64.ofInt (← truncate x)).toInt).then
      (Ord.compare 0 (← fraction x))

/-! ## Rounding what needs none -/

/-- A quotient without rest needs no rounding. -/
theorem roundHalfEven_mul (n : Nat) {d : Nat} (h : 0 < d) : roundHalfEven (n * d) d = n := by
  simp [roundHalfEven, Nat.mul_div_cancel n h, h]

end ScopedScript.Binary
