import ScopedScript.Number.Decimal

/-!
# Integers of sixty-four bits

Arithmetic is done on mathematical integers and fails when the result does not fit.
-/

namespace ScopedScript.Integer

/-- The integer as a word of sixty-four bits, if it fits. -/
def fit? (n : Int) : Option Int64 :=
  if Int64.minValue.toInt ≤ n ∧ n ≤ Int64.maxValue.toInt then some (Int64.ofInt n) else none

/-- The quotient rounded down, if there is one and it fits. -/
def floorDiv? (a b : Int64) : Option Int64 :=
  if b = 0 then none else fit? (a.toInt.fdiv b.toInt)

/-- The remainder that takes the sign of the divisor, if there is one. -/
def floorMod? (a b : Int64) : Option Int64 :=
  if b = 0 then none else fit? (a.toInt.fmod b.toInt)

/-- No number from here on fits, whatever its sign. -/
def bound : Nat := Nat.pow 2 64

/-- A sign and digits, if their value fits. -/
def ofDigits? (negative : Bool) (digits : List Char) : Option Int64 :=
  let n : Int := Decimal.natUpTo bound digits
  fit? (if negative then -n else n)

/-- An optional sign and at least one digit, of a value that fits. -/
def parse? (text : List Char) : Option Int64 :=
  let (negative, digits) := Decimal.splitSign text
  if digits ≠ [] ∧ digits.all Char.isDigit then ofDigits? negative digits else none

/-- The decimal digits, with a sign if negative. -/
def text (n : Int64) : String := toString n.toInt

/-- A word is the fit of its own value. -/
theorem fit?_toInt (n : Int64) : fit? n.toInt = some n := by
  have low := n.minValue_le_toInt
  have high := n.toInt_le
  simp only [fit?]
  rw [if_pos ⟨low, by simpa using high⟩, Int64.ofInt_toInt]

/-- What fits keeps its value. -/
theorem toInt_of_fit? {m : Int} {n : Int64} (h : fit? m = some n) : n.toInt = m := by
  unfold fit? at h
  split at h
  next hfits =>
    obtain rfl := Option.some.inj h
    have hlow : Int64.minValue.toInt = -2 ^ 63 := by decide
    have hhigh : Int64.maxValue.toInt = 2 ^ 63 - 1 := by decide
    exact Int64.toInt_ofInt_of_le (by omega) (by omega)
  next => contradiction

/-- What does not fit lies beyond all words, on the same side of them. -/
theorem beyond_of_fit?_eq_none {m : Int} (h : fit? m = none) :
    (∀ n : Int64, m < n.toInt) ∨ ∀ n : Int64, n.toInt < m := by
  unfold fit? at h
  split at h
  · contradiction
  next hbeyond =>
    by_cases hlow : m < Int64.minValue.toInt
    · exact .inl fun n => Int.lt_of_lt_of_le hlow n.minValue_le_toInt
    · refine .inr fun n => ?_
      have high : n.toInt ≤ Int64.maxValue.toInt := by simpa using n.toInt_le
      omega

/-- Nothing of a size not below `bound` fits. -/
theorem fit?_eq_none_of_bound_le {n : Int} (h : bound ≤ n.natAbs) : fit? n = none := by
  have size : bound = 18446744073709551616 := by decide
  have low : Int64.minValue.toInt = -9223372036854775808 := by decide
  have high : Int64.maxValue.toInt = 9223372036854775807 := by decide
  rw [fit?, if_neg]
  omega

/-- Reading no further than needed does not change which numbers fit. -/
theorem ofDigits?_eq (negative : Bool) (digits : List Char) :
    ofDigits? negative digits =
      fit? (if negative then -(Decimal.natOfDigits digits : Int)
        else (Decimal.natOfDigits digits : Int)) := by
  by_cases h : Decimal.natOfDigits digits < bound
  · simp only [ofDigits?, Decimal.natUpTo_of_lt h]
  · have far := Nat.not_lt.mp h
    have read := Decimal.le_natUpTo far
    rw [ofDigits?, fit?_eq_none_of_bound_le, fit?_eq_none_of_bound_le]
    all_goals cases negative <;> simpa

end ScopedScript.Integer
