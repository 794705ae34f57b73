import Mathlib.Algebra.Order.Field.Basic
import Mathlib.Data.Rat.Cast.Order
import Mathlib.Tactic.FieldSimp
import Mathlib.Tactic.Linarith
import ScopedScript.Proofs.Number.Literal

/-!
# Rounded numbers are the nearest ones

The number that a quotient of units is rounded to is the nearest one, and of two equally near ones
the one with the even pattern. Numbers around a count of units are whole multiples of a step, which
grows with them; so it is enough to be within half a step, and whether a significand is depends only
on which halves of steps lie below and above the count.

A decimal is read from its first digits and a single one that stands for all others. Whatever the
others are, no half of a step lies between the two decimals, because the digits of a half of a step
end before them. So the number is the nearest to the decimal with all its digits.
-/

namespace ScopedScript.Binary

/-! ## Values of patterns -/

/-- The value of a pattern, as if there was no greatest one. -/
def value (pattern : Nat) : ℚ := patternUnits pattern / one

/-- A pattern is the nearest to a value: no other one is nearer, and if another one is equally near
then it is the even one of the two. -/
structure IsNearest (pattern : Nat) (x : ℚ) : Prop where
  nearest : ∀ other, |value pattern - x| ≤ |value other - x|
  /-- A tie goes to the even one. -/
  even : ∀ other ≠ pattern, |value other - x| = |value pattern - x| → pattern % 2 = 0

theorem exponentUnit_eq : exponentUnit = 2 ^ 52 := rfl

protected theorem one_pos : 0 < one := by
  rw [one, Nat.pow_eq]
  exact Nat.two_pow_pos _

/-- A significand that was doubled some times. -/
theorem patternUnits_eq {s m : Nat} (hle : m ≤ 2 * exponentUnit) (hge : 0 < s → exponentUnit ≤ m) :
    patternUnits (s * exponentUnit + m) = m * 2 ^ s := by
  have hunit : exponentUnit = 4503599627370496 := by decide
  by_cases htop : m = 2 * exponentUnit
  · have hscale : scale (s * exponentUnit + m) = s + 1 := by
      simp only [scale, htop, hunit]
      omega
    simp only [patternUnits, hscale, Nat.pow_eq]
    rw [show s * exponentUnit + m - (s + 1) * exponentUnit = exponentUnit by
      rw [htop, hunit]; omega, htop, Nat.pow_succ]
    ring
  · have hscale : scale (s * exponentUnit + m) = s := by
      simp only [scale, hunit] at *
      omega
    simp only [patternUnits, hscale, Nat.pow_eq, Nat.add_sub_cancel_left]

/-- Patterns stand for different counts of units. -/
theorem patternUnits_injective {a b : Nat} (h : patternUnits a = patternUnits b) : a = b := by
  have hscale : scale a = scale b := by rw [← log2_patternUnits a, ← log2_patternUnits b, h]
  obtain ⟨ha, _⟩ := @significand_bounds a
  obtain ⟨hb, _⟩ := @significand_bounds b
  simp only [patternUnits, hscale, Nat.pow_eq] at h
  have hsig := Nat.eq_of_mul_eq_mul_right (Nat.two_pow_pos _) h
  rw [hscale] at ha
  omega

/-- A pattern with a larger exponent stands for a multiple of a step. -/
theorem exists_patternUnits_eq {pattern s : Nat} (h : s = 0 ∨ (s + 1) * exponentUnit ≤ pattern) :
    ∃ k, patternUnits pattern = k * 2 ^ s := by
  have hle : s ≤ scale pattern := by
    obtain rfl | h := h
    · exact Nat.zero_le _
    · have hunit : exponentUnit = 4503599627370496 := by decide
      simp only [scale, hunit] at *
      omega
  refine ⟨(pattern - scale pattern * exponentUnit) * 2 ^ (scale pattern - s), ?_⟩
  rw [patternUnits, Nat.pow_eq, Nat.mul_assoc, ← Nat.pow_add, Nat.sub_add_cancel hle]

/-- A pattern with a smaller exponent stays half a step below the next power of two. -/
theorem patternUnits_add_le {pattern s : Nat} (h : pattern < (s + 2) * exponentUnit) :
    patternUnits pattern + 2 ^ s ≤ exponentUnit * 2 ^ (s + 1) := by
  obtain ⟨_, hlt, _⟩ := @significand_bounds pattern
  have hscale : scale pattern ≤ s := by
    have hunit : exponentUnit = 4503599627370496 := by decide
    simp only [scale, hunit] at *
    omega
  have hpow : 2 ^ scale pattern ≤ 2 ^ s := Nat.pow_le_pow_right (by decide) hscale
  simp only [patternUnits, Nat.pow_eq, Nat.pow_succ]
  generalize pattern - scale pattern * exponentUnit = sig at hlt
  calc sig * 2 ^ scale pattern + 2 ^ s
      ≤ sig * 2 ^ s + 2 ^ s := Nat.add_le_add_right (Nat.mul_le_mul_left _ hpow) _
    _ = (sig + 1) * 2 ^ s := by ring
    _ ≤ 2 * exponentUnit * 2 ^ s := Nat.mul_le_mul_right _ hlt
    _ = exponentUnit * (2 ^ s * 2) := by ring

/-! ## Within half a step -/

/-- A significand that is doubled some times is within half a step of a count of units, and even if
it is just half a step away. Steps are doubled only where the count is large enough for it. -/
structure Rounds (s m : Nat) (y : ℚ) : Prop where
  /-- The significand is at most the one at which steps are doubled again. -/
  le : m ≤ 2 * exponentUnit
  /-- Where steps are doubled, the significand is at least the least one there, and so is the
  count. -/
  ge : 0 < s → exponentUnit ≤ m ∧ (exponentUnit * 2 ^ s : ℚ) ≤ y
  close : |(m * 2 ^ s : ℚ) - y| ≤ 2 ^ s / 2
  even : |(m * 2 ^ s : ℚ) - y| = 2 ^ s / 2 → m % 2 = 0

section Rounds

variable {s m : Nat} {y : ℚ}

/-- Every other pattern is at least half a step away. -/
theorem Rounds.le_other (h : Rounds s m y) {other : Nat} (hne : other ≠ s * exponentUnit + m) :
    (2 ^ s / 2 : ℚ) ≤ |(patternUnits other : ℚ) - y| := by
  have hunits := patternUnits_eq h.le fun hs => (h.ge hs).1
  by_cases hgrid : s = 0 ∨ (s + 1) * exponentUnit ≤ other
  · -- Two multiples of a step are a step apart.
    obtain ⟨k, hk⟩ := exists_patternUnits_eq hgrid
    have hkm : (k : ℤ) ≠ m := by
      intro heq
      refine hne (patternUnits_injective ?_)
      rw [hk, hunits, Int.ofNat.inj heq]
    have hone : (1 : ℚ) ≤ |(k : ℚ) - m| := by
      have hle := Int.one_le_abs (sub_ne_zero.mpr hkm)
      exact_mod_cast hle
    have hstep : (2 ^ s : ℚ) ≤ |(k * 2 ^ s : ℚ) - m * 2 ^ s| := by
      rw [← sub_mul, abs_mul, abs_of_pos (by positivity : (0 : ℚ) < 2 ^ s)]
      exact le_mul_of_one_le_left (by positivity) hone
    have htriangle := abs_sub_le (k * 2 ^ s : ℚ) y (m * 2 ^ s)
    have hclose := h.close
    rw [abs_sub_comm] at hclose
    rw [hk]
    push_cast
    linarith
  · -- The count is at least a power of two, and smaller exponents stay below.
    push Not at hgrid
    obtain ⟨less, rfl⟩ : ∃ less, s = less + 1 := ⟨s - 1, by omega⟩
    have hbelow : ((patternUnits other + 2 ^ less : Nat) : ℚ) ≤
        ((exponentUnit * 2 ^ (less + 1) : Nat) : ℚ) :=
      Nat.cast_le.mpr (patternUnits_add_le hgrid.2)
    have hy := (h.ge (Nat.succ_pos _)).2
    push_cast at hbelow hy
    rw [abs_sub_comm]
    refine le_trans ?_ (le_abs_self _)
    rw [pow_succ, mul_div_cancel_right₀ _ two_ne_zero]
    linarith

/-- What is within half a step is the nearest. -/
theorem Rounds.isNearest (h : Rounds s m y) : IsNearest (s * exponentUnit + m) (y / one) := by
  have hone : (0 : ℚ) < one := Nat.cast_pos.mpr Binary.one_pos
  have hvalue : ∀ pattern,
      |value pattern - y / one| = |(patternUnits pattern : ℚ) - y| / one := by
    intro pattern
    rw [value, ← sub_div, abs_div, abs_of_pos hone]
  have hown : |(patternUnits (s * exponentUnit + m) : ℚ) - y| ≤ 2 ^ s / 2 := by
    rw [patternUnits_eq h.le fun hs => (h.ge hs).1]
    push_cast
    exact h.close
  constructor
  · intro other
    by_cases hne : other = s * exponentUnit + m
    · rw [hne]
    · rw [hvalue, hvalue]
      exact div_le_div_of_nonneg_right (hown.trans (h.le_other hne)) hone.le
  · intro other hne heq
    rw [hvalue, hvalue, div_left_inj' hone.ne'] at heq
    have hhalf := le_antisymm hown (heq ▸ h.le_other hne)
    rw [patternUnits_eq h.le fun hs => (h.ge hs).1] at hhalf
    push_cast at hhalf
    have heven := h.even hhalf
    have hunit : exponentUnit = 4503599627370496 := by decide
    rw [hunit]
    omega

/-- Whether a significand is within half a step depends only on the halves of steps below and above
the count. -/
theorem Rounds.congr (h : Rounds s m y) {z : ℚ}
    (hle : ∀ j : ℤ, j * (2 ^ s / 2) ≤ y ↔ j * (2 ^ s / 2) ≤ z)
    (hge : ∀ j : ℤ, y ≤ j * (2 ^ s / 2) ↔ z ≤ j * (2 ^ s / 2)) : Rounds s m z := by
  have hlow : ∀ x : ℚ, (m * 2 ^ s : ℚ) - x ≤ 2 ^ s / 2 ↔
      ((2 * m - 1 : ℤ) : ℚ) * (2 ^ s / 2) ≤ x := by
    intro x
    push_cast
    constructor <;> intro hx <;> linarith
  have hhigh : ∀ x : ℚ, -(2 ^ s / 2) ≤ (m * 2 ^ s : ℚ) - x ↔
      x ≤ ((2 * m + 1 : ℤ) : ℚ) * (2 ^ s / 2) := by
    intro x
    push_cast
    constructor <;> intro hx <;> linarith
  have hfar : ∀ x : ℚ, 2 ^ s / 2 ≤ |(m * 2 ^ s : ℚ) - x| ↔
      x ≤ ((2 * m - 1 : ℤ) : ℚ) * (2 ^ s / 2) ∨ ((2 * m + 1 : ℤ) : ℚ) * (2 ^ s / 2) ≤ x := by
    intro x
    rw [le_abs]
    push_cast
    constructor <;> rintro (hx | hx) <;> first | (left; linarith) | (right; linarith)
  have hbottom : (exponentUnit * 2 ^ s : ℚ) = ((2 * exponentUnit : ℤ) : ℚ) * (2 ^ s / 2) := by
    push_cast
    ring
  refine ⟨h.le, fun hs => ⟨(h.ge hs).1, ?_⟩, ?_, fun hhalf => ?_⟩
  · rw [hbottom, ← hle, ← hbottom]
    exact (h.ge hs).2
  · rw [abs_le, hlow, hhigh, ← hle, ← hge, ← hlow, ← hhigh, ← abs_le]
    exact h.close
  · refine h.even (le_antisymm h.close ?_)
    rw [hfar, hle, hge, ← hfar]
    exact hhalf.ge

/-- A count that is within half a step is not large for its steps. -/
theorem Rounds.le_two_pow (h : Rounds s m y) : y ≤ 2 ^ (54 + s) := by
  have hm : (m : ℚ) ≤ 2 ^ 53 := by exact_mod_cast h.le
  have hstep : (0 : ℚ) < 2 ^ s := by positivity
  have hmul : (m : ℚ) * 2 ^ s ≤ 2 ^ 53 * 2 ^ s := mul_le_mul_of_nonneg_right hm hstep.le
  have hone : (1 : ℚ) ≤ 2 ^ 53 := one_le_pow₀ one_le_two
  have hhalf : (1 : ℚ) * 2 ^ s ≤ 2 ^ 53 * 2 ^ s := mul_le_mul_of_nonneg_right hone hstep.le
  have hclose := (abs_le.mp h.close).1
  have hdouble : (2 : ℚ) ^ (54 + s) = 2 ^ 53 * 2 ^ s + 2 ^ 53 * 2 ^ s := by
    rw [pow_add, show (54 : Nat) = 53 + 1 from rfl, pow_succ]
    ring
  rw [hdouble]
  linarith

/-- If halves of steps are multiples of a width, then it does not matter which fraction of the width
a count is above such a multiple. -/
theorem Rounds.of_fraction {width a b : ℚ} {k c : Nat} (h : Rounds s m ((k + a) * width))
    (hwidth : 0 < width) (hstep : (2 ^ s / 2 : ℚ) = c * width) (ha : 0 < a ∧ a < 1)
    (hb : 0 < b ∧ b < 1) : Rounds s m ((k + b) * width) := by
  have hle : ∀ x : ℚ, 0 < x ∧ x < 1 → ∀ j : ℤ,
      j * (2 ^ s / 2) ≤ (k + x) * width ↔ j * c ≤ (k : ℤ) := by
    intro x hx j
    rw [hstep, ← mul_assoc, mul_le_mul_iff_left₀ hwidth]
    constructor
    · intro hj
      have hlt : (j * c : ℚ) < k + 1 := by linarith
      exact Int.lt_add_one_iff.mp (by exact_mod_cast hlt)
    · intro hj
      have hle : (j * c : ℚ) ≤ k := by exact_mod_cast hj
      linarith
  have hge : ∀ x : ℚ, 0 < x ∧ x < 1 → ∀ j : ℤ,
      (k + x) * width ≤ j * (2 ^ s / 2) ↔ (k + 1 : ℤ) ≤ j * c := by
    intro x hx j
    rw [hstep, ← mul_assoc, mul_le_mul_iff_left₀ hwidth]
    constructor
    · intro hj
      have hlt : (k : ℚ) < j * c := by linarith
      exact Int.add_one_le_iff.mpr (by exact_mod_cast hlt)
    · intro hj
      have hle : (k + 1 : ℚ) ≤ j * c := by exact_mod_cast hj
      linarith
  exact h.congr (fun j => (hle a ha j).trans (hle b hb j).symm) fun j =>
    (hge a ha j).trans (hge b hb j).symm

end Rounds

/-! ## Rounded quotients -/

/-- A quotient is rounded to a whole number within a half, and to an even one at a half. -/
theorem roundHalfEven_close (num : Nat) {den : Nat} (hden : 0 < den) :
    |(roundHalfEven num den : ℚ) - num / den| ≤ 1 / 2 ∧
      (|(roundHalfEven num den : ℚ) - num / den| = 1 / 2 → roundHalfEven num den % 2 = 0) := by
  have hden' : (0 : ℚ) < den := Nat.cast_pos.mpr hden
  have hsplit : (num : ℚ) / den = (num / den : Nat) + (num % den : Nat) / den := by
    have hnum : (num : ℚ) = den * (num / den : Nat) + (num % den : Nat) := by
      exact_mod_cast (Nat.div_add_mod num den).symm
    rw [hnum, add_div, mul_div_cancel_left₀ _ hden'.ne']
  have hrest : ((num % den : Nat) : ℚ) / den < 1 := by
    rw [div_lt_one hden']
    exact_mod_cast Nat.mod_lt num hden
  have hlt : 2 * (num % den) < den ↔ ((num % den : Nat) : ℚ) / den < 1 / 2 := by
    rw [div_lt_div_iff₀ hden' two_pos, ← Nat.cast_lt (α := ℚ)]
    push_cast
    constructor <;> intro hx <;> linarith
  have heq : 2 * (num % den) = den ↔ ((num % den : Nat) : ℚ) / den = 1 / 2 := by
    rw [div_eq_div_iff hden'.ne' two_ne_zero, ← Nat.cast_inj (R := ℚ)]
    push_cast
    constructor <;> intro hx <;> linarith
  have hnonneg : (0 : ℚ) ≤ (num % den : Nat) / den := by positivity
  rw [hsplit]
  generalize hrem : ((num % den : Nat) : ℚ) / den = rest at *
  simp only [roundHalfEven, hlt, heq]
  split
  next hdown =>
    rw [sub_add_cancel_left, abs_neg, abs_of_nonneg hnonneg]
    refine ⟨?_, fun hhalf => ?_⟩
    · obtain hdown | hdown := hdown
      · exact hdown.le
      · exact hdown.1.le
    · obtain hdown | hdown := hdown
      · exact absurd hhalf hdown.ne
      · exact hdown.2
  next hup =>
    push Not at hup
    have hone : ((num / den + 1 : Nat) : ℚ) - ((num / den : Nat) + rest) = 1 - rest := by
      push_cast
      ring
    rw [hone, abs_of_pos (sub_pos.mpr hrest)]
    refine ⟨by linarith [hup.1], fun hhalf => ?_⟩
    have hodd := hup.2 (by linarith)
    omega

/-- The significand of a quotient takes at most fifty-three bits. -/
theorem lt_of_log2_sub_eq {num den s : Nat} (hden : 0 < den)
    (hs : (num / den).log2 - 52 = s) : num < 2 * exponentUnit * 2 ^ s * den := by
  rw [← Nat.div_lt_iff_lt_mul hden, exponentUnit_eq]
  have hlt : num / den < 2 ^ ((num / den).log2 + 1) := Nat.lt_log2_self
  have hpow : 2 ^ ((num / den).log2 + 1) ≤ 2 ^ (1 + 52 + s) :=
    Nat.pow_le_pow_right (by decide) (by omega)
  calc num / den < 2 ^ (1 + 52 + s) := Nat.lt_of_lt_of_le hlt hpow
    _ = 2 * 2 ^ 52 * 2 ^ s := by rw [Nat.pow_add, Nat.pow_add, Nat.pow_one]

/-- It takes just as many where steps are doubled. -/
theorem le_of_log2_sub_eq {num den s : Nat} (hden : 0 < den)
    (hs : (num / den).log2 - 52 = s) (hpos : 0 < s) : exponentUnit * 2 ^ s * den ≤ num := by
  rw [← Nat.le_div_iff_mul_le hden, exponentUnit_eq, ← Nat.pow_add]
  have hne : num / den ≠ 0 := by
    intro hzero
    rw [hzero, Nat.log2_zero] at hs
    omega
  refine (Nat.le_log2 hne).mp ?_
  omega

/-- What a quotient is rounded to is within half a step, as long as there is a number so large. -/
theorem exists_rounds (num : Nat) {den : Nat} (hden : 0 < den) :
    ∃ s m, nearestPattern num den = min infinity (s * exponentUnit + m) ∧
      Rounds s m (num / den) := by
  have hpattern : nearestPattern num den =
      min infinity (((num / den).log2 - 52) * exponentUnit +
        roundHalfEven num (den * 2 ^ ((num / den).log2 - 52))) := by
    simp only [nearestPattern, Nat.pow_eq]
  generalize hs : (num / den).log2 - 52 = s at hpattern
  refine ⟨s, _, hpattern, ?_⟩
  have hden' : (0 : ℚ) < den := Nat.cast_pos.mpr hden
  have hstep : (0 : ℚ) < 2 ^ s := by positivity
  obtain ⟨hclose, heven⟩ := roundHalfEven_close num (Nat.mul_pos hden (Nat.two_pow_pos s))
  generalize roundHalfEven num (den * 2 ^ s) = m at hclose heven
  have hscale : |(m * 2 ^ s : ℚ) - num / den| =
      |(m : ℚ) - num / ((den * 2 ^ s : Nat) : ℚ)| * 2 ^ s := by
    rw [← abs_of_pos hstep, ← abs_mul, abs_of_pos hstep, sub_mul]
    push_cast
    rw [← div_div, div_mul_cancel₀ _ hstep.ne']
  have hclose' : |(m * 2 ^ s : ℚ) - num / den| ≤ 2 ^ s / 2 := by
    rw [hscale]
    have hhalf := mul_le_mul_of_nonneg_right hclose hstep.le
    linarith
  obtain ⟨hlow, hhigh⟩ := abs_le.mp hclose'
  have htop : (num : ℚ) / den < 2 * exponentUnit * 2 ^ s := by
    rw [div_lt_iff₀ hden']
    exact_mod_cast lt_of_log2_sub_eq hden hs
  have hbottom : 0 < s → (exponentUnit * 2 ^ s : ℚ) ≤ num / den := by
    intro hpos
    rw [le_div_iff₀ hden']
    exact_mod_cast le_of_log2_sub_eq hden hs hpos
  refine ⟨?_, fun hpos => ⟨?_, hbottom hpos⟩, hclose', ?_⟩
  · have hlt : (m : ℚ) < 2 * exponentUnit + 1 := by
      refine lt_of_mul_lt_mul_right ?_ hstep.le
      linarith
    exact Nat.lt_succ_iff.mp (by exact_mod_cast hlt)
  · have hlt : (exponentUnit : ℚ) < m + 1 := by
      refine lt_of_mul_lt_mul_right ?_ hstep.le
      have := hbottom hpos
      linarith
    exact Nat.lt_succ_iff.mp (by exact_mod_cast hlt)
  · intro hhalf
    rw [hscale] at hhalf
    refine heven (mul_right_cancel₀ hstep.ne' ?_)
    linarith

end ScopedScript.Binary

namespace ScopedScript.Decimal

open Binary

/-! ## Rounded decimals -/

/-- The value of a decimal. -/
def value (d : Decimal) : ℚ := d.digits * 10 ^ d.exponent

theorem value_nonneg (d : Decimal) : 0 ≤ d.value := by
  unfold value
  positivity

/-- The value is below the power of ten that its digits reach. -/
theorem value_lt (d : Decimal) : d.value < 10 ^ ((digitCount d.digits : Int) + d.exponent) := by
  have hlt : d.digits < 10 ^ digitCount d.digits :=
    (digitCount_le_iff (digitCount_pos _)).mp (Nat.le_refl _)
  rw [value, zpow_add₀ (by norm_num : (10 : ℚ) ≠ 0), zpow_natCast]
  refine mul_lt_mul_of_pos_right ?_ (by positivity)
  exact_mod_cast hlt

theorem one_eq_two_pow {n : Nat} (hn : 1074 = n) : one = 2 ^ n := by
  unfold one
  rw [hn, Nat.pow_eq]

/-- A decimal that is below all others is less than half a unit. -/
theorem value_mul_one_lt {d : Decimal} (h : (digitCount d.digits : Int) + d.exponent < -330) :
    d.value * one < 1 / 2 := by
  have hpow : (10 : ℚ) ^ ((digitCount d.digits : Int) + d.exponent) ≤ 10 ^ (-331 : Int) :=
    zpow_le_zpow_right₀ (by norm_num) (by omega)
  have hunits : (0 : ℚ) < one := Nat.cast_pos.mpr Binary.one_pos
  have hsize : (one * 2 : ℚ) < (10 ^ 331 : Nat) := by
    have hsize : one * 2 < 10 ^ 331 := by
      obtain ⟨n, hn⟩ : ∃ n, 1074 = n := ⟨_, rfl⟩
      rw [one_eq_two_pow hn, ← Nat.pow_succ]
      exact two_pow_lt_ten_pow (by omega)
    exact_mod_cast hsize
  have hlast : (10 : ℚ) ^ (-331 : Int) = ((10 ^ 331 : Nat) : ℚ)⁻¹ := by
    rw [zpow_neg, Nat.cast_pow]
    rfl
  have hbound : (10 : ℚ) ^ (-331 : Int) * one < 1 / 2 := by
    rw [hlast, inv_mul_eq_div, div_lt_div_iff₀ (by positivity) two_pos, one_mul]
    exact hsize
  calc d.value * one ≤ (10 : ℚ) ^ (-331 : Int) * one :=
        mul_le_mul_of_nonneg_right (d.value_lt.le.trans hpow) hunits.le
    _ < 1 / 2 := hbound

/-- What a decimal is rounded to is within half a step, as long as there is a number so large; some
decimals are too large at first sight. -/
theorem round_cases (d : Decimal) :
    (∃ s m, d.round false = ofMagnitude false (min infinity (s * exponentUnit + m)) ∧
      Rounds s m (d.value * one)) ∨
    0 < d.digits ∧ 310 < (digitCount d.digits : Int) + d.exponent ∧
      d.round false = ofMagnitude false infinity := by
  have hnonneg : 0 ≤ d.value * one := mul_nonneg d.value_nonneg (Nat.cast_nonneg _)
  simp only [round, Nat.pow_eq]
  split
  next hsmall =>
    have hlt : d.value * one < 1 / 2 := by
      obtain hzero | hsmall := hsmall
      · rw [value, hzero, Nat.cast_zero, zero_mul, zero_mul]
        norm_num
      · exact value_mul_one_lt hsmall
    refine .inl ⟨0, 0, rfl, Nat.zero_le _, fun hpos => absurd hpos (Nat.lt_irrefl 0), ?_, ?_⟩
    · rw [Nat.cast_zero, zero_mul, zero_sub, abs_neg, abs_of_nonneg hnonneg, pow_zero]
      exact hlt.le
    · exact fun _ => rfl
  next hlarge =>
    split
    next htop => exact .inr ⟨Nat.pos_of_ne_zero fun hzero => hlarge (.inl hzero), htop, rfl⟩
    next =>
      left
      split
      next hexponent =>
        obtain ⟨s, m, hpattern, hrounds⟩ := Binary.exists_rounds
          (d.digits * 10 ^ d.exponent.toNat * one) Nat.one_pos
        refine ⟨s, m, by rw [nearest, hpattern], ?_⟩
        convert hrounds using 1
        generalize one = unit
        rw [value, ← Int.toNat_of_nonneg hexponent, zpow_natCast, Int.toNat_natCast]
        push_cast
        exact (div_one _).symm
      next hexponent =>
        obtain ⟨s, m, hpattern, hrounds⟩ := Binary.exists_rounds (d.digits * one)
          (Nat.pow_pos (by decide) : 0 < 10 ^ (-d.exponent).toNat)
        refine ⟨s, m, by rw [nearest, hpattern], ?_⟩
        convert hrounds using 1
        generalize one = unit
        have hpow : (10 : ℚ) ^ d.exponent = (10 ^ (-d.exponent).toNat)⁻¹ := by
          rw [← zpow_natCast, Int.toNat_of_nonneg (by omega), zpow_neg, inv_inv]
        rw [value, hpow]
        push_cast
        ring

/-- A number that a decimal is rounded to is within half a step. -/
theorem exists_rounds {d : Decimal} {pattern : Nat} (hfinite : pattern < infinity)
    (h : d.round false = ofMagnitude false pattern) :
    ∃ s m, pattern = s * exponentUnit + m ∧ Rounds s m (d.value * one) := by
  obtain ⟨s, m, hround, hrounds⟩ | ⟨_, _, hround⟩ := d.round_cases
  · rw [hround, ofMagnitude_inj (Nat.min_le_left _ _) hfinite.le] at h
    exact ⟨s, m, by omega, hrounds⟩
  · rw [hround, ofMagnitude_inj (Nat.le_refl _) hfinite.le] at h
    exact absurd h hfinite.ne'

/-! ## Digits that are left out -/

theorem natOfDigits_cons (c : Char) (digits : List Char) :
    natOfDigits (c :: digits) =
      (c.toNat - '0'.toNat) * 10 ^ digits.length + natOfDigits digits := by
  rw [← List.singleton_append, natOfDigits_append]
  simp [natOfDigits, push]

theorem natOfDigits_lt {digits : List Char} (h : digits.all Char.isDigit) :
    natOfDigits digits < 10 ^ digits.length := by
  induction digits with
  | nil => exact Nat.one_pos
  | cons c rest ih =>
    rw [List.all_cons, Bool.and_eq_true] at h
    obtain ⟨_, hc⟩ := Char.isDigit_iff_toNat.mp h.1
    have hdigit : c.toNat - '0'.toNat ≤ 9 := Nat.sub_le_sub_right hc _
    have hrest := ih h.2
    have hfirst := Nat.mul_le_mul_right (10 ^ rest.length) hdigit
    rw [natOfDigits_cons, List.length_cons, Nat.pow_succ]
    omega

/-- A digit other than zero counts for its place. -/
theorem le_natOfDigits_cons {c : Char} {digits : List Char} (hc : c.isDigit) (hne : c ≠ '0') :
    10 ^ digits.length ≤ natOfDigits (c :: digits) := by
  obtain ⟨hge, _⟩ := Char.isDigit_iff_toNat.mp hc
  have hzero : c.toNat ≠ '0'.toNat := fun h => hne (Char.toNat_inj.mp h)
  have hpos : 0 < c.toNat - '0'.toNat := by omega
  rw [natOfDigits_cons]
  exact Nat.le_add_right_of_le (Nat.le_mul_of_pos_left _ hpos)

theorem natOfDigits_pos {digits : List Char} (h : digits.all Char.isDigit)
    (hne : ¬ digits.all (· == '0')) : 0 < natOfDigits digits := by
  induction digits with
  | nil => exact absurd rfl hne
  | cons c rest ih =>
    rw [List.all_cons, Bool.and_eq_true] at h
    by_cases hc : c = '0'
    · have hrest : ¬ rest.all (· == '0') := by simpa [hc] using hne
      rw [natOfDigits_cons]
      exact Nat.lt_add_left _ (ih h.2 hrest)
    · exact Nat.lt_of_lt_of_le (Nat.pow_pos (by decide)) (le_natOfDigits_cons h.1 hc)

theorem natOfDigits_of_zeros {digits : List Char} (h : digits.all (· == '0')) :
    natOfDigits digits = 0 := by
  have hzeros : digits = List.replicate digits.length '0' :=
    List.eq_replicate_of_mem fun c hc => by simpa using List.all_eq_true.mp h c hc
  rw [hzeros, natOfDigits_replicate_zero]

/-- The value of digits with a point among them. -/
def valueOf (whole fraction : List Char) : ℚ :=
  natOfDigits (whole ++ fraction) / 10 ^ fraction.length

theorem two_pow_mul_ten_pow {s t n : Nat} (h : n + 1 ≤ t + s) :
    2 ^ s * 10 ^ t = 2 * (5 ^ t * 2 ^ (t + s - (n + 1)) * 2 ^ n) := by
  have hten : 10 ^ t = 2 ^ t * 5 ^ t := Nat.mul_pow 2 5 t
  have hsplit : 2 ^ (t + s) = 2 ^ (t + s - (n + 1)) * 2 ^ (n + 1) := by
    rw [← Nat.pow_add, Nat.sub_add_cancel h]
  calc 2 ^ s * 10 ^ t = 2 ^ (t + s) * 5 ^ t := by rw [hten, Nat.pow_add]; ring
    _ = 2 * (5 ^ t * 2 ^ (t + s - (n + 1)) * 2 ^ n) := by rw [hsplit, Nat.pow_succ]; ring

/-- The kept digits alone are too large for steps that have further digits. -/
theorem two_pow_add_mul_five_pow_lt {n : Nat} (hn : 1074 = n) :
    2 ^ (54 + n) * 5 ^ n < 10 ^ (precision - 1) * 2 ^ n := by
  have hbits : 2 ^ 54 < 10 ^ 17 := by decide
  calc 2 ^ (54 + n) * 5 ^ n = 2 ^ 54 * 10 ^ n := by
        rw [Nat.pow_add, Nat.mul_assoc, ← Nat.mul_pow]
    _ < 10 ^ 17 * 10 ^ n := Nat.mul_lt_mul_of_pos_right hbits (Nat.pow_pos (by decide))
    _ = 10 ^ (precision - 1) * 10 ^ 292 := by
        rw [← Nat.pow_add, ← Nat.pow_add, ← hn, precision]
    _ < 10 ^ (precision - 1) * 2 ^ n :=
        Nat.mul_lt_mul_of_pos_left (ten_pow_lt_two_pow (by omega)) (Nat.pow_pos (by decide))

/-- Halves of steps end before the first digit that is left out: where they have more digits, the
kept ones alone are too many for the range of these steps. -/
theorem exists_half_step {s t k : Nat} (hk : 10 ^ (precision - 1) ≤ k)
    (hle : k * one ≤ 2 ^ (54 + s) * 10 ^ t) :
    ∃ c : Nat, (2 ^ s / 2 : ℚ) = c * (one / 10 ^ t) := by
  obtain ⟨n, hn⟩ : ∃ n, 1074 = n := ⟨_, rfl⟩
  have hone := one_eq_two_pow hn
  have hmany : 2 ^ (54 + n) * 5 ^ n < 10 ^ (precision - 1) * one := by
    rw [hone]
    exact two_pow_add_mul_five_pow_lt hn
  generalize 10 ^ (precision - 1) = least at hk hmany
  generalize one = unit at hone hle hmany
  by_cases hfine : n + 1 ≤ t + s
  · refine ⟨5 ^ t * 2 ^ (t + s - (n + 1)), ?_⟩
    have hsteps := two_pow_mul_ten_pow hfine
    rw [← hone] at hsteps
    generalize 5 ^ t * 2 ^ (t + s - (n + 1)) = c at hsteps
    rw [← mul_div_assoc, div_eq_div_iff two_ne_zero (by positivity)]
    have hcast : ((2 ^ s * 10 ^ t : Nat) : ℚ) = ((2 * (c * unit) : Nat) : ℚ) := by rw [hsteps]
    push_cast at hcast
    rw [hcast, mul_comm]
  · have hfew : least * unit ≤ 2 ^ (54 + n) * 5 ^ n := by
      calc least * unit ≤ 2 ^ (54 + s) * 10 ^ t := (Nat.mul_le_mul_right unit hk).trans hle
        _ = 2 ^ (54 + s + t) * 5 ^ t := by
            rw [show 10 ^ t = 2 ^ t * 5 ^ t from Nat.mul_pow 2 5 t, Nat.pow_add 2 (54 + s) t]
            ring
        _ ≤ 2 ^ (54 + n) * 5 ^ n :=
            Nat.mul_le_mul (Nat.pow_le_pow_right (by decide) (by omega))
              (Nat.pow_le_pow_right (by decide) (by omega))
    exact absurd hfew (Nat.not_le.mpr hmany)

/-- The value of kept digits and a single one for all others. -/
theorem value_sticky (k r f : Nat) :
    value ⟨10 * k + 1, (r : Int) - f - 1⟩ = (k + 1 / 10) * (10 ^ r / 10 ^ f) := by
  have hpow : (10 : ℚ) ^ ((r : Int) - f - 1) = 10 ^ r / 10 ^ f / 10 := by
    rw [zpow_sub₀ (by norm_num), zpow_sub₀ (by norm_num), zpow_natCast, zpow_natCast, zpow_one]
  rw [value, hpow]
  push_cast
  ring

/-- The value of kept digits and all others. -/
theorem value_all (k r more f : Nat) :
    ((k * 10 ^ r + more) / 10 ^ f : ℚ) = (k + more / 10 ^ r) * (10 ^ r / 10 ^ f) := by
  field_simp

/-- Digits that are left out are a fraction of the last one that is kept. -/
theorem fraction_bounds {r more : Nat} (hmore : 0 < more ∧ more < 10 ^ r) :
    (0 : ℚ) < more / 10 ^ r ∧ (more / 10 ^ r : ℚ) < 1 := by
  have hcast : (0 : ℚ) < more ∧ (more : ℚ) < 10 ^ r := by exact_mod_cast hmore
  exact ⟨div_pos hcast.1 (by positivity), (div_lt_one (by positivity)).mpr hcast.2⟩

/-- A single digit stands for all that are left out. -/
theorem isNearest_of_sticky {k r more f pattern : Nat} (hk : 10 ^ (precision - 1) ≤ k)
    (hmore : 0 < more ∧ more < 10 ^ r) (hfinite : pattern < infinity)
    (h : round false ⟨10 * k + 1, (r : Int) - f - 1⟩ = ofMagnitude false pattern) :
    IsNearest pattern ((k * 10 ^ r + more) / 10 ^ f) := by
  obtain ⟨s, m, hpattern, hrounds⟩ := exists_rounds hfinite h
  have hunits : (0 : ℚ) < one := Nat.cast_pos.mpr Binary.one_pos
  obtain ⟨width, hwidth⟩ : ∃ width : ℚ, width = 10 ^ r / 10 ^ f * one := ⟨_, rfl⟩
  have hpos : 0 < width := by
    rw [hwidth]
    exact mul_pos (by positivity) hunits
  have hy : value ⟨10 * k + 1, (r : Int) - f - 1⟩ * one = (k + 1 / 10) * width := by
    rw [hwidth, value_sticky, mul_assoc]
  have hz : (k * 10 ^ r + more : ℚ) / 10 ^ f * one = (k + more / 10 ^ r) * width := by
    rw [hwidth, value_all, mul_assoc]
  rw [hy] at hrounds
  have hrange : k * width ≤ 2 ^ (54 + s) := by
    have hlarge := hrounds.le_two_pow
    linarith
  have hplace : r < f := by
    by_contra hge
    -- The kept digits alone are more than there are numbers.
    have hone : (one : ℚ) ≤ width := by
      rw [hwidth]
      refine le_mul_of_one_le_left hunits.le ?_
      exact (one_le_div (by positivity)).mpr (pow_le_pow_right₀ (by norm_num) (Nat.not_lt.mp hge))
    have hscale : s < 2047 := by
      refine Nat.lt_of_mul_lt_mul_right (a := exponentUnit) ?_
      exact Nat.lt_of_le_of_lt (Nat.le_add_right _ m) (hpattern ▸ hfinite)
    have hfew : 10 ^ (precision - 1) * one ≤ 2 ^ (54 + s) := by
      refine (Nat.mul_le_mul_right one hk).trans ?_
      exact_mod_cast (mul_le_mul_of_nonneg_left hone k.cast_nonneg).trans hrange
    obtain ⟨n, hn⟩ : ∃ n, 1074 = n := ⟨_, rfl⟩
    have hmany : 2 ^ (1026 + n) < 10 ^ (precision - 1) * one := by
      rw [one_eq_two_pow hn, Nat.pow_add]
      exact Nat.mul_lt_mul_of_pos_right (two_pow_lt_ten_pow (by decide)) (Nat.two_pow_pos n)
    have hpow : 2 ^ (54 + s) ≤ 2 ^ (1026 + n) := Nat.pow_le_pow_right (by decide) (by omega)
    exact absurd (hfew.trans hpow) (Nat.not_le.mpr hmany)
  obtain ⟨c, hc⟩ : ∃ c : Nat, (2 ^ s / 2 : ℚ) = c * width := by
    have hten : width = one / 10 ^ (f - r) := by
      have hsplit : (10 : ℚ) ^ f = 10 ^ (f - r) * 10 ^ r := by
        rw [← pow_add, Nat.sub_add_cancel hplace.le]
      rw [hwidth, hsplit]
      generalize one = unit
      field_simp
    rw [hten] at hrange ⊢
    refine exists_half_step hk ?_
    rw [← mul_div_assoc, div_le_iff₀ (by positivity)] at hrange
    exact_mod_cast hrange
  have hnearest := (hrounds.of_fraction hpos hc (by norm_num) (fraction_bounds hmore)).isNearest
  rwa [← hz, mul_div_cancel_right₀ _ hunits.ne', ← hpattern] at hnearest

/-- Digits are taken exactly, or a single one stands for all that are left out. -/
theorem ofDigits_cases {whole fraction : List Char}
    (hdigits : (whole ++ fraction).all Char.isDigit) :
    (ofDigits whole fraction).value = valueOf whole fraction ∨
      ∃ k r more : Nat, 10 ^ (precision - 1) ≤ k ∧ (0 < more ∧ more < 10 ^ r) ∧
        ofDigits whole fraction = ⟨10 * k + 1, (r : Int) - fraction.length - 1⟩ ∧
        valueOf whole fraction = (k * 10 ^ r + more) / 10 ^ fraction.length := by
  have hdropped : ((whole ++ fraction).dropWhile (· == '0')).all Char.isDigit :=
    List.all_eq_true.mpr fun c hc =>
      List.all_eq_true.mp hdigits c ((List.dropWhile_sublist _).subset hc)
  have hvalue : valueOf whole fraction =
      natOfDigits ((whole ++ fraction).dropWhile (· == '0')) / 10 ^ fraction.length := by
    rw [valueOf, natOfDigits_dropWhile_zero]
  have hfirst := List.head?_dropWhile_not (· == '0') (whole ++ fraction)
  simp only [ofDigits]
  rw [hvalue]
  generalize (whole ++ fraction).dropWhile (· == '0') = digits at *
  have hsplit : natOfDigits digits = natOfDigits (digits.take precision) *
      10 ^ (digits.drop precision).length + natOfDigits (digits.drop precision) := by
    rw [← natOfDigits_append, List.take_append_drop]
  rw [hsplit]
  push_cast
  split
  next hzeros =>
    left
    rw [value, natOfDigits_of_zeros hzeros, Nat.cast_zero, add_zero, zpow_sub₀ (by norm_num),
      zpow_natCast, zpow_natCast, mul_div_assoc]
  next hsticky =>
    have hrest : (digits.drop precision).all Char.isDigit :=
      List.all_eq_true.mpr fun c hc =>
        List.all_eq_true.mp hdropped c (List.mem_of_mem_drop hc)
    have hlong : precision < digits.length := by
      by_contra hshort
      rw [List.drop_of_length_le (Nat.not_lt.mp hshort)] at hsticky
      exact hsticky rfl
    refine .inr ⟨_, _, _, ?_, ⟨natOfDigits_pos hrest hsticky, natOfDigits_lt hrest⟩, rfl, rfl⟩
    cases digits with
    | nil => exact absurd hlong (Nat.not_lt_zero _)
    | cons c tail =>
      have hc : c.isDigit := List.all_eq_true.mp hdropped c (List.mem_cons_self ..)
      have hne : c ≠ '0' := by simpa using hfirst
      have hkept : 10 ^ (tail.take (precision - 1)).length ≤
          natOfDigits (c :: tail.take (precision - 1)) := le_natOfDigits_cons hc hne
      rw [List.length_take, Nat.min_eq_left] at hkept
      · exact hkept
      · exact Nat.le_of_lt_succ (Nat.lt_of_le_of_lt (Nat.sub_le _ _) hlong)

/-- The number of a literal is the nearest to its digits. -/
theorem isNearest_ofDigits {whole fraction : List Char} {pattern : Nat}
    (hdigits : (whole ++ fraction).all Char.isDigit) (hfinite : pattern < infinity)
    (h : (ofDigits whole fraction).round false = ofMagnitude false pattern) :
    IsNearest pattern (valueOf whole fraction) := by
  have hunits : (0 : ℚ) < one := Nat.cast_pos.mpr Binary.one_pos
  obtain hexact | ⟨k, r, more, hk, hmore, hdecimal, hvalue⟩ := ofDigits_cases hdigits
  · obtain ⟨s, m, rfl, hrounds⟩ := exists_rounds hfinite h
    have hnearest := hrounds.isNearest
    rwa [mul_div_cancel_right₀ _ hunits.ne', hexact] at hnearest
  · rw [hdecimal] at h
    rw [hvalue]
    exact isNearest_of_sticky hk hmore hfinite h

end ScopedScript.Decimal
