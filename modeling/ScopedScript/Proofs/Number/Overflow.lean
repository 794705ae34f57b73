import ScopedScript.Proofs.Number.Nearest

/-!
# Decimals beyond all numbers

A decimal is rounded to infinity from the middle on between the greatest number and the power of two
behind it. The middle itself is, since that power of two is the even one of the two. Digits that are
left out when a literal is read change nothing about this: the middle is a whole number, and digits
are left out only behind the first eight hundred.
-/

namespace ScopedScript.Binary

/-- The least value that is rounded to infinity: the middle between the greatest number and the
power of two behind it. -/
def limit : Nat := Nat.pow 2 1024 - Nat.pow 2 970

/-- Half a step between the greatest numbers. -/
def halfStep : Nat := Nat.pow 2 2044

theorem limit_eq {m n : Nat} (hm : 1024 = m) (hn : 970 = n) : limit = 2 ^ m - 2 ^ n := by
  unfold limit
  rw [hm, hn, Nat.pow_eq, Nat.pow_eq]

theorem halfStep_eq {n : Nat} (hn : 2044 = n) : halfStep = 2 ^ n := by
  unfold halfStep
  rw [hn, Nat.pow_eq]

theorem limit_mul_one : limit * one = (2 ^ 54 - 1) * halfStep := by
  obtain ⟨n, hn⟩ : ∃ n, 970 = n := ⟨_, rfl⟩
  obtain ⟨u, hu⟩ : ∃ u, 1074 = u := ⟨_, rfl⟩
  rw [limit_eq (m := 54 + n) (by omega) hn, Decimal.one_eq_two_pow hu,
    halfStep_eq (n := n + u) (by omega), Nat.pow_add, Nat.pow_add, Nat.sub_mul, Nat.sub_mul,
    Nat.one_mul, Nat.mul_assoc]

theorem cast_limit_mul_one : (limit * one : ℚ) = (2 ^ 54 - 1) * halfStep := by
  have hlimit := limit_mul_one
  generalize limit = least at hlimit ⊢
  generalize one = unit at hlimit ⊢
  generalize halfStep = half at hlimit ⊢
  have hcast : ((least * unit : Nat) : ℚ) = ((2 ^ 54 - 1) * half : Nat) := by rw [hlimit]
  push_cast at hcast
  norm_num at hcast ⊢
  exact hcast

section Steps

variable {s : Nat}

theorem two_pow_le_halfStep (hs : s ≤ 2044) : (2 ^ s : ℚ) ≤ halfStep := by
  generalize hn : 2044 = n at hs
  rw [halfStep_eq hn]
  exact_mod_cast Nat.pow_le_pow_right two_pos hs

theorem two_pow_eq_halfStep (hs : s = 2044 + 1) : (2 ^ s : ℚ) = 2 * halfStep := by
  generalize hn : 2044 = n at hs
  rw [halfStep_eq hn, hs, pow_succ]
  push_cast
  ring

theorem halfStep_le_two_pow (hs : 2044 + 2 ≤ s) : (4 * halfStep : ℚ) ≤ 2 ^ s := by
  generalize hn : 2044 = n at hs
  have hle : (2 ^ (n + 2) : ℚ) ≤ 2 ^ s := pow_le_pow_right₀ one_le_two hs
  rw [halfStep_eq hn]
  push_cast
  linarith [pow_add (2 : ℚ) n 2]

end Steps

section Rounds

variable {s m : Nat} {y : ℚ}

/-- At the steps between the greatest numbers, a count is below the limit unless its significand is
the one at which steps would be doubled again. -/
theorem Rounds.lt_limit_iff (h : Rounds s m y) (hs : s = 2044 + 1) :
    y < (2 ^ 54 - 1) * halfStep ↔ m < 2 * exponentUnit := by
  have hunit : exponentUnit = 2 ^ 52 := rfl
  have hstep := two_pow_eq_halfStep hs
  have hpos : (0 : ℚ) < halfStep := by linarith [pow_pos (two_pos : (0 : ℚ) < 2) s]
  have hclose := h.close
  have heven := h.even
  rw [hstep, mul_div_cancel_left₀ _ two_ne_zero] at hclose heven
  generalize (halfStep : ℚ) = half at *
  obtain ⟨hlow, hhigh⟩ := abs_le.mp hclose
  constructor
  · intro hy
    have hlt : (2 * m : ℚ) < 2 ^ 54 := by
      refine lt_of_mul_lt_mul_right ?_ hpos.le
      linarith
    have hlt : 2 * m < 2 ^ 54 := by exact_mod_cast hlt
    omega
  · intro hm
    by_contra hy
    -- The middle belongs to the even significand.
    have hle : (2 ^ 54 - 1 : ℚ) ≤ 2 * m + 1 := by
      refine le_of_mul_le_mul_right ?_ hpos
      linarith
    have hle : 2 ^ 54 ≤ 2 * m + 2 := by
      have hcast : (2 ^ 54 : ℚ) ≤ 2 * m + 2 := by linarith
      exact_mod_cast hcast
    have hm : m = 2 ^ 53 - 1 := by omega
    have hcast : (m : ℚ) = 2 ^ 53 - 1 := by
      rw [hm]
      norm_num
    have hhalf := heven (le_antisymm hclose (by
      rw [le_abs]
      right
      rw [hcast]
      linarith))
    omega

/-- A pattern within half a step is below infinity just as its value is below the limit. -/
theorem Rounds.lt_infinity_iff (h : Rounds s m y) :
    s * exponentUnit + m < infinity ↔ y < limit * one := by
  have hinfinity : infinity = (2044 + 3) * exponentUnit := rfl
  have hunit : exponentUnit = 2 ^ 52 := rfl
  rw [cast_limit_mul_one]
  obtain hsmall | hs | hlarge : s ≤ 2044 ∨ s = 2044 + 1 ∨ 2044 + 2 ≤ s := by omega
  · have hstep := two_pow_le_halfStep hsmall
    have hpattern : s * exponentUnit + m < infinity := by
      have hmul := Nat.mul_le_mul_right exponentUnit hsmall
      have hm := h.le
      rw [hinfinity]
      omega
    have hm : (m : ℚ) ≤ 2 ^ 53 := by exact_mod_cast h.le
    have hmul : (m : ℚ) * 2 ^ s ≤ 2 ^ 53 * halfStep :=
      mul_le_mul hm hstep (by positivity) (by norm_num)
    have hhigh := (abs_le.mp h.close).1
    have hpos : (0 : ℚ) < 2 ^ s := by positivity
    refine iff_of_true hpattern ?_
    linarith
  · rw [h.lt_limit_iff hs, hs, hinfinity, hunit]
    omega
  · have hstep := halfStep_le_two_pow hlarge
    obtain ⟨hm, hy⟩ := h.ge (by omega)
    have hpattern : ¬ s * exponentUnit + m < infinity := by
      have hmul := Nat.mul_le_mul_right exponentUnit hlarge
      rw [hinfinity]
      omega
    have hmul : (2 ^ 52 : ℚ) * (4 * halfStep) ≤ 2 ^ 52 * 2 ^ s :=
      mul_le_mul_of_nonneg_left hstep (by norm_num)
    have hcast : (exponentUnit : ℚ) = 2 ^ 52 := by
      rw [hunit]
      norm_num
    have hpos : (0 : ℚ) ≤ halfStep := Nat.cast_nonneg _
    rw [hcast] at hy
    refine iff_of_false hpattern (not_lt.mpr ?_)
    linarith

end Rounds

end ScopedScript.Binary

namespace ScopedScript.Decimal

open Binary

/-! ## Decimals -/

/-- The value is at least the power of ten of its first digit. -/
theorem le_value {d : Decimal} (hpos : 0 < d.digits) :
    (10 : ℚ) ^ ((digitCount d.digits : Int) - 1 + d.exponent) ≤ d.value := by
  obtain ⟨count, hcount⟩ := Nat.exists_eq_add_one_of_ne_zero (digitCount_pos d.digits).ne'
  have hle : 10 ^ count ≤ d.digits := by
    by_contra hlt
    cases count with
    | zero => omega
    | succ count =>
      have hfew := (digitCount_le_iff count.succ_pos).mpr (Nat.not_le.mp hlt)
      omega
  rw [value, zpow_add₀ (by norm_num : (10 : ℚ) ≠ 0), hcount, Nat.cast_succ, add_sub_cancel_right,
    zpow_natCast]
  refine mul_le_mul_of_nonneg_right ?_ (by positivity)
  exact_mod_cast hle

theorem limit_le_ten_pow : limit ≤ 10 ^ 310 := by
  obtain ⟨m, hm⟩ : ∃ m, 1024 = m := ⟨_, rfl⟩
  rw [limit_eq hm rfl]
  exact (Nat.sub_le _ _).trans (two_pow_lt_ten_pow (by omega)).le

/-- A decimal is rounded to a finite number just as it is below the limit. -/
theorem isFinite_round_iff (d : Decimal) : isFinite (d.round false) ↔ d.value < limit := by
  have hunits : (0 : ℚ) < one := Nat.cast_pos.mpr Binary.one_pos
  obtain ⟨s, m, hround, hrounds⟩ | ⟨hpos, htop, hround⟩ := d.round_cases
  · have hiff := hrounds.lt_infinity_iff
    rw [mul_lt_mul_iff_left₀ hunits] at hiff
    rw [hround, isFinite, magnitude_ofMagnitude (Nat.min_le_left _ _), decide_eq_true_eq, ← hiff]
    omega
  · rw [hround, isFinite, magnitude_ofMagnitude (Nat.le_refl _), decide_eq_true_eq]
    refine iff_of_false (Nat.lt_irrefl _) (not_lt.mpr ?_)
    have hlimit : (limit : ℚ) ≤ 10 ^ (310 : Int) := by exact_mod_cast limit_le_ten_pow
    have hpow : (10 : ℚ) ^ (310 : Int) ≤ 10 ^ ((digitCount d.digits : Int) - 1 + d.exponent) :=
      zpow_le_zpow_right₀ (by norm_num) (by omega)
    exact hlimit.trans (hpow.trans (le_value hpos))

/-! ## Digits that are left out -/

/-- Whether a value is below a whole number of places does not depend on which fraction of its last
place comes with it. -/
theorem add_mul_lt_iff {a : ℚ} (k n t : Nat) (ha : 0 < a ∧ a < 1) :
    ((k + a) * (1 / 10 ^ t) : ℚ) < n ↔ k < n * 10 ^ t := by
  rw [mul_one_div, div_lt_iff₀ (by positivity)]
  constructor
  · intro hlt
    have hlt : (k : ℚ) < n * 10 ^ t := by linarith
    exact_mod_cast hlt
  · intro hlt
    have hle : (k + 1 : ℚ) ≤ n * 10 ^ t := by exact_mod_cast hlt
    linarith

theorem limit_lt_ten_pow : limit < 10 ^ (precision - 1) :=
  limit_le_ten_pow.trans_lt (Nat.pow_lt_pow_right (by decide) (by decide))

/-- A single digit that stands for all that are left out lies on the same side of the limit. -/
theorem lt_limit_iff_of_sticky {k r more f : Nat} (hk : 10 ^ (precision - 1) ≤ k)
    (hmore : 0 < more ∧ more < 10 ^ r) :
    value ⟨10 * k + 1, (r : Int) - f - 1⟩ < limit ↔
      ((k * 10 ^ r + more) / 10 ^ f : ℚ) < limit := by
  rw [value_sticky, value_all]
  have hfraction := fraction_bounds hmore
  obtain hplace | hplace := Nat.lt_or_ge r f
  · have hwidth : (10 ^ r / 10 ^ f : ℚ) = 1 / 10 ^ (f - r) := by
      rw [div_eq_div_iff (by positivity) (by positivity), one_mul, ← pow_add,
        Nat.add_sub_cancel' hplace.le]
    rw [hwidth, add_mul_lt_iff _ _ _ (by norm_num), add_mul_lt_iff _ _ _ hfraction]
  · -- The kept digits alone are beyond the limit.
    have hwidth : (1 : ℚ) ≤ 10 ^ r / 10 ^ f :=
      (one_le_div (by positivity)).mpr (pow_le_pow_right₀ (by norm_num) hplace)
    have hkept : (limit : ℚ) < k := Nat.cast_lt.mpr (limit_lt_ten_pow.trans_le hk)
    have hbeyond : ∀ a : ℚ, 0 < a → ¬ (k + a) * (10 ^ r / 10 ^ f) < (limit : ℚ) := by
      intro a ha
      have hmul : (k + a) * 1 ≤ (k + a) * (10 ^ r / 10 ^ f) :=
        mul_le_mul_of_nonneg_left hwidth (by positivity)
      rw [not_lt]
      linarith
    exact iff_of_false (hbeyond _ (by norm_num)) (hbeyond _ hfraction.1)

/-- A literal has a finite value just as its digits are below the limit. -/
theorem isFinite_ofDigits_iff {whole fraction : List Char}
    (hdigits : (whole ++ fraction).all Char.isDigit) :
    isFinite ((ofDigits whole fraction).round false) ↔ valueOf whole fraction < limit := by
  rw [isFinite_round_iff]
  obtain hexact | ⟨k, r, more, hk, hmore, hdecimal, hvalue⟩ := ofDigits_cases hdigits
  · rw [hexact]
  · rw [hdecimal, hvalue]
    exact lt_limit_iff_of_sticky hk hmore

end ScopedScript.Decimal
