import ScopedScript.Number.Decimal
import ScopedScript.Proofs.Number.Pattern

/-!
# Rounding decimals

Rounding looks at nothing but the exact value: a decimal with zeros moved between its digits and
its power of ten reads as the same number. All digits of a number read as that number.
-/

namespace ScopedScript.Binary

theorem roundHalfEven_mul_right (num den : Nat) {c : Nat} (hc : 0 < c) :
    roundHalfEven (num * c) (den * c) = roundHalfEven num den := by
  have hlt : 2 * (num % den * c) < den * c ↔ 2 * (num % den) < den := by
    rw [← Nat.mul_assoc]
    exact Nat.mul_lt_mul_right hc
  have heq : 2 * (num % den * c) = den * c ↔ 2 * (num % den) = den := by
    rw [← Nat.mul_assoc]
    exact Nat.mul_left_inj (Nat.ne_of_gt hc)
  simp only [roundHalfEven, Nat.mul_div_mul_right num den hc, Nat.mul_mod_mul_right, hlt, heq]

/-- Rounding looks at the quotient only. -/
theorem nearestPattern_mul_right (num den : Nat) {c : Nat} (hc : 0 < c) :
    nearestPattern (num * c) (den * c) = nearestPattern num den := by
  simp only [nearestPattern, Nat.mul_div_mul_right num den hc]
  rw [Nat.mul_right_comm den c, roundHalfEven_mul_right _ _ hc]

theorem nearestPattern_le_infinity (num den : Nat) : nearestPattern num den ≤ infinity :=
  Nat.min_le_left _ _

/-- What is left of a pattern beside its exponent. -/
theorem significand_bounds {pattern : Nat} :
    scale pattern * exponentUnit ≤ pattern ∧
      pattern - scale pattern * exponentUnit < 2 * exponentUnit ∧
        (0 < scale pattern → exponentUnit ≤ pattern - scale pattern * exponentUnit) := by
  have hunit : exponentUnit = 4503599627370496 := by decide
  simp only [scale, hunit]
  omega

/-- The units of a pattern tell how often its significand was doubled. -/
theorem log2_patternUnits (pattern : Nat) : (patternUnits pattern).log2 - 52 = scale pattern := by
  obtain ⟨_, hlt, hge⟩ := @significand_bounds pattern
  have hunit : exponentUnit = 2 ^ 52 := rfl
  simp only [patternUnits, Nat.pow_eq]
  generalize pattern - scale pattern * exponentUnit = sig at hlt hge
  by_cases hpos : 0 < scale pattern
  · have hsig := hge hpos
    have hlog : (sig * 2 ^ scale pattern).log2 = 52 + scale pattern := by
      rw [Nat.log2_eq_iff (Nat.ne_of_gt (Nat.mul_pos (by omega) (Nat.two_pow_pos _)))]
      constructor
      · rw [Nat.pow_add]
        exact Nat.mul_le_mul_right _ hsig
      · rw [Nat.add_right_comm, Nat.pow_add]
        exact Nat.mul_lt_mul_of_pos_right (by omega) (Nat.two_pow_pos _)
    omega
  · have hzero : scale pattern = 0 := by omega
    by_cases hsig : sig = 0
    · simp [hsig, hzero]
    · have hlog : sig.log2 < 53 := (Nat.log2_lt hsig).mpr (by omega)
      simp only [hzero, Nat.pow_zero, Nat.mul_one]
      omega

/-- A number is the nearest to its own value. -/
theorem nearestPattern_patternUnits {pattern : Nat} (h : pattern ≤ infinity) :
    nearestPattern (patternUnits pattern) 1 = pattern := by
  obtain ⟨hle, _, _⟩ := @significand_bounds pattern
  simp only [nearestPattern, Nat.div_one, log2_patternUnits, Nat.one_mul]
  simp only [patternUnits, Nat.pow_eq]
  rw [roundHalfEven_mul _ (Nat.two_pow_pos _), Nat.add_sub_cancel' hle, Nat.min_eq_right h]

end ScopedScript.Binary

namespace ScopedScript.Decimal

/-! ## Digits of a product -/

theorem digitCount_pos (n : Nat) : 0 < digitCount n := Nat.length_toDigits_pos

theorem digitCount_le_iff {n k : Nat} (hk : 0 < k) : digitCount n ≤ k ↔ n < 10 ^ k :=
  Nat.length_toDigits_le_iff (by decide) hk

theorem digitCount_mul_pow {n : Nat} (hn : 0 < n) (k : Nat) :
    digitCount (n * 10 ^ k) = digitCount n + k := by
  have hpos := digitCount_pos n
  have hpos' := digitCount_pos (n * 10 ^ k)
  apply Nat.le_antisymm
  · rw [digitCount_le_iff (by omega), Nat.pow_add]
    exact Nat.mul_lt_mul_of_pos_right ((digitCount_le_iff hpos).mp (Nat.le_refl _))
      (Nat.pow_pos (by decide))
  · have hlt : n * 10 ^ k < 10 ^ digitCount (n * 10 ^ k) :=
      (digitCount_le_iff hpos').mp (Nat.le_refl _)
    have hk : k < digitCount (n * 10 ^ k) := by
      refine (Nat.pow_lt_pow_iff_right (by decide : 1 < 10)).mp (Nat.lt_of_le_of_lt ?_ hlt)
      exact Nat.le_mul_of_pos_left _ hn
    generalize digitCount (n * 10 ^ k) = count at hlt hk
    have hsplit : 10 ^ count = 10 ^ (count - k) * 10 ^ k := by
      rw [← Nat.pow_add, Nat.sub_add_cancel (Nat.le_of_lt hk)]
    rw [hsplit] at hlt
    have hn' : n < 10 ^ (count - k) := Nat.lt_of_mul_lt_mul_right hlt
    have hle := (digitCount_le_iff (by omega)).mpr hn'
    omega

/-! ## Rounding -/

/-- A decimal without sign reads as a number whose pattern is at most that of infinity. -/
theorem exists_round_eq (d : Decimal) :
    ∃ pattern ≤ Binary.infinity, d.round false = Binary.ofMagnitude false pattern := by
  simp only [round]
  split
  · exact ⟨0, Nat.zero_le _, rfl⟩
  · split
    · exact ⟨_, Nat.le_refl _, rfl⟩
    · split
      · exact ⟨_, Binary.nearestPattern_le_infinity _ _, rfl⟩
      · exact ⟨_, Binary.nearestPattern_le_infinity _ _, rfl⟩

/-- The power of ten is on top of the quotient, below it, or moves from below to the top. -/
theorem nearest_mul_pow (negative : Bool) (n k one : Nat) (e : Int) :
    (if 0 ≤ e then Binary.nearest negative (n * 10 ^ k * 10 ^ e.toNat * one) 1
      else Binary.nearest negative (n * 10 ^ k * one) (10 ^ (-e).toNat)) =
    if 0 ≤ e + k then Binary.nearest negative (n * 10 ^ (e + k).toNat * one) 1
    else Binary.nearest negative (n * one) (10 ^ (-(e + k)).toNat) := by
  by_cases he : 0 ≤ e
  · have hexp : (e + k).toNat = k + e.toNat := by omega
    rw [if_pos he, if_pos (by omega), hexp, Nat.pow_add, Nat.mul_assoc n]
  · rw [if_neg he]
    by_cases hek : 0 ≤ e + k
    · have hexp : k = (e + k).toNat + (-e).toNat := by omega
      have hten : 10 ^ k = 10 ^ (e + k).toNat * 10 ^ (-e).toNat := by
        rw [← Nat.pow_add, ← hexp]
      have htop : n * 10 ^ k * one = n * 10 ^ (e + k).toNat * one * 10 ^ (-e).toNat := by
        rw [hten, ← Nat.mul_assoc n, Nat.mul_right_comm _ one]
      have hquotient := Binary.nearestPattern_mul_right (n * 10 ^ (e + k).toNat * one) 1
        (Nat.pow_pos (by decide : 0 < 10) : 0 < 10 ^ (-e).toNat)
      rw [Nat.one_mul] at hquotient
      rw [if_pos hek, Binary.nearest, Binary.nearest, htop, hquotient]
    · have hexp : (-e).toNat = (-(e + k)).toNat + k := by omega
      rw [if_neg hek, Binary.nearest, Binary.nearest, hexp, Nat.pow_add, Nat.mul_right_comm,
        Binary.nearestPattern_mul_right _ _ (Nat.pow_pos (by decide))]

/-- Zeros behind the digits count like a power of ten. -/
theorem round_mul_pow (negative : Bool) (n k : Nat) (e : Int) :
    round negative ⟨n * 10 ^ k, e⟩ = round negative ⟨n, e + k⟩ := by
  by_cases hn : n = 0
  · simp [round, hn]
  · have hpos : 0 < n := Nat.pos_of_ne_zero hn
    have hten : 0 < 10 ^ k := Nat.pow_pos (by decide)
    have hne : n * 10 ^ k ≠ 0 := Nat.ne_of_gt (Nat.mul_pos hpos hten)
    have htop : ((digitCount n + k : Nat) : Int) + e = (digitCount n : Int) + (e + k) := by omega
    simp only [round, digitCount_mul_pow hpos, htop, hn, hne, false_or, Nat.pow_eq,
      nearest_mul_pow]

/-! ## Powers of two and of ten -/

section Powers

variable {a b i j : Nat}

/-- Ninety-three doublings are less than twenty-eight digits. -/
theorem two_pow_lt_ten_pow (h : 28 * a < 93 * b) : 2 ^ a < 10 ^ b := by
  have hpow : (2 ^ a) ^ 28 < (10 ^ b) ^ 28 :=
    calc (2 ^ a) ^ 28 = 2 ^ (28 * a) := by rw [← Nat.pow_mul, Nat.mul_comm]
      _ < 2 ^ (93 * b) := Nat.pow_lt_pow_right Nat.one_lt_two h
      _ = (2 ^ 93) ^ b := Nat.pow_mul ..
      _ ≤ (10 ^ 28) ^ b := Nat.pow_le_pow_left (by decide) b
      _ = (10 ^ b) ^ 28 := Nat.pow_right_comm ..
  exact (Nat.pow_lt_pow_iff_left (by decide)).mp hpow

/-- Thirty-one digits are less than a hundred and three doublings. -/
theorem ten_pow_lt_two_pow (h : 103 * a < 31 * b) : 10 ^ a < 2 ^ b := by
  have hpow : (10 ^ a) ^ 31 < (2 ^ b) ^ 31 :=
    calc (10 ^ a) ^ 31 = (10 ^ 31) ^ a := Nat.pow_right_comm ..
      _ ≤ (2 ^ 103) ^ a := Nat.pow_le_pow_left (by decide) a
      _ = 2 ^ (103 * a) := (Nat.pow_mul ..).symm
      _ < 2 ^ (31 * b) := Nat.pow_lt_pow_right Nat.one_lt_two h
      _ = (2 ^ b) ^ 31 := by rw [← Nat.pow_mul, Nat.mul_comm]
  exact (Nat.pow_lt_pow_iff_left (by decide)).mp hpow

theorem two_pow_mul_two_pow_lt (h : 28 * (i + j) < 93 * b) : 2 ^ i * 2 ^ j < 10 ^ b := by
  rw [← Nat.pow_add]
  exact two_pow_lt_ten_pow h

/-- Fives are tens, but for as many twos. -/
theorem two_pow_mul_five_pow_lt (hsum : a + b = i + j) (h : 103 * b < 31 * j) :
    2 ^ i * 5 ^ (i + j) < 10 ^ a := by
  refine Nat.lt_of_mul_lt_mul_right (a := 2 ^ j) ?_
  calc 2 ^ i * 5 ^ (i + j) * 2 ^ j = 10 ^ (i + j) := by
        rw [Nat.mul_right_comm, ← Nat.pow_add, ← Nat.mul_pow]
    _ = 10 ^ a * 10 ^ b := by rw [← hsum, Nat.pow_add]
    _ < 10 ^ a * 2 ^ j :=
        Nat.mul_lt_mul_of_pos_left (ten_pow_lt_two_pow h) (Nat.pow_pos (by decide))

end Powers

/-! ## All digits of a number -/

section Digits

variable {pattern : Nat}

theorem scale_lt (hlt : pattern < Binary.infinity) : Binary.scale pattern < 2046 := by
  have hunit : Binary.exponentUnit = 4503599627370496 := by decide
  have hinfinity : Binary.infinity = 2047 * 4503599627370496 := by decide
  simp only [Binary.scale, hunit]
  omega

theorem significand_pos (hpos : 0 < pattern) :
    0 < pattern - Binary.scale pattern * Binary.exponentUnit := by
  have hunit : Binary.exponentUnit = 4503599627370496 := by decide
  simp only [Binary.scale, hunit]
  omega

theorem significand_lt : pattern - Binary.scale pattern * Binary.exponentUnit < 2 ^ 53 :=
  Nat.lt_of_lt_of_le Binary.significand_bounds.2.1 (by decide)

theorem ofPattern_digits_pos (hpos : 0 < pattern) : 0 < (ofPattern pattern).digits := by
  have hsig := significand_pos hpos
  simp only [ofPattern, Nat.pow_eq]
  split
  · exact Nat.mul_pos hsig (Nat.two_pow_pos _)
  · exact Nat.mul_pos hsig (Nat.pow_pos (by decide))

theorem mul_pow_lt {n limit base k most bound : Nat} (hn : n < limit) (hbase : 0 < base)
    (hk : k ≤ most) (hbound : limit * base ^ most ≤ bound) : n * base ^ k < bound :=
  calc n * base ^ k < limit * base ^ k := Nat.mul_lt_mul_of_pos_right hn (Nat.pow_pos hbase)
    _ ≤ limit * base ^ most := Nat.mul_le_mul_left _ (Nat.pow_le_pow_right hbase hk)
    _ ≤ bound := hbound

/-- No number has more than 767 digits. -/
theorem ofPattern_digits_lt (hlt : pattern < Binary.infinity) :
    (ofPattern pattern).digits < 10 ^ 767 := by
  have hscale := scale_lt hlt
  simp only [ofPattern, Nat.pow_eq]
  split
  · have hk : Binary.scale pattern - 1074 ≤ 971 := by omega
    have htwos : 2 ^ 53 * 2 ^ 971 < 10 ^ 767 := two_pow_mul_two_pow_lt (by decide)
    have hlt := mul_pow_lt (@significand_lt pattern) Nat.two_pos hk (Nat.le_of_lt htwos)
    exact hlt
  · have hk : 1074 - Binary.scale pattern ≤ 53 + 1021 := by omega
    have hfives : 2 ^ 53 * 5 ^ (53 + 1021) < 10 ^ 767 :=
      two_pow_mul_five_pow_lt (b := 307) rfl (by decide)
    have hlt := mul_pow_lt (@significand_lt pattern) (by decide) hk (Nat.le_of_lt hfives)
    exact hlt

theorem pow_le_mul_five {n k limit : Nat} (hn : 0 < n) (hk : 2 ^ k ≤ limit) :
    10 ^ k ≤ n * 5 ^ k * limit := by
  rw [show 10 ^ k = 5 ^ k * 2 ^ k from Nat.mul_pow 5 2 k]
  exact Nat.mul_le_mul (Nat.le_mul_of_pos_left _ hn) hk

/-- Fives in place of tens make a number shorter, by less than a power of two. -/
theorem le_digitCount_mul_five {n k most : Nat} (hn : 0 < n) (hk : 2 ^ k ≤ 10 ^ (most + 1)) :
    k ≤ digitCount (n * 5 ^ k) + most := by
  apply Nat.le_of_not_lt
  intro hfew
  have hpos := digitCount_pos (n * 5 ^ k)
  have hcount : digitCount (n * 5 ^ k) ≤ k - (most + 1) := by omega
  have hlt : n * 5 ^ k < 10 ^ (k - (most + 1)) := (digitCount_le_iff (by omega)).mp hcount
  have hten : 10 ^ k = 10 ^ (k - (most + 1)) * 10 ^ (most + 1) := by
    rw [← Nat.pow_add, Nat.sub_add_cancel (by omega)]
  have hge := pow_le_mul_five hn hk
  rw [hten] at hge
  exact absurd (Nat.le_of_mul_le_mul_right hge (Nat.pow_pos (by decide))) (Nat.not_le.mpr hlt)

theorem digitCount_mul_five_le {n k most : Nat} (hn : n < 10 ^ most) (hmost : 0 < most) :
    digitCount (n * 5 ^ k) ≤ most + k := by
  rw [digitCount_le_iff (by omega), Nat.pow_add]
  exact Nat.mul_lt_mul_of_lt_of_le hn (Nat.pow_le_pow_left (by decide) k) (Nat.pow_pos (by decide))

/-- Numbers are neither so large nor so small that they are rounded without a look at their
digits. -/
theorem ofPattern_top (hpos : 0 < pattern) (hlt : pattern < Binary.infinity) :
    -330 ≤ (digitCount (ofPattern pattern).digits : Int) + (ofPattern pattern).exponent ∧
      (digitCount (ofPattern pattern).digits : Int) + (ofPattern pattern).exponent ≤ 310 := by
  have hscale := scale_lt hlt
  have hsig := significand_pos hpos
  have hsig' := @significand_lt pattern
  simp only [ofPattern, Nat.pow_eq]
  generalize pattern - Binary.scale pattern * Binary.exponentUnit = sig at hsig hsig'
  split
  · have hk : Binary.scale pattern - 1074 ≤ 971 := by omega
    have htwos : 2 ^ 53 * 2 ^ 971 < 10 ^ 310 := two_pow_mul_two_pow_lt (by decide)
    have hcount : digitCount (sig * 2 ^ (Binary.scale pattern - 1074)) ≤ 310 :=
      (digitCount_le_iff (by decide)).mpr (mul_pow_lt hsig' Nat.two_pos hk (Nat.le_of_lt htwos))
    dsimp only
    omega
  · generalize hk : 1074 - Binary.scale pattern = k
    have htwo : 2 ^ k < 10 ^ (330 + 1) := two_pow_lt_ten_pow (by omega)
    have hlow : k ≤ digitCount (sig * 5 ^ k) + 330 :=
      le_digitCount_mul_five hsig (Nat.le_of_lt htwo)
    have hhigh : digitCount (sig * 5 ^ k) ≤ 16 + k :=
      digitCount_mul_five_le (Nat.lt_trans hsig' (by decide)) (by decide)
    dsimp only
    omega

theorem mul_two_pow_sub {n scale all : Nat} (h : all ≤ scale) :
    n * 2 ^ (scale - all) * 2 ^ all = n * 2 ^ scale := by
  rw [Nat.mul_assoc, ← Nat.pow_add, Nat.sub_add_cancel h]

theorem mul_five_pow_sub {n scale all : Nat} (h : scale ≤ all) :
    n * 5 ^ (all - scale) * 2 ^ all = n * 2 ^ scale * 10 ^ (all - scale) := by
  have htwo : 2 ^ all = 2 ^ scale * 2 ^ (all - scale) := by
    rw [← Nat.pow_add, Nat.add_sub_cancel' h]
  have hten : 10 ^ (all - scale) = 5 ^ (all - scale) * 2 ^ (all - scale) := Nat.mul_pow 5 2 _
  rw [htwo, hten, Nat.mul_assoc, Nat.mul_assoc, Nat.mul_left_comm (5 ^ (all - scale))]

/-- All digits of a number read as that number. -/
theorem round_ofPattern (hpos : 0 < pattern) (hlt : pattern < Binary.infinity) :
    (ofPattern pattern).round false = Binary.ofMagnitude false pattern := by
  obtain ⟨hlow, hhigh⟩ := ofPattern_top hpos hlt
  have hdigits := Nat.ne_of_gt (ofPattern_digits_pos hpos)
  have hone : Binary.one = 2 ^ 1074 := by rw [Binary.one, Nat.pow_eq]
  have hunits : Binary.nearestPattern (Binary.patternUnits pattern) 1 = pattern :=
    Binary.nearestPattern_patternUnits (Nat.le_of_lt hlt)
  rw [round, if_neg (by omega), if_neg (by omega)]
  simp only [ofPattern, Binary.patternUnits, Nat.pow_eq] at hunits ⊢
  generalize pattern - Binary.scale pattern * Binary.exponentUnit = sig at hunits ⊢
  split
  · next hscale =>
    dsimp only
    rw [if_pos (Int.le_refl 0), Binary.nearest, Int.toNat_zero, Nat.pow_zero, Nat.mul_one, hone,
      mul_two_pow_sub hscale, hunits]
  · next hscale =>
    have hquotient := Binary.nearestPattern_mul_right (sig * 2 ^ Binary.scale pattern) 1
      (Nat.pow_pos (by decide : 0 < 10) : 0 < 10 ^ (1074 - Binary.scale pattern))
    rw [Nat.one_mul, hunits] at hquotient
    dsimp only
    rw [if_neg (by omega), Binary.nearest, Int.neg_neg, Int.toNat_natCast, hone,
      mul_five_pow_sub (by omega), hquotient]

end Digits

end ScopedScript.Decimal
