import Mathlib.Order.WithBot
import ScopedScript.Proofs.Number.Nearest

/-!
# Exact values and their order

A number that is taken apart is a significand times a power of two with a sign, or an infinity, or
not a number. Its value so read is the quotient that its count of units stands for, and the order of
counts is the order of values.

An integer and a number are compared without rounding the integer. Numbers outside the range of the
integers lie beyond all of them. Inside it the integer part is an integer too; if it is another one
then it decides, because the fraction is less than one, and otherwise the fraction decides alone.
-/

namespace ScopedScript.Binary

open Float.Model Float.Model.UnpackedFloat

/-! ## Values -/

/-- A rational number among those with an infinity on either side. -/
def ofRat (q : ℚ) : WithBot (WithTop ℚ) := ((q : WithTop ℚ) : WithBot (WithTop ℚ))

theorem ofRat_strictMono : StrictMono ofRat :=
  WithBot.coe_strictMono.comp WithTop.coe_strictMono

/-- The value of a number that is taken apart. -/
def unpackedValue : UnpackedFloat → Option (WithBot (WithTop ℚ))
  | .infinity .negative => some ⊥
  | .infinity .positive => some ⊤
  | .notANumber => none
  | .zero _ => some (ofRat 0)
  | .finite sign mantissa exponent _ => some (ofRat (sign.apply mantissa * 2 ^ exponent))

/-- The value of a number; NaN has none. -/
def exactValue (x : Float) : Option (WithBot (WithTop ℚ)) := unpackedValue x.toModel.unpack

/-- The value of an extended count of units. -/
def Extended.value : Extended → WithBot (WithTop ℚ)
  | .negativeInfinity => ⊥
  | .finite count => ofRat (count / one)
  | .positiveInfinity => ⊤

theorem isSome_exactValue (x : Float) : (exactValue x).isSome = !x.isNaN := by
  rw [exactValue, Float.isNaN, Float.Model.isNaN]
  cases x.toModel.unpack with
  | infinity sign => cases sign <;> rfl
  | notANumber => rfl
  | zero => rfl
  | finite => rfl

theorem exactValue_of_isNaN {x : Float} (h : x.isNaN) : exactValue x = none := by
  rw [← Option.not_isSome_iff_eq_none, isSome_exactValue, h]
  exact Bool.false_ne_true

/-! ## Values from patterns -/

/-- The sign of a number. -/
def signOf (x : Float) : Sign := if isNegative x then .negative else .positive

/-- The bits of a number, as they are taken apart. -/
def bitsOf (x : Float) : BitVec (Format.numBits .binary64) := x.toBits.toBitVec

theorem toNat_bitsOf (x : Float) : (bitsOf x).toNat = x.toBits.toNat := rfl

theorem ofBitVec_unpackSign (x : Float) :
    Sign.ofBitVec (unpackSign (bitsOf x)) = signOf x := by
  have hlt : x.toBits.toNat < 2 ^ 64 := x.toBits.toNat_lt
  have hsign := toNat_unpackSign (bitsOf x)
  rw [toNat_bitsOf] at hsign
  simp only [Sign.ofBitVec, signOf, isNegative, decide_eq_true_eq,
    show signUnit = 2 ^ 63 from rfl]
  by_cases hnegative : 2 ^ 63 ≤ x.toBits.toNat
  · rw [if_neg, if_pos hnegative]
    intro hzero
    rw [hzero] at hsign
    simp only [BitVec.toNat_ofNat] at hsign
    omega
  · rw [if_pos, if_neg hnegative]
    apply BitVec.eq_of_toNat_eq
    rw [hsign]
    simp only [BitVec.toNat_ofNat]
    omega

theorem magnitude_eq (x : Float) :
    magnitude x = (unpackExponent (bitsOf x)).toNat * exponentUnit +
      (unpackMantissa (bitsOf x)).toNat := by
  rw [toNat_unpackExponent, toNat_unpackMantissa, toNat_bitsOf]
  simp only [magnitude, signUnit, exponentUnit, Nat.pow_eq]
  omega

-- The power that makes a unit stands behind a variable, so that it is not computed.
theorem two_zpow_eq {s n : Nat} {e : Int} (hn : 1074 = n) (he : e = (s : Int) - n) :
    (2 : ℚ) ^ e = 2 ^ s / one := by
  rw [he, Decimal.one_eq_two_pow hn, zpow_sub₀ two_ne_zero, zpow_natCast, zpow_natCast,
    Nat.cast_pow, Nat.cast_ofNat]

theorem units_of_isFinite {x : Float} (h : isFinite x) :
    units x = some ((signOf x).apply (patternUnits (magnitude x))) := by
  unfold units signOf
  generalize patternUnits (magnitude x) = count
  rw [if_pos h]
  cases isNegative x <;> simp [Sign.apply]

theorem extended_of_not_isFinite {x : Float} (h : ¬ isFinite x) :
    extended x = if isNaN x then none
      else if isNegative x then some .negativeInfinity else some .positiveInfinity := by
  rw [extended, units, if_neg h]

/-- A finite number is a significand times a power of two. -/
theorem value_extended_of_isFinite {x : Float} {s m : Nat} {e : Int} (hfinite : isFinite x)
    (hmagnitude : magnitude x = s * exponentUnit + m) (hle : m ≤ 2 * exponentUnit)
    (hge : 0 < s → exponentUnit ≤ m) (he : e = (s : Int) - (1074 : Nat)) :
    (extended x).map Extended.value = some (ofRat ((signOf x).apply m * 2 ^ e)) := by
  have hunits := patternUnits_eq hle hge
  rw [← hmagnitude] at hunits
  have hsigned : ((signOf x).apply (patternUnits (magnitude x)) : ℚ) =
      (signOf x).apply m * 2 ^ s := by
    rw [hunits]
    cases signOf x <;> simp [Sign.apply]
  rw [extended, units_of_isFinite hfinite, two_zpow_eq rfl he, ← mul_div_assoc, ← hsigned]
  simp only [Option.map_some, Extended.value]

section Fields

variable {x : Float}

theorem isFinite_of_field (h : unpackExponent (bitsOf x) ≠ -1#11) : isFinite x := by
  have hm : (unpackMantissa (bitsOf x)).toNat < 2 ^ 52 := (unpackMantissa (bitsOf x)).isLt
  have hfield : (unpackExponent (bitsOf x)).toNat < 2 ^ 11 := (unpackExponent (bitsOf x)).isLt
  have hne : (unpackExponent (bitsOf x)).toNat ≠ 2047 := by
    intro hnat
    exact h (BitVec.eq_of_toNat_eq (by simpa using hnat))
  simp only [isFinite, decide_eq_true_eq, magnitude_eq, infinity,
    show exponentUnit = 2 ^ 52 from rfl]
  omega

/-- The highest exponent field is that of the infinities and of NaN. -/
theorem unpackedValue_of_ones (h : unpackExponent (bitsOf x) = -1#11) :
    unpackedValue (UnpackedFloat.unpack .binary64 (bitsOf x)) =
      (extended x).map Extended.value := by
  have hmagnitude := magnitude_eq x
  rw [show (unpackExponent (bitsOf x)).toNat = 2047 by rw [h]; rfl] at hmagnitude
  change magnitude x = infinity + _ at hmagnitude
  simp only [UnpackedFloat.unpack, ofBitVec_unpackSign]
  rw [if_pos h, extended_of_not_isFinite (by simp [isFinite, hmagnitude]), isNaN, hmagnitude]
  split
  · next hzero =>
    rw [hzero, signOf]
    cases isNegative x <;> simp [unpackedValue, Extended.value]
  · next hrest =>
    have hpos : 0 < (unpackMantissa (bitsOf x)).toNat := by
      simpa [BitVec.toNat_pos, BitVec.pos_iff_ne_zero] using hrest
    rw [if_pos (by simpa using hpos)]
    rfl

/-- The lowest exponent field is that of zero and of the numbers next to it, whose significands are
counts of units. -/
theorem unpackedValue_of_zero (h : unpackExponent (bitsOf x) = 0#11) :
    unpackedValue (UnpackedFloat.unpack .binary64 (bitsOf x)) =
      (extended x).map Extended.value := by
  have hm : (unpackMantissa (bitsOf x)).toNat < 2 ^ 52 := (unpackMantissa (bitsOf x)).isLt
  have hunit : exponentUnit = 2 ^ 52 := rfl
  have hmagnitude := magnitude_eq x
  have hfinite : isFinite x := isFinite_of_field (by rw [h]; decide)
  rw [h] at hmagnitude
  rw [value_extended_of_isFinite hfinite hmagnitude (by omega)
    (fun hpos => absurd hpos (Nat.lt_irrefl 0)) rfl]
  simp only [UnpackedFloat.unpack, ofBitVec_unpackSign]
  rw [if_neg (by rw [h]; decide), if_pos h]
  split
  · next hzero =>
    rw [hzero]
    cases signOf x <;> simp [unpackedValue, Sign.apply]
  · next hrest =>
    rw [unpackedValue, h]
    rfl

/-- The other exponent fields add a leading bit to the significand. -/
theorem unpackedValue_of_normal (hones : unpackExponent (bitsOf x) ≠ -1#11)
    (hzero : unpackExponent (bitsOf x) ≠ 0#11) :
    unpackedValue (UnpackedFloat.unpack .binary64 (bitsOf x)) =
      (extended x).map Extended.value := by
  have hm : (unpackMantissa (bitsOf x)).toNat < 2 ^ 52 := (unpackMantissa (bitsOf x)).isLt
  have hpos : 0 < (unpackExponent (bitsOf x)).toNat := by
    simpa [BitVec.toNat_pos, BitVec.pos_iff_ne_zero] using hzero
  have hunit : exponentUnit = 2 ^ 52 := rfl
  have happend : (1#1 ++ unpackMantissa (bitsOf x)).toNat =
      2 ^ 52 + (unpackMantissa (bitsOf x)).toNat := by
    rw [BitVec.toNat_append, ← Nat.shiftLeft_add_eq_or_of_lt hm]
    rfl
  have hmagnitude : magnitude x = ((unpackExponent (bitsOf x)).toNat - 1) * exponentUnit +
      (1#1 ++ unpackMantissa (bitsOf x)).toNat := by
    rw [magnitude_eq, happend, hunit]
    omega
  have hexponent : ((unpackExponent (bitsOf x)).toNat : Int) -
      ((Format.exponentBias .binary64 : Nat) + (52 : Nat)) =
        (((unpackExponent (bitsOf x)).toNat - 1 : Nat) : Int) - (1074 : Nat) := by
    rw [show Format.exponentBias .binary64 = 1023 from rfl]
    omega
  rw [value_extended_of_isFinite (isFinite_of_field hones) hmagnitude (by omega)
    (fun _ => by omega) hexponent]
  simp only [UnpackedFloat.unpack, ofBitVec_unpackSign]
  rw [if_neg hones, if_neg hzero]
  rfl

end Fields

/-- The value of a number is that of its count of units. -/
theorem exactValue_eq (x : Float) : exactValue x = (extended x).map Extended.value := by
  by_cases hones : unpackExponent (bitsOf x) = -1#11
  · exact unpackedValue_of_ones hones
  · by_cases hzero : unpackExponent (bitsOf x) = 0#11
    · exact unpackedValue_of_zero hzero
    · exact unpackedValue_of_normal hones hzero

/-! ## Order -/

/-- Counts are ordered like their values. -/
theorem Extended.compare_eq_cmp (a b : Extended) : a.compare b = cmp a.value b.value := by
  have hone : (0 : ℚ) < one := Nat.cast_pos.mpr Binary.one_pos
  have hmono : StrictMono fun count : Int => ofRat (count / one) := by
    intro m n hlt
    exact ofRat_strictMono (div_lt_div_of_pos_right (Int.cast_lt.mpr hlt) hone)
  cases a with
  | negativeInfinity => cases b <;> rfl
  | finite m =>
    cases b with
    | negativeInfinity => rfl
    | finite n => exact (cmp_eq_compare m n).symm.trans (hmono.cmp_map_eq m n).symm
    | positiveInfinity => rfl
  | positiveInfinity => cases b <;> rfl

/-- Two numbers compare as their values. -/
theorem compare_eq (x y : Float) :
    compare x y = (exactValue x).bind fun v => (exactValue y).map (cmp v) := by
  rw [compare, exactValue_eq, exactValue_eq]
  cases extended x with
  | none => rfl
  | some a =>
    cases extended y with
    | none => rfl
    | some b => exact congrArg some (a.compare_eq_cmp b)

/-! ## Integers among numbers -/

theorem extended_of_isNaN {x : Float} (h : isNaN x) : extended x = none := by
  have hinfinite : ¬ isFinite x := by
    simp only [isNaN, isFinite, decide_eq_true_eq] at h ⊢
    omega
  rw [extended_of_not_isFinite hinfinite, if_pos h]

theorem exists_extended {x : Float} (h : ¬ isNaN x) : ∃ a, extended x = some a := by
  by_cases hfinite : isFinite x
  · exact ⟨_, by rw [extended, units_of_isFinite hfinite]⟩
  · rw [extended_of_not_isFinite hfinite, if_neg h]
    split <;> exact ⟨_, rfl⟩

theorem units_of_extended {x : Float} {count : Int} (h : extended x = some (.finite count)) :
    units x = some count := by
  unfold extended at h
  split at h
  · next hunits =>
    cases h
    exact hunits
  · split at h
    · cases h
    · split at h <;> cases h

theorem compare_of_extended {x y : Float} {a b : Extended} (hx : extended x = some a)
    (hy : extended y = some b) : compare x y = some (a.compare b) := by
  rw [compare, hx, hy]
  rfl

/-- The least integer is a number, and so is its opposite, the first integer that is too large. -/
theorem extended_ofInt_minValue :
    extended (-ofInt Int64.minValue.toInt) = some (.finite (2 ^ 63 * one)) ∧
      extended (ofInt Int64.minValue.toInt) = some (.finite (-2 ^ 63 * one)) := by
  decide +kernel

theorem tdiv_lt_of_lt_mul {c d n : Int} (hn : 0 < n) (hd : 0 < d) (h : c < n * d) :
    c.tdiv d < n := by
  rcases le_total 0 c with hnonneg | hnonpos
  · have hle : d * c.tdiv d ≤ c := Int.mul_tdiv_self_le hnonneg
    exact lt_of_mul_lt_mul_left (by linarith) hd.le
  · have hle : c.tdiv d ≤ Int.tdiv 0 d := Int.tdiv_le_tdiv hd hnonpos
    rw [Int.zero_tdiv] at hle
    exact hle.trans_lt hn

/-- The order to a multiple is that of the quotients, or else that of the remainder. -/
theorem compare_mul_eq (a c : Int) {d : Int} (hd : 0 < d) :
    Ord.compare (a * d) c = (Ord.compare a (c.tdiv d)).then (Ord.compare 0 (c.tmod d)) := by
  have hsplit : c.tdiv d * d + c.tmod d = c := Int.tdiv_mul_add_tmod c d
  have hlow : -d < c.tmod d := Int.lt_tmod_of_pos c hd
  have hhigh : c.tmod d < d := Int.tmod_lt_of_pos c hd
  generalize c.tdiv d = quotient at hsplit ⊢
  generalize c.tmod d = rest at hsplit hlow hhigh ⊢
  rcases lt_trichotomy a quotient with hless | rfl | hgreater
  · have hmul : (a + 1) * d ≤ quotient * d := mul_le_mul_of_nonneg_right hless hd.le
    rw [compare_lt_iff_lt.mpr hless, compare_lt_iff_lt.mpr (by linarith)]
    rfl
  · rw [compare_eq_iff_eq.mpr rfl, Ordering.then, ← hsplit]
    rw [← cmp_eq_compare, ← cmp_eq_compare, ← cmp_add_left (a * d) 0 rest, add_zero]
  · have hmul : (quotient + 1) * d ≤ a * d := mul_le_mul_of_nonneg_right hgreater hd.le
    rw [compare_gt_iff_gt.mpr hgreater, compare_gt_iff_gt.mpr (by linarith)]
    rfl

/-- An integer and a finite number compare by their counts, whichever branch decides. -/
theorem compareInt_of_finite (a : Int64) {b : Float} {count : Int}
    (h : extended b = some (.finite count)) :
    compareInt a.toInt b = some (Ord.compare (a.toInt * one) count) := by
  have hone : (0 : Int) < one := Int.natCast_pos.mpr Binary.one_pos
  have hlow : -2 ^ 63 ≤ a.toInt := a.le_toInt
  have hhigh : a.toInt < 2 ^ 63 := a.toInt_lt
  have hnan : ¬ isNaN b := by
    intro hnan
    rw [extended_of_isNaN hnan] at h
    contradiction
  rw [compareInt, if_neg hnan, compare_of_extended h extended_ofInt_minValue.1,
    compare_of_extended h extended_ofInt_minValue.2, truncate, fraction, units_of_extended h]
  simp only [Extended.compare, Option.any_some, Int.isGE_compare, Option.some.injEq,
    compare_lt_iff_lt, Option.map_some]
  generalize one = unit at hone ⊢
  split
  · next habove =>
    have hless : a.toInt * unit < 2 ^ 63 * unit := mul_lt_mul_of_pos_right hhigh hone
    rw [compare_lt_iff_lt.mpr (by omega)]
  · next habove =>
    split
    · next hbelow =>
      have hle : -2 ^ 63 * unit ≤ a.toInt * unit := mul_le_mul_of_nonneg_right hlow hone.le
      rw [compare_gt_iff_gt.mpr (by omega)]
    · next hbelow =>
      -- Between the two bounds the integer part fits, so the conversion keeps it.
      have hfits : (Int64.ofInt (count.tdiv unit)).toInt = count.tdiv unit :=
        Int64.toInt_ofInt_of_le (Int.le_tdiv_of_mul_le hone (by omega))
          (tdiv_lt_of_lt_mul (by decide) hone (by omega))
      have hparts := compare_mul_eq a.toInt count hone
      rw [← hfits] at hparts
      rw [hparts]
      rfl

/-- An integer and a number compare as their values. -/
theorem compareInt_eq (a : Int64) (b : Float) :
    compareInt a.toInt b = (exactValue b).map (cmp (ofRat a.toInt)) := by
  have hone : (one : ℚ) ≠ 0 := Nat.cast_ne_zero.mpr Binary.one_pos.ne'
  have hvalue : (Extended.finite (a.toInt * one)).value = ofRat a.toInt := by
    rw [Extended.value, Int.cast_mul, Int.cast_natCast, mul_div_cancel_right₀ _ hone]
  rw [exactValue_eq]
  by_cases hnan : isNaN b
  · rw [compareInt, if_pos hnan, extended_of_isNaN hnan]
    rfl
  · obtain ⟨value, h⟩ := exists_extended hnan
    have hcompare : compareInt a.toInt b =
        some ((Extended.finite (a.toInt * one)).compare value) := by
      cases value with
      | finite count => exact compareInt_of_finite a h
      | negativeInfinity =>
        rw [compareInt, if_neg hnan, compare_of_extended h extended_ofInt_minValue.1,
          compare_of_extended h extended_ofInt_minValue.2]
        rfl
      | positiveInfinity =>
        rw [compareInt, if_neg hnan, compare_of_extended h extended_ofInt_minValue.1]
        rfl
    rw [hcompare, h, Extended.compare_eq_cmp, hvalue]
    rfl

end ScopedScript.Binary
