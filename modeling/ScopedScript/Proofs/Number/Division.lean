import Mathlib.Data.Rat.Floor
import ScopedScript.Number.Integer

/-!
# Division of words, step by step

A processor cuts quotients toward zero, and its remainders take the sign of the dividend. Division
rounded down is made of these by a correction: where the division leaves a rest and the signs of its
operands differ, the quotient is one less and the remainder one divisor more.

The steps are taken on words, and a step whose exact result is no word is a crash. None is: the only
quotient that is no word is that of the least word and minus one, which leaves no rest to correct.
-/

namespace ScopedScript.Integer

/-! ## Words -/

/-- The integers that words of sixty-four bits hold. -/
def Fits (n : Int) : Prop := -2 ^ 63 ≤ n ∧ n < 2 ^ 63

instance (n : Int) : Decidable (Fits n) := inferInstanceAs (Decidable (_ ∧ _))

theorem fits_toInt (n : Int64) : Fits n.toInt := ⟨n.le_toInt, n.toInt_lt⟩

theorem fit?_eq_none_iff {m : Int} : fit? m = none ↔ ¬ Fits m := by
  have hlow : Int64.minValue.toInt = -2 ^ 63 := by decide
  have hhigh : Int64.maxValue.toInt = 2 ^ 63 - 1 := by decide
  rw [fit?, ite_eq_right_iff, hlow, hhigh, Fits]
  constructor
  · intro h hfits
    exact Option.some_ne_none _ (h (by omega))
  · intro h hfits
    exact absurd (by omega) h

theorem exists_fit?_of_fits {m : Int} (h : Fits m) :
    ∃ n : Int64, fit? m = some n ∧ n.toInt = m := by
  obtain ⟨n, hn⟩ := Option.ne_none_iff_exists'.mp fun hnone => fit?_eq_none_iff.mp hnone h
  exact ⟨n, hn, toInt_of_fit? hn⟩

theorem toInt_eq_zero_iff {n : Int64} : n.toInt = 0 ↔ n = 0 := by
  rw [← Int64.toInt_inj, Int64.toInt_zero]

theorem lt_zero_iff {n : Int64} : n < 0 ↔ n.toInt < 0 := by
  rw [Int64.lt_iff_toInt_lt, Int64.toInt_zero]

/-! ## Rounding down -/

/-- A quotient rounded down is the floor of the exact one. -/
theorem floor_div (a b : Int) : ⌊(a / b : ℚ)⌋ = a.fdiv b := by
  have hnonneg : ∀ a b : Int, 0 ≤ b → ⌊(a / b : ℚ)⌋ = a.fdiv b := by
    intro a b hb
    obtain ⟨n, rfl⟩ := Int.eq_ofNat_of_zero_le hb
    rw [Int.fdiv_eq_ediv_of_nonneg a hb, Int.cast_natCast]
    exact Rat.floor_intCast_div_natCast a n
  obtain hb | hb := Int.le_total 0 b
  · exact hnonneg a b hb
  · have hneg := hnonneg (-a) (-b) (Int.neg_nonneg.mpr hb)
    rwa [Int.neg_fdiv_neg, Int.cast_neg, Int.cast_neg, neg_div_neg_eq] at hneg

/-- The remainder lies between zero and the divisor. -/
theorem fmod_between {b : Int} (hb : b ≠ 0) (a : Int) :
    0 ≤ a.fmod b ∧ a.fmod b < b ∨ b < a.fmod b ∧ a.fmod b ≤ 0 := by
  obtain hpos | hneg : 0 < b ∨ b < 0 := by omega
  · exact .inl ⟨Int.fmod_nonneg_of_pos a hpos, Int.fmod_lt_of_pos a hpos⟩
  · have hpos : 0 < -b := by omega
    have hlow := Int.fmod_nonneg_of_pos (-a) hpos
    have hhigh := Int.fmod_lt_of_pos (-a) hpos
    rw [Int.neg_fmod_neg] at hlow hhigh
    exact .inr ⟨by omega, by omega⟩

/-- Where the remainder has to lie tells the quotient. -/
theorem fdiv_eq_of_between {a b q r : Int} (h : b * q + r = a)
    (hr : 0 ≤ r ∧ r < b ∨ b < r ∧ r ≤ 0) : a.fdiv b = q := by
  have hb : b ≠ 0 := by omega
  have hother := Int.mul_fdiv_add_fmod a b
  have hbetween := fmod_between hb a
  have hdiff : b * (a.fdiv b - q) = r - a.fmod b := by
    rw [Int.mul_sub]
    omega
  have hsmall : (r - a.fmod b).natAbs < b.natAbs := by omega
  have hzero : r - a.fmod b = 0 :=
    Int.eq_zero_of_dvd_of_natAbs_lt_natAbs ⟨_, hdiff.symm⟩ hsmall
  rw [hzero] at hdiff
  have hquotient := (Int.mul_eq_zero.mp hdiff).resolve_left hb
  omega

/-! ## Cutting toward zero -/

/-- The rest is less than the divisor and has the sign of the dividend. -/
theorem tmod_between {b : Int} (hb : b ≠ 0) (a : Int) : (a.tmod b).natAbs < b.natAbs ∧
    (0 ≤ a → 0 ≤ a.tmod b) ∧ (a ≤ 0 → a.tmod b ≤ 0) := by
  refine ⟨?_, Int.tmod_nonneg b, ?_⟩
  · rw [Int.natAbs_tmod]
    exact Nat.mod_lt _ (by omega)
  · intro ha
    have hneg := Int.tmod_nonneg b (Int.neg_nonneg.mpr ha)
    rw [Int.neg_tmod] at hneg
    omega

/-- Whether a quotient that is cut has to be corrected: there is a rest, and the exact quotient is
negative. -/
def Corrects (a b : Int) : Prop := a.tmod b ≠ 0 ∧ ¬ (a < 0 ↔ b < 0)

/-- A quotient that has to be corrected is cut to one more than its floor. -/
theorem fdiv_of_corrects {a b : Int} (hb : b ≠ 0) (h : Corrects a b) :
    a.fdiv b = a.tdiv b - 1 := by
  obtain ⟨hrest, hsigns⟩ := h
  have hsplit := Int.mul_tdiv_add_tmod a b
  have hbetween := tmod_between hb a
  refine fdiv_eq_of_between (r := a.tmod b + b) ?_ (by omega)
  rw [Int.mul_sub]
  omega

/-- Others are their floors. -/
theorem fdiv_of_not_corrects {a b : Int} (hb : b ≠ 0) (h : ¬ Corrects a b) :
    a.fdiv b = a.tdiv b := by
  have hbetween := tmod_between hb a
  refine fdiv_eq_of_between (Int.mul_tdiv_add_tmod a b) ?_
  rw [Corrects] at h
  omega

theorem fmod_of_corrects {a b : Int} (hb : b ≠ 0) (h : Corrects a b) :
    a.fmod b = a.tmod b + b := by
  rw [Int.fmod_def, fdiv_of_corrects hb h, Int.tmod_def, Int.mul_sub]
  omega

theorem fmod_of_not_corrects {a b : Int} (hb : b ≠ 0) (h : ¬ Corrects a b) :
    a.fmod b = a.tmod b := by
  rw [Int.fmod_def, fdiv_of_not_corrects hb h, Int.tmod_def]

/-- The rest has the sign of the dividend, so that it can be asked in place of it. -/
theorem corrects_iff {a b : Int} (hb : b ≠ 0) :
    Corrects a b ↔ a.tmod b ≠ 0 ∧ ¬ (a.tmod b < 0 ↔ b < 0) := by
  have hbetween := tmod_between hb a
  rw [Corrects]
  omega

/-! ## Steps on words -/

/-- A step of a division cut toward zero: its quotient. -/
def quotient? (a b : Int64) : Option Int64 :=
  if b = 0 then none else fit? (a.toInt.tdiv b.toInt)

/-- A step of a division cut toward zero: its rest. It comes with the quotient, and crashes where
that is no word. -/
def rest? (a b : Int64) : Option Int64 :=
  (quotient? a b).bind fun _ => fit? (a.toInt.tmod b.toInt)

/-- The quotient rounded down, if there is one, unless a step on the way crashes. -/
def floorDivSteps (a b : Int64) : Option (Option Int64) :=
  match quotient? a b with
  | none => some none
  | some q => do
    let r ← rest? a b
    if r ≠ 0 ∧ ¬ (a < 0 ↔ b < 0) then return some (← fit? (q.toInt - 1)) else return some q

/-- The remainder that takes the sign of the divisor, if there is one, unless a step on the way
crashes. Where a division has no quotient its rest is taken to be zero. -/
def floorModSteps (a b : Int64) : Option (Option Int64) :=
  if b = 0 then some none
  else
    let r := (rest? a b).getD 0
    if r ≠ 0 ∧ ¬ (r < 0 ↔ b < 0) then do return some (← fit? (r.toInt + b.toInt))
    else some (some r)

section Steps

variable {a b : Int64}

/-- A rest is a word. -/
theorem fits_tmod (hb : b ≠ 0) : Fits (a.toInt.tmod b.toInt) := by
  have hbetween := tmod_between (mt toInt_eq_zero_iff.mp hb) a.toInt
  have hfits := fits_toInt b
  unfold Fits at *
  omega

/-- So is a remainder. -/
theorem fits_fmod (hb : b ≠ 0) : Fits (a.toInt.fmod b.toInt) := by
  have hbetween := fmod_between (mt toInt_eq_zero_iff.mp hb) a.toInt
  have hfits := fits_toInt b
  unfold Fits at *
  omega

/-- Where there is a rest, the quotient is at most half of the dividend. -/
theorem natAbs_tdiv_le (hb : b ≠ 0) (h : a.toInt.tmod b.toInt ≠ 0) :
    (a.toInt.tdiv b.toInt).natAbs ≤ a.toInt.natAbs / 2 := by
  have hlt := (tmod_between (mt toInt_eq_zero_iff.mp hb) a.toInt).1
  have htwo : 2 ≤ b.toInt.natAbs := by omega
  rw [Int.natAbs_tdiv]
  exact Nat.div_le_div_left htwo (by decide)

theorem fits_of_corrects (hb : b ≠ 0) (h : Corrects a.toInt b.toInt) :
    Fits (a.toInt.tdiv b.toInt) ∧ Fits (a.toInt.tdiv b.toInt - 1) := by
  have hhalf := natAbs_tdiv_le hb h.1
  have hfits := fits_toInt a
  unfold Fits at *
  omega

/-- Where the quotient is no word, nothing is left. -/
theorem tmod_eq_zero_of_not_fits (hb : b ≠ 0) (h : ¬ Fits (a.toInt.tdiv b.toInt)) :
    a.toInt.tmod b.toInt = 0 := by
  by_contra hrest
  have hhalf := natAbs_tdiv_le hb hrest
  have hfits := fits_toInt a
  unfold Fits at *
  omega

/-- What is left, or zero where the quotient is no word, is the exact rest. -/
theorem toInt_getD_rest? (hb : b ≠ 0) : ((rest? a b).getD 0).toInt = a.toInt.tmod b.toInt := by
  rw [rest?, quotient?, if_neg hb]
  cases hquotient : fit? (a.toInt.tdiv b.toInt) with
  | none => exact (tmod_eq_zero_of_not_fits hb (fit?_eq_none_iff.mp hquotient)).symm
  | some q =>
    obtain ⟨r, hr, hvalue⟩ := exists_fit?_of_fits (fits_tmod (a := a) hb)
    rw [Option.bind_some, hr, Option.getD_some, hvalue]

/-- **Division rounded down does not crash**, and yields the quotient of exact division. -/
theorem floorDivSteps_eq (a b : Int64) : floorDivSteps a b = some (floorDiv? a b) := by
  by_cases hb : b = 0
  · rw [floorDivSteps, quotient?, floorDiv?, if_pos hb, if_pos hb]
  · have hzero := mt toInt_eq_zero_iff.mp hb
    rw [floorDivSteps, rest?, quotient?, floorDiv?, if_neg hb, if_neg hb]
    by_cases hcorrects : Corrects a.toInt b.toInt
    · obtain ⟨hfits, hfits'⟩ := fits_of_corrects hb hcorrects
      obtain ⟨q, hq, hvalue⟩ := exists_fit?_of_fits hfits
      obtain ⟨r, hr, hrest⟩ := exists_fit?_of_fits (fits_tmod (a := a) hb)
      obtain ⟨q', hq', -⟩ := exists_fit?_of_fits hfits'
      have hcond : r ≠ 0 ∧ ¬ (a < 0 ↔ b < 0) := by
        rwa [lt_zero_iff, lt_zero_iff, Ne, ← toInt_eq_zero_iff, hrest]
      rw [fdiv_of_corrects hzero hcorrects, hq']
      simp only [hq, hr, Option.bind_some, Option.bind_eq_bind, if_pos hcond, hvalue, hq']
      rfl
    · rw [fdiv_of_not_corrects hzero hcorrects]
      cases hq : fit? (a.toInt.tdiv b.toInt) with
      | none => rfl
      | some q =>
        obtain ⟨r, hr, hrest⟩ := exists_fit?_of_fits (fits_tmod (a := a) hb)
        have hcond : ¬ (r ≠ 0 ∧ ¬ (a < 0 ↔ b < 0)) := by
          rwa [lt_zero_iff, lt_zero_iff, Ne, ← toInt_eq_zero_iff, hrest]
        simp only [hr, Option.bind_some, Option.bind_eq_bind, if_neg hcond]
        rfl

/-- **So does the remainder.** -/
theorem floorModSteps_eq (a b : Int64) : floorModSteps a b = some (floorMod? a b) := by
  by_cases hb : b = 0
  · rw [floorModSteps, floorMod?, if_pos hb, if_pos hb]
  · have hzero := mt toInt_eq_zero_iff.mp hb
    have hrest := toInt_getD_rest? (a := a) hb
    obtain ⟨r', hr', hvalue⟩ := exists_fit?_of_fits (fits_fmod (a := a) hb)
    simp only [floorModSteps, floorMod?, if_neg hb, hr']
    generalize (rest? a b).getD 0 = r at hrest
    have hiff : (r ≠ 0 ∧ ¬ (r < 0 ↔ b < 0)) ↔ Corrects a.toInt b.toInt := by
      rw [corrects_iff hzero, lt_zero_iff, lt_zero_iff, Ne, ← toInt_eq_zero_iff, hrest]
    by_cases hcorrects : Corrects a.toInt b.toInt
    · rw [if_pos (hiff.mpr hcorrects), hrest, ← fmod_of_corrects hzero hcorrects, hr']
      rfl
    · rw [if_neg (mt hiff.mp hcorrects)]
      rw [fmod_of_not_corrects hzero hcorrects, ← hrest, Int64.toInt_inj] at hvalue
      rw [hvalue]

end Steps

end ScopedScript.Integer
