import ScopedScript.Number.Integer
import ScopedScript.Proofs.Number.Rounding

/-!
# Numbers written as literals are read back

The shortest digits of a number read as that number, and laid out plainly they still do: the zeros
that the layout adds or leaves out only move the power of ten. An integer is written with its
decimal digits.
-/

namespace ScopedScript.Decimal

/-! ## The digits chosen for a number -/

theorem cut?_spec {pattern dropped : Nat} {d found : Decimal}
    (h : cut? pattern d dropped = some found) :
    found.round false = Binary.ofMagnitude false pattern ∧ found.digits ≤ d.digits + 1 := by
  have hle : d.digits / Nat.pow 10 dropped ≤ d.digits := Nat.div_le_self _ _
  simp only [cut?] at h
  split at h
  · next hlow =>
    split at h
    · next hhigh =>
      cases h
      exact ⟨hhigh.1, Nat.succ_le_succ hle⟩
    · cases h
      exact ⟨hlow, Nat.le_succ_of_le hle⟩
  · split at h
    · next hhigh =>
      cases h
      exact ⟨hhigh, Nat.succ_le_succ hle⟩
    · cases h

/-- The digits chosen for a number read as that number, and there are not too many of them. -/
theorem round_shortest {pattern : Nat} (hpos : 0 < pattern) (hlt : pattern < Binary.infinity) :
    (shortest pattern).round false = Binary.ofMagnitude false pattern ∧
      digitCount (shortest pattern).digits ≤ 768 := by
  have hall := ofPattern_digits_lt hlt
  simp only [shortest]
  cases hfound : (List.range 17).findSome? fun n =>
      cut? pattern (ofPattern pattern) (digitCount (ofPattern pattern).digits - (n + 1)) with
  | none =>
    refine ⟨round_ofPattern hpos hlt, ?_⟩
    have hcount : digitCount (ofPattern pattern).digits ≤ 767 :=
      (digitCount_le_iff (by decide)).mpr hall
    simp only [Option.getD_none]
    omega
  | some found =>
    obtain ⟨n, _, hcut⟩ := List.exists_of_findSome?_eq_some hfound
    obtain ⟨hround, hle⟩ := cut?_spec hcut
    refine ⟨hround, (digitCount_le_iff (by decide)).mpr ?_⟩
    simp only [Option.getD_some]
    have hbound : 10 ^ 767 < 10 ^ 768 := Nat.pow_lt_pow_right (by decide) (by decide)
    omega

/-! ## Layout -/

theorem natOfDigits_append (digits more : List Char) :
    natOfDigits (digits ++ more) = natOfDigits digits * 10 ^ more.length + natOfDigits more := by
  have hstart := @Nat.ofDigitChars_eq_ofDigitChars_zero more (natOfDigits digits)
  rw [Nat.mul_comm] at hstart
  simp only [natOfDigits, List.foldl_append]
  exact hstart

theorem natOfDigits_replicate_zero (n : Nat) : natOfDigits (List.replicate n '0') = 0 :=
  (Nat.ofDigitChars_replicate_zero (b := 10)).trans (Nat.mul_zero _)

theorem natOfDigits_digitsOf (n : Nat) : natOfDigits (digitsOf n) = n :=
  Nat.ofDigitChars_ten_toDigits

theorem isDigit_digitsOf {n : Nat} {c : Char} (h : c ∈ digitsOf n) : c.isDigit :=
  Nat.isDigit_of_mem_toDigits (by decide) (by decide) h

/-- What is trimmed off is zeros. -/
theorem exists_trimZeros_append (digits : List Char) :
    ∃ count, digits = trimZeros digits ++ List.replicate count '0' := by
  have hsplit : digits.reverse.takeWhile (· == '0') ++ digits.reverse.dropWhile (· == '0') =
      digits.reverse := List.takeWhile_append_dropWhile
  have hzeros : digits.reverse.takeWhile (· == '0') =
      List.replicate (digits.reverse.takeWhile (· == '0')).length '0' := by
    apply List.eq_replicate_of_mem
    intro c hc
    simpa using List.all_eq_true.mp List.all_takeWhile c hc
  refine ⟨(digits.reverse.takeWhile (· == '0')).length, ?_⟩
  have hreverse := congrArg List.reverse hsplit
  rw [List.reverse_append, List.reverse_reverse, hzeros, List.reverse_replicate] at hreverse
  exact hreverse.symm

/-- As long as not too many digits count, every one of them is kept. -/
theorem ofDigits_of_significant {whole fraction : List Char}
    (h : ((whole ++ fraction).dropWhile (· == '0')).length ≤ precision) :
    ofDigits whole fraction = ⟨natOfDigits (whole ++ fraction), -(fraction.length : Int)⟩ := by
  simp [ofDigits, List.take_of_length_le h, List.drop_of_length_le h, natOfDigits_dropWhile_zero]

/-- A text of digits with a point among them that is read as a number. -/
def IsNumeral (text : List Char) (x : Float) : Prop :=
  ∃ whole fraction, text = whole ++ '.' :: fraction ∧ whole ≠ [] ∧ whole.all Char.isDigit ∧
    fraction.all Char.isDigit ∧ (ofDigits whole fraction).round false = x

section Plain

variable {digits : List Char} {point : Int} {x : Float}

/-- The point stands before all digits, with zeros between. -/
theorem isNumeral_small (hdigits : digits.all Char.isDigit) (hcount : digits.length ≤ 768)
    (hpoint : point ≤ 0)
    (hx : round false ⟨natOfDigits digits, point - digits.length⟩ = x) :
    IsNumeral (['0', '.'] ++ List.replicate (-point).toNat '0' ++ digits) x := by
  refine ⟨['0'], List.replicate (-point).toNat '0' ++ digits, by simp, by simp, by simp, ?_, ?_⟩
  · simpa [List.all_append] using hdigits
  · have hzeros : ['0'] ++ (List.replicate (-point).toNat '0' ++ digits) =
        List.replicate ((-point).toNat + 1) '0' ++ digits := by
      rw [List.replicate_succ]
      rfl
    rw [ofDigits_of_significant, hzeros, natOfDigits_append, natOfDigits_replicate_zero,
      Nat.zero_mul, Nat.zero_add, ← hx]
    · congr 2
      simp only [List.length_append, List.length_replicate]
      omega
    · rw [hzeros, List.dropWhile_append_of_pos]
      · have hle := (List.dropWhile_sublist (· == '0') (l := digits)).length_le
        simp only [precision]
        omega
      · simp

/-- The point stands behind all digits, with zeros between. -/
theorem isNumeral_large (hdigits : digits.all Char.isDigit) (hpoint : 0 < point)
    (hcount : (digits.length : Int) ≤ point) (htop : point ≤ 310)
    (hx : round false ⟨natOfDigits digits, point - digits.length⟩ = x) :
    IsNumeral (digits ++ List.replicate (point.toNat - digits.length) '0' ++ ['.', '0']) x := by
  have hlength : (digits ++ List.replicate (point.toNat - digits.length) '0').length =
      point.toNat := by
    simp only [List.length_append, List.length_replicate]
    omega
  refine ⟨_, ['0'], rfl, ?_, ?_, by simp, ?_⟩
  · apply List.ne_nil_of_length_pos
    omega
  · simpa [List.all_append] using hdigits
  · have hten : natOfDigits (digits ++ List.replicate (point.toNat - digits.length) '0' ++ ['0']) =
        natOfDigits digits * 10 ^ (point.toNat - digits.length + 1) := by
      rw [List.append_assoc, natOfDigits_append, ← List.replicate_succ', natOfDigits_replicate_zero,
        List.length_replicate, Nat.add_zero]
    rw [ofDigits_of_length_le, hten, round_mul_pow, ← hx]
    · congr 2
      simp only [List.length_singleton]
      omega
    · simp only [List.length_append, List.length_replicate, List.length_singleton, precision]
      omega

/-- The point stands among the digits. -/
theorem isNumeral_middle (hdigits : digits.all Char.isDigit) (hcount : digits.length ≤ 768)
    (hpoint : 0 < point) (hlt : point < digits.length)
    (hx : round false ⟨natOfDigits digits, point - digits.length⟩ = x) :
    IsNumeral (digits.take point.toNat ++ '.' :: digits.drop point.toNat) x := by
  have hsplit : digits.take point.toNat ++ digits.drop point.toNat = digits :=
    List.take_append_drop _ _
  have hall : ∀ c ∈ digits, c.isDigit := List.all_eq_true.mp hdigits
  refine ⟨_, _, rfl, ?_, ?_, ?_, ?_⟩
  · apply List.ne_nil_of_length_pos
    rw [List.length_take]
    omega
  · exact List.all_eq_true.mpr fun c hc => hall c (List.mem_of_mem_take hc)
  · exact List.all_eq_true.mpr fun c hc => hall c (List.mem_of_mem_drop hc)
  · rw [ofDigits_of_length_le, hsplit, ← hx]
    · congr 2
      rw [List.length_drop]
      omega
    · rw [hsplit, precision]
      omega

/-- The three cases of the plain layout. -/
theorem isNumeral_layout (hne : digits ≠ []) (hdigits : digits.all Char.isDigit)
    (hcount : digits.length ≤ 768) (htop : point ≤ 310)
    (hx : round false ⟨natOfDigits digits, point - digits.length⟩ = x) :
    IsNumeral
      (if point ≤ 0 then
        ['0', '.'] ++ List.replicate (-point).toNat '0' ++ (if digits = [] then ['0'] else digits)
      else
        digits.take point.toNat ++
          List.replicate (point.toNat - (digits.take point.toNat).length) '0' ++
          '.' :: (if digits.drop point.toNat = [] then ['0'] else digits.drop point.toNat)) x := by
  by_cases hpoint : point ≤ 0
  · rw [if_pos hpoint, if_neg hne]
    exact isNumeral_small hdigits hcount hpoint hx
  · rw [if_neg hpoint]
    by_cases hlt : point < digits.length
    · have hdrop : digits.drop point.toNat ≠ [] := by
        apply List.ne_nil_of_length_pos
        rw [List.length_drop]
        omega
      have htake : point.toNat - (digits.take point.toNat).length = 0 := by
        rw [List.length_take]
        omega
      rw [if_neg hdrop, htake, List.replicate_zero, List.append_nil]
      exact isNumeral_middle hdigits hcount (by omega) hlt hx
    · have htake : digits.take point.toNat = digits := List.take_of_length_le (by omega)
      have hdrop : digits.drop point.toNat = [] := List.drop_of_length_le (by omega)
      rw [if_pos hdrop, htake]
      exact isNumeral_large hdigits (by omega) (by omega) htop hx

end Plain

/-- Laid out plainly, digits are read as the number they stand for. -/
theorem isNumeral_plain {d : Decimal} (hdigits : d.digits ≠ 0) (hcount : digitCount d.digits ≤ 768)
    (htop : (digitCount d.digits : Int) + d.exponent ≤ 310) :
    IsNumeral d.plain (d.round false) := by
  obtain ⟨zeros, hzeros⟩ := exists_trimZeros_append (digitsOf d.digits)
  have hlength : digitCount d.digits = (trimZeros (digitsOf d.digits)).length + zeros := by
    have hlength := congrArg List.length hzeros
    rwa [List.length_append, List.length_replicate] at hlength
  have hvalue : d.digits = natOfDigits (trimZeros (digitsOf d.digits)) * 10 ^ zeros := by
    have hvalue := congrArg natOfDigits hzeros
    rwa [natOfDigits_append, natOfDigits_replicate_zero, natOfDigits_digitsOf, Nat.add_zero,
      List.length_replicate] at hvalue
  refine isNumeral_layout ?_ ?_ ?_ htop ?_
  · intro hnil
    rw [hnil] at hvalue
    simp [natOfDigits] at hvalue
    exact hdigits hvalue
  · rw [List.all_eq_true]
    intro c hc
    apply isDigit_digitsOf
    rw [hzeros]
    exact List.mem_append_left _ hc
  · show (trimZeros (digitsOf d.digits)).length ≤ 768
    omega
  · have hd : d = ⟨natOfDigits (trimZeros (digitsOf d.digits)) * 10 ^ zeros, d.exponent⟩ := by
      rw [← hvalue]
    conv => rhs; rw [hd]
    rw [round_mul_pow]
    congr 2
    show (digitCount d.digits : Int) + d.exponent - (trimZeros (digitsOf d.digits)).length = _
    omega

/-! ## Literals -/

/-- A finite decimal is not too large. -/
theorem top_le_of_round {d : Decimal} {pattern : Nat} (hlt : pattern < Binary.infinity)
    (hdigits : d.digits ≠ 0) (h : d.round false = Binary.ofMagnitude false pattern) :
    (digitCount d.digits : Int) + d.exponent ≤ 310 := by
  apply Int.not_lt.mp
  intro hbig
  rw [round, if_neg (by omega), if_pos hbig,
    Binary.ofMagnitude_inj (Nat.le_refl _) (Nat.le_of_lt hlt)] at h
  omega

theorem isNumeral_zero : IsNumeral (plain ⟨0, 0⟩) (Binary.ofMagnitude false 0) := by
  refine ⟨['0'], ['0'], by decide, by decide, by decide, by decide, ?_⟩
  rw [ofDigits_of_length_le (by decide), round, if_pos (.inl (by decide))]

theorem isNumeral_shortest {pattern : Nat} (hpos : 0 < pattern) (hlt : pattern < Binary.infinity) :
    IsNumeral (shortest pattern).plain (Binary.ofMagnitude false pattern) := by
  obtain ⟨hround, hcount⟩ := round_shortest hpos hlt
  have hdigits : (shortest pattern).digits ≠ 0 := by
    intro hzero
    rw [round, if_pos (.inl hzero), Binary.ofMagnitude_inj (Nat.zero_le _) (Nat.le_of_lt hlt)]
      at hround
    omega
  rw [← hround]
  exact isNumeral_plain hdigits hcount (top_le_of_round hlt hdigits hround)

/-- The literal of a number is read as that number. -/
theorem isNumeral_literalText {pattern : Nat} (hlt : pattern < Binary.infinity) :
    IsNumeral (literalText (Binary.ofMagnitude false pattern)).toList
      (Binary.ofMagnitude false pattern) := by
  have hle := Nat.le_of_lt hlt
  have hnumeral : IsNumeral (plain (if pattern = 0 then ⟨0, 0⟩ else shortest pattern))
      (Binary.ofMagnitude false pattern) := by
    by_cases hzero : pattern = 0
    · rw [if_pos hzero, hzero]
      exact isNumeral_zero
    · rw [if_neg hzero]
      exact isNumeral_shortest (Nat.pos_of_ne_zero hzero) hlt
  have htext : Decimal.text plain (Binary.ofMagnitude false pattern) =
      plain (if pattern = 0 then ⟨0, 0⟩ else shortest pattern) := by
    simp [Decimal.text, Binary.isNaN, Binary.isFinite, Binary.magnitude_ofMagnitude hle,
      Binary.isNegative_ofMagnitude hle, hlt, Nat.not_lt.mpr hle]
  have hpoint : (plain (if pattern = 0 then ⟨0, 0⟩ else shortest pattern)).contains '.' := by
    obtain ⟨whole, fraction, heq, _⟩ := hnumeral
    simp [heq]
  rw [literalText, htext, if_pos hpoint, String.toList_ofList]
  exact hnumeral

end ScopedScript.Decimal

namespace ScopedScript.Integer

/-- An integer that is not negative is written with its decimal digits. -/
theorem toList_text {n : Int64} (h : 0 ≤ n.toInt) :
    (text n).toList = Decimal.digitsOf n.toInt.toNat := by
  obtain ⟨k, hk⟩ := Int.eq_ofNat_of_zero_le h
  rw [text, hk]
  exact Nat.toList_repr

/-- The digits of an integer are read as that integer. -/
theorem ofDigits?_digitsOf {n : Int64} (h : 0 ≤ n.toInt) :
    ofDigits? false (Decimal.digitsOf n.toInt.toNat) = some n := by
  rw [ofDigits?_eq, Decimal.natOfDigits_digitsOf, if_neg (by decide), Int.toNat_of_nonneg h,
    fit?_toInt]

end ScopedScript.Integer
