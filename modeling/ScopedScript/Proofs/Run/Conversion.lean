import Mathlib.Data.Nat.Digits.Defs
import ScopedScript.Proofs.Number.Division
import ScopedScript.Proofs.RoundTrip.Lexing
import ScopedScript.Run.Builtin

/-!
# Integers and their texts

Three ways lead between words and texts. `str` writes a word in decimal digits, with a sign if it is
negative. `int` takes the white space off a text and reads the rest, which has to be an optional
sign and digits. In a source, digits are read as a token, and a sign is a token of its own.

They agree on every word. What `int` takes is told here without reading it: by what a text is made
of and by the positional value of its digits, so that the least word, which has no positive
counterpart, is no special case.
-/

namespace ScopedScript

/-! ## White space around a text -/

namespace Text

/-- A text made of white space. -/
def IsBlank (text : List Char) : Prop := ∀ c ∈ text, isWhite c

instance (text : List Char) : Decidable (IsBlank text) :=
  decidable_of_iff (text.all isWhite) List.all_eq_true

/-- What is left of a text without the white space around it: it neither starts nor ends with
any. -/
structure IsCore (text core : List Char) : Prop where
  around : ∃ before after, IsBlank before ∧ IsBlank after ∧ text = before ++ core ++ after
  head : ∀ c ∈ core.head?, isWhite c = false
  last : ∀ c ∈ core.getLast?, isWhite c = false

variable {before core after : List Char}

theorem dropWhile_of_isBlank (h : IsBlank before) : before.dropWhile isWhite = [] :=
  List.dropWhile_eq_nil_iff.mpr h

theorem dropWhile_append (h : IsBlank before) (hhead : ∀ c ∈ core.head?, isWhite c = false) :
    (before ++ core).dropWhile isWhite = core :=
  dropWhile_piece (List.all_eq_true.mpr h) hhead

theorem trim_append (hbefore : IsBlank before) (hafter : IsBlank after)
    (hhead : ∀ c ∈ core.head?, isWhite c = false) (hlast : ∀ c ∈ core.getLast?, isWhite c = false) :
    trim (before ++ core ++ after) = core := by
  by_cases hcore : core = []
  -- If nothing is to be left, the pass from the front takes the white space behind as well.
  · have hblank : IsBlank (before ++ core ++ after) := by
      intro c hc
      simp only [hcore, List.append_nil, List.mem_append] at hc
      exact hc.elim (hbefore c) (hafter c)
    rw [trim, dropWhile_of_isBlank hblank, hcore]
    rfl
  · have hhead' : ∀ c ∈ (core ++ after).head?, isWhite c = false := by
      rwa [List.head?_append_of_ne_nil _ hcore]
    have hafter' : IsBlank after.reverse := fun c hc => hafter c (List.mem_reverse.mp hc)
    have hlast' : ∀ c ∈ core.reverse.head?, isWhite c = false := by
      rwa [List.head?_reverse]
    rw [trim, List.append_assoc, dropWhile_append hbefore hhead', List.reverse_append,
      dropWhile_append hafter' hlast', List.reverse_reverse]

theorem not_isWhite_dropWhile (text : List Char) :
    ∀ c ∈ (text.dropWhile isWhite).head?, isWhite c = false := by
  intro c hc
  have hnot := List.head?_dropWhile_not isWhite text
  rw [Option.mem_def.mp hc] at hnot
  exact hnot

theorem isCore_trim (text : List Char) : IsCore text (trim text) := by
  have hfront : text.takeWhile isWhite ++ text.dropWhile isWhite = text :=
    List.takeWhile_append_dropWhile
  have hhead := not_isWhite_dropWhile text
  unfold trim
  generalize text.dropWhile isWhite = rest at hfront hhead
  have hback : (rest.reverse.dropWhile isWhite).reverse ++
      (rest.reverse.takeWhile isWhite).reverse = rest := by
    rw [← List.reverse_append, List.takeWhile_append_dropWhile, List.reverse_reverse]
  have hblank : IsBlank (text.takeWhile isWhite) := List.all_eq_true.mp List.all_takeWhile
  have hblank' : IsBlank (rest.reverse.takeWhile isWhite).reverse :=
    fun c hc => List.all_eq_true.mp List.all_takeWhile c (List.mem_reverse.mp hc)
  refine ⟨⟨_, _, hblank, hblank', ?_⟩, ?_, ?_⟩
  · rw [List.append_assoc, hback, hfront]
  · intro c hc
    obtain ⟨more, hmore⟩ := List.head?_eq_some_iff.mp hc
    rw [hmore] at hback
    refine hhead c ?_
    rw [← hback]
    rfl
  · rw [List.getLast?_reverse]
    exact not_isWhite_dropWhile rest.reverse

/-- There is one text without the white space around it, and it is found. -/
theorem isCore_iff {text : List Char} : IsCore text core ↔ core = trim text := by
  constructor
  · rintro ⟨⟨before, after, hbefore, hafter, rfl⟩, hhead, hlast⟩
    exact (trim_append hbefore hafter hhead hlast).symm
  · rintro rfl
    exact isCore_trim text

end Text

/-! ## Numerals -/

namespace Integer

/-- Decimal digits, at least one. -/
def AreDigits (digits : List Char) : Prop := digits ≠ [] ∧ ∀ c ∈ digits, '0' ≤ c ∧ c ≤ '9'

/-- The positional value of decimal digits. -/
def valueOf (digits : List Char) : Nat :=
  Nat.ofDigits 10 (digits.reverse.map fun c => c.toNat - '0'.toNat)

/-- An optional sign and digits, and the integer that they stand for. -/
inductive Numeral : List Char → Int → Prop where
  | unsigned {digits : List Char} (h : AreDigits digits) : Numeral digits (valueOf digits)
  | positive {digits : List Char} (h : AreDigits digits) : Numeral ('+' :: digits) (valueOf digits)
  | negative {digits : List Char} (h : AreDigits digits) : Numeral ('-' :: digits) (-valueOf digits)

theorem isDigit_iff {c : Char} : c.isDigit ↔ '0' ≤ c ∧ c ≤ '9' := by
  simp [Char.isDigit, Char.le_def]

theorem areDigits_iff {digits : List Char} :
    AreDigits digits ↔ digits ≠ [] ∧ digits.all Char.isDigit := by
  simp only [AreDigits, List.all_eq_true, isDigit_iff]

theorem natOfDigits_eq (digits : List Char) : Decimal.natOfDigits digits = valueOf digits := by
  -- Digits are read from the first one on, and `Nat.ofDigits` starts with the last one.
  induction digits using List.reverseRecOn with
  | nil => rfl
  | append_singleton digits c ih =>
    have hlast : Decimal.natOfDigits [c] = c.toNat - '0'.toNat := by
      simp [Decimal.natOfDigits, Decimal.push]
    rw [Decimal.natOfDigits_append, ih, hlast, valueOf, valueOf, List.reverse_append,
      List.reverse_singleton, List.singleton_append, List.map_cons, Nat.ofDigits_cons,
      List.length_singleton, Nat.pow_one, Nat.mul_comm, Nat.add_comm]

/-- There is no sign in front of digits alone. -/
theorem splitSign_of_areDigits {digits : List Char} (h : AreDigits digits) :
    Decimal.splitSign digits = (false, digits) := by
  obtain ⟨c, rest, rfl⟩ := List.exists_cons_of_ne_nil h.1
  have hc := h.2 c List.mem_cons_self
  have hne : ∀ sign : Char, sign < '0' → c ≠ sign := by
    rintro sign hsign rfl
    exact absurd hc.1 (Char.not_le.mpr hsign)
  unfold Decimal.splitSign
  split
  next heq => exact absurd (List.cons.inj heq).1 (hne '-' (by decide))
  next heq => exact absurd (List.cons.inj heq).1 (hne '+' (by decide))
  next => rfl

theorem ofDigits?_eq_fit? (negative : Bool) (digits : List Char) :
    ofDigits? negative digits =
      fit? (if negative then -(valueOf digits : Int) else (valueOf digits : Int)) := by
  rw [ofDigits?_eq, natOfDigits_eq]

/-- A numeral is read if the integer that it stands for is a word. -/
theorem Numeral.parse?_eq {text : List Char} {m : Int} (h : Numeral text m) :
    parse? text = fit? m := by
  have hdigits : ∀ {digits : List Char}, AreDigits digits → digits ≠ [] ∧ digits.all Char.isDigit :=
    areDigits_iff.mp
  cases h with
  | unsigned h =>
    simp only [parse?, splitSign_of_areDigits h, if_pos (hdigits h), ofDigits?_eq_fit?]
    rfl
  | positive h =>
    simp only [parse?, Decimal.splitSign, if_pos (hdigits h), ofDigits?_eq_fit?]
    rfl
  | negative h =>
    simp only [parse?, Decimal.splitSign, if_pos (hdigits h), ofDigits?_eq_fit?]
    rfl

/-- What is read is a numeral. -/
theorem exists_numeral_of_parse? {text : List Char} {n : Int64} (h : parse? text = some n) :
    ∃ m, Numeral text m := by
  simp only [parse?] at h
  obtain ⟨hdigits, -⟩ := Option.ite_none_right_eq_some.mp h
  have hareDigits := areDigits_iff.mpr hdigits
  clear h hdigits
  unfold Decimal.splitSign at hareDigits
  split at hareDigits
  · exact ⟨_, .negative hareDigits⟩
  · exact ⟨_, .positive hareDigits⟩
  · exact ⟨_, .unsigned hareDigits⟩

/-- Exactly the numerals of words are read. -/
theorem parse?_eq_some_iff {text : List Char} {n : Int64} :
    parse? text = some n ↔ Numeral text n.toInt := by
  constructor
  · intro h
    obtain ⟨m, hm⟩ := exists_numeral_of_parse? h
    rw [hm.parse?_eq] at h
    rwa [toInt_of_fit? h]
  · intro h
    rw [h.parse?_eq, fit?_toInt]

/-! ## Words that are written -/

theorem areDigits_digitsOf (n : Nat) : AreDigits (Decimal.digitsOf n) :=
  ⟨List.ne_nil_of_length_pos (Decimal.digitCount_pos n),
    fun _ hc => isDigit_iff.mp (Decimal.isDigit_digitsOf hc)⟩

theorem valueOf_digitsOf (n : Nat) : valueOf (Decimal.digitsOf n) = n := by
  rw [← natOfDigits_eq, Decimal.natOfDigits_digitsOf]

/-- A word is written as a numeral that stands for it. -/
theorem numeral_text (n : Int64) : Numeral (text n).toList n.toInt := by
  by_cases h : 0 ≤ n.toInt
  · have hdigits := Numeral.unsigned (areDigits_digitsOf n.toInt.toNat)
    rwa [valueOf_digitsOf, Int.toNat_of_nonneg h, ← toList_text h] at hdigits
  -- The digits are those of the absolute value, which need not be that of a word.
  · obtain ⟨k, hk⟩ : ∃ k : Nat, n.toInt = -((k + 1 : Nat) : Int) :=
      ⟨(-n.toInt).toNat - 1, by omega⟩
    have htext : (text n).toList = '-' :: Decimal.digitsOf (k + 1) := by
      have hsign : text n = "-" ++ Nat.repr (k + 1) := by
        rw [text, hk]
        rfl
      rw [hsign, String.toList_append, Nat.toList_repr]
      rfl
    have hdigits := Numeral.negative (areDigits_digitsOf (k + 1))
    rwa [valueOf_digitsOf, ← hk, ← htext] at hdigits

theorem AreDigits.not_isWhite {digits : List Char} (h : AreDigits digits) :
    ∀ c ∈ digits, Text.isWhite c = false := by
  intro c hc
  obtain ⟨hlow, hhigh⟩ := h.2 c hc
  have hlow' : 48 ≤ c.toNat := UInt32.le_iff_toNat_le.mp hlow
  have hhigh' : c.toNat ≤ 57 := UInt32.le_iff_toNat_le.mp hhigh
  simp [Text.isWhite]
  omega

/-- There is no white space in a numeral. -/
theorem Numeral.not_isWhite {text : List Char} {m : Int} (h : Numeral text m) :
    ∀ c ∈ text, Text.isWhite c = false := by
  cases h with
  | unsigned h => exact h.not_isWhite
  | positive h => exact List.forall_mem_cons.mpr ⟨by decide, h.not_isWhite⟩
  | negative h => exact List.forall_mem_cons.mpr ⟨by decide, h.not_isWhite⟩

/-- White space around a numeral is all that is taken off. -/
theorem Numeral.isCore {text before after : List Char} {m : Int} (h : Numeral text m)
    (hbefore : Text.IsBlank before) (hafter : Text.IsBlank after) :
    Text.IsCore (before ++ text ++ after) text where
  around := ⟨before, after, hbefore, hafter, rfl⟩
  head c hc := h.not_isWhite c (List.mem_of_head? hc)
  last c hc := h.not_isWhite c (List.mem_of_getLast? hc)

end Integer

/-! ## Reading texts -/

namespace Value

variable {t : String}

/-- A text is read as the word whose numeral is left without the white space around it. -/
theorem toInteger_str_eq_ok_iff {n : Int64} : (str t).toInteger = .ok n ↔
    ∃ core, Text.IsCore t.toList core ∧ Integer.Numeral core n.toInt := by
  simp only [Text.isCore_iff, exists_eq_left, ← Integer.parse?_eq_some_iff, toInteger]
  cases Integer.parse? (Text.trim t.toList) with
  | none => simp [Builtin.reject]
  | some found => simp

/-- Every other text is rejected. -/
theorem toInteger_str_eq_reject_iff : (str t).toInteger = Builtin.int.reject (str t) ↔
    ¬ ∃ (n : Int64) (core : List Char), Text.IsCore t.toList core ∧
      Integer.Numeral core n.toInt := by
  simp only [← toInteger_str_eq_ok_iff]
  have hcases : (∃ n, (str t).toInteger = .ok n) ∨
      (str t).toInteger = Builtin.int.reject (str t) := by
    rw [toInteger]
    cases Integer.parse? (Text.trim t.toList) with
    | none => exact .inr rfl
    | some n => exact .inl ⟨n, rfl⟩
  constructor
  · rintro hreject ⟨n, hn⟩
    rw [hn] at hreject
    cases hreject
  · exact hcases.resolve_left

end Value

/-! ## Calls of the built-in functions -/

namespace Exec

variable {α : Type} {p : Position}

/-- Two runs that yield a value at once are the same only if the values are. -/
theorem pure_inj {a b : α} : (pure a : Exec α) = pure b ↔ a = b := by
  refine ⟨fun h => ?_, congrArg pure⟩
  have hrun := congrFun h (.initial 0 none)
  exact (EStateM.Result.ok.inj hrun).1

/-- Two runs that fail at once are the same only if the faults are. -/
theorem fail_inj {fault fault' : RuntimeFault} :
    (fail fault p : Exec α) = fail fault' p ↔ fault = fault' := by
  refine ⟨fun h => ?_, fun h => by rw [h]⟩
  have hrun := congrFun h (.initial 0 none)
  cases hrun
  rfl

theorem fail_ne_pure (fault : RuntimeFault) (a : α) : (fail fault p : Exec α) ≠ pure a := by
  intro h
  have hrun := congrFun h (.initial 0 none)
  cases hrun

end Exec

namespace Builtin

variable (v : Value) (p : Position)

/-- A call of `int` yields what the conversion yields, or fails as it does. -/
theorem call_int : int.call [v] p = match v.toInteger with
    | .ok n => pure (some (.int n))
    | .error fault => Exec.fail fault p := by
  cases h : v.toInteger with
  | ok n =>
    simp only [call, h, Exec.located, pure_bind]
  | error fault =>
    simp only [call, h, Exec.located]
    rfl

theorem call_int_eq_pure_iff {n : Int64} :
    int.call [v] p = pure (some (.int n)) ↔ v.toInteger = .ok n := by
  rw [call_int]
  cases v.toInteger with
  | ok found => simp [Exec.pure_inj]
  | error fault => simp [Exec.fail_ne_pure]

theorem call_int_eq_fail_iff {fault : RuntimeFault} :
    int.call [v] p = Exec.fail fault p ↔ v.toInteger = .error fault := by
  rw [call_int]
  cases v.toInteger with
  | ok found => simp [(Exec.fail_ne_pure _ _).symm]
  | error found => simp [Exec.fail_inj]

end Builtin

/-! ## There and back -/

/-- A word that is not negative is written as the one token that stands for it. -/
theorem tokenize_text {n : Int64} (h : 0 ≤ n.toInt) : tokenize (Integer.text n) =
    .ok [⟨.literal (.int n), Integer.text n, .start⟩,
      ⟨.endOfInput, "", Position.start.advanceBy (Integer.text n).toList⟩] := by
  have hread : IsRead (Integer.text n).toList [] (.literal (.int n)) := isRead_int h trivial
  have hlength : 0 < (Integer.text n).length := by
    rw [← String.length_toList, Integer.toList_text h]
    exact Decimal.digitCount_pos _
  obtain ⟨more, hmore⟩ : ∃ more, (Integer.text n).length = more + 1 :=
    ⟨(Integer.text n).length - 1, by omega⟩
  have hnext := Cursor.next_token hread .start
  rw [List.append_nil, String.ofList_toList] at hnext
  have hkind : TokenKind.literal (.int n) ≠ .endOfInput := nofun
  simp only [tokenize, Cursor.start, hmore, Cursor.collect, hnext, if_neg hkind]
  rfl

/-- Words that are written are read back, and nothing but numerals is read. What `str` writes of a
word is read by `int` as that word, whatever white space is joined to it. What it writes of a word
that is not negative is a source of one token, the literal of that word. A text is read exactly if
what is left without the white space around it is a numeral of a word, and as that word; any other
text is rejected as an argument. -/
theorem integers_read_back :
    (∀ (n : Int64) (before after : String), Text.IsBlank before.toList →
      Text.IsBlank after.toList → ∀ p q : Position, ∃ written front spaced : Value,
        Builtin.str.call [.int n] p = pure (some written) ∧
        BinaryOp.add.apply (.str before) written = .ok front ∧
        BinaryOp.add.apply front (.str after) = .ok spaced ∧
        Builtin.int.call [spaced] q = pure (some (.int n))) ∧
    (∀ n : Int64, 0 ≤ n.toInt → ∀ p : Position, ∃ literal : String,
      Builtin.str.call [.int n] p = pure (some (.str literal)) ∧
      tokenize literal = .ok [⟨.literal (.int n), literal, .start⟩,
        ⟨.endOfInput, "", Position.start.advanceBy literal.toList⟩]) ∧
    ∀ (t : String) (p : Position),
      (∀ n : Int64, Builtin.int.call [.str t] p = pure (some (.int n)) ↔
        ∃ core, Text.IsCore t.toList core ∧ Integer.Numeral core n.toInt) ∧
      (Builtin.int.call [.str t] p =
          Exec.fail (.invalidArgument (.rejected "int" (.str t))) p ↔
        ¬ ∃ (n : Int64) (core : List Char), Text.IsCore t.toList core ∧
          Integer.Numeral core n.toInt) := by
  refine ⟨?_, ?_, ?_⟩
  · intro n before after hbefore hafter p q
    refine ⟨.str (Integer.text n), _, _, rfl, rfl, rfl, ?_⟩
    have hnumeral := Integer.numeral_text n
    rw [Builtin.call_int_eq_pure_iff, Value.toInteger_str_eq_ok_iff]
    refine ⟨(Integer.text n).toList, ?_, hnumeral⟩
    rw [String.toList_append, String.toList_append]
    exact hnumeral.isCore hbefore hafter
  · intro n hn p
    exact ⟨Integer.text n, rfl, tokenize_text hn⟩
  · intro t p
    constructor
    · intro n
      rw [Builtin.call_int_eq_pure_iff, Value.toInteger_str_eq_ok_iff]
    · rw [Builtin.call_int_eq_fail_iff, ← Value.toInteger_str_eq_reject_iff]
      rfl

/-- The least word, with an ideographic space before it and a line feed behind; the greatest one,
as a literal; and a text with a sign and zeros that `str` would not write. -/
theorem integers_read_back_least :
    (∃ written front spaced : Value,
      Builtin.str.call [.int Int64.minValue] .start = pure (some written) ∧
      BinaryOp.add.apply (.str "\u3000") written = .ok front ∧
      BinaryOp.add.apply front (.str "\n") = .ok spaced ∧
      Builtin.int.call [spaced] .start = pure (some (.int Int64.minValue))) ∧
    (∃ literal : String,
      Builtin.str.call [.int Int64.maxValue] .start = pure (some (.str literal)) ∧
      tokenize literal = .ok [⟨.literal (.int Int64.maxValue), literal, .start⟩,
        ⟨.endOfInput, "", Position.start.advanceBy literal.toList⟩]) ∧
    Builtin.int.call [.str " +007\t"] .start = pure (some (.int 7)) := by
  obtain ⟨hround, hliteral, hread⟩ := integers_read_back
  refine ⟨hround _ _ _ (by decide) (by decide) _ _, hliteral _ (by decide) _, ?_⟩
  have hnumeral : Integer.Numeral ['+', '0', '0', '7'] (7 : Int64).toInt :=
    .positive (Integer.areDigits_iff.mpr (by decide))
  have hbefore : Text.IsBlank [' '] := by decide
  have hafter : Text.IsBlank ['\t'] := by decide
  exact ((hread _ _).1 7).mpr ⟨_, hnumeral.isCore hbefore hafter, hnumeral⟩

end ScopedScript
