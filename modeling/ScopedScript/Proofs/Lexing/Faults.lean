import ScopedScript.Proofs.Lexing.Places
import ScopedScript.Proofs.Number.Division
import ScopedScript.Proofs.Number.Overflow

/-!
# What a fault says is so

A fault names the reason for which no token is read. An integer is too large if its digits, all of
them and without a point behind, stand for a number beyond all words. A number with a point is if
its value is rounded to infinity. A comment or a text in quotes is unterminated if nothing closes
it. A character is unexpected if no pattern matches anything from it on.

A lone point is the exception. No pattern matches it, but it is reported as a number that is too
large.
-/

namespace ScopedScript

open Computability

/-- The fault that a text is, if no token can be read at its start. -/
inductive IsFault : List Char → LexFault → Prop where
  /-- Digits, all of them and without a point behind, for a number beyond all words. -/
  | integer {digits rest : List Char} (h : digits ∈ Pattern.integer.language)
      (hrest : ∀ c ∈ rest.head?, c.isDigit = false ∧ c ≠ '.')
      (hlarge : Int64.maxValue.toInt < Decimal.natOfDigits digits) :
      IsFault (digits ++ rest) (.integerTooLarge (String.ofList digits))
  /-- Digits with a point, all of them, for a number that is rounded to infinity. -/
  | float {whole fraction rest : List Char} (h : whole ++ '.' :: fraction ∈ Pattern.float.language)
      (hrest : ∀ c ∈ rest.head?, c.isDigit = false)
      (hlarge : (Binary.limit : ℚ) ≤ Decimal.valueOf whole fraction) :
      IsFault (whole ++ '.' :: (fraction ++ rest))
        (.floatTooLarge (String.ofList (whole ++ '.' :: fraction)))
  /-- The start of a comment that no star before a slash closes. -/
  | comment {rest : List Char} (h : ¬ ['*', '/'] <:+: rest) :
      IsFault ('/' :: '*' :: rest) .unterminatedComment
  /-- A quote behind which no other one closes it. -/
  | string {rest : List Char} (h : ∀ inside ∈ Pattern.quoted∗, ¬ inside ++ ['"'] <+: rest) :
      IsFault ('"' :: rest) .unterminatedString
  /-- A character from which on no pattern matches anything. -/
  | character {c : Char} {rest : List Char}
      (h : ∀ (pattern : Pattern) (piece : List Char), piece <+: c :: rest →
        piece ∉ pattern.language) : IsFault (c :: rest) (.unexpectedCharacter c)

namespace Lexer

/-! ## Comments and texts in quotes -/

/-- A comment is closed exactly if there is a star before a slash. -/
theorem closeComment_eq_none_iff {text : List Char} :
    closeComment text = none ↔ ¬ ['*', '/'] <:+: text := by
  induction text using closeComment.induct with
  | case1 => simp [closeComment]
  | case2 rest =>
    rw [closeComment]
    exact iff_of_false (Option.some_ne_none _) (not_not.mpr ⟨[], rest, rfl⟩)
  | case3 c rest hend ih =>
    rw [closeComment, Option.map_eq_none_iff, ih, List.infix_cons_iff, not_or]
    · refine ⟨fun h => ⟨?_, h⟩, And.right⟩
      rintro ⟨more, hmore⟩
      cases hmore
      exact hend more rfl rfl
    · exact hend

/-- A text in quotes is closed exactly if a quote stands behind what can stand inside quotes. -/
theorem closeQuote_eq_none_iff {text : List Char} : Text.closeQuote text = none ↔
    ∀ inside ∈ Pattern.quoted∗, ¬ inside ++ ['"'] <+: text := by
  constructor
  · rintro h inside hinside ⟨rest, rfl⟩
    rw [List.append_assoc, List.singleton_append, Pattern.closeQuote_of_mem_quoted hinside] at h
    cases h
  · intro h
    cases hclose : Text.closeQuote text with
    | none => rfl
    | some split =>
      obtain ⟨inside, rest⟩ := split
      refine absurd ⟨rest, ?_⟩ (h inside (Pattern.mem_quoted_of_closeQuote hclose))
      rw [← Text.closeQuote_append hclose, List.append_assoc, List.singleton_append]

/-- Where neither a blank nor a comment stands, no gap does. -/
theorem eq_nil_of_isGap {item text : List Char} (htext : gapItem? text = none) (hitem : IsGap item)
    (hhead : item <+: text) : item = [] := by
  obtain ⟨rest, rfl⟩ := hhead
  cases hitem with
  | nil => rfl
  | @blank c more hc =>
    have hgap : Text.isGap c := by simpa [Text.isGap, or_assoc] using hc
    rw [List.cons_append, gapItem?_of_isGap hgap] at htext
    cases htext
  | @comment inside more hinside =>
    simp only [List.cons_append, List.append_assoc, List.nil_append, gapItem?,
      Option.map_eq_none_iff, closeComment_eq_none_iff] at htext
    exact absurd ⟨inside, more ++ rest, by simp⟩ htext

/-! ## Numbers -/

theorem integerKind_eq_error_iff {digits : List Char} {fault : LexFault}
    (hdigits : digits.all Char.isDigit) : integerKind digits = .error fault ↔
      fault = .integerTooLarge (String.ofList digits) ∧
        Int64.maxValue.toInt < Decimal.natOfDigits digits := by
  have hnone : Integer.ofDigits? false digits = none ↔
      Int64.maxValue.toInt < Decimal.natOfDigits digits := by
    have hmax : Int64.maxValue.toInt = 2 ^ 63 - 1 := by decide
    rw [Integer.ofDigits?_eq, if_neg (by decide), Integer.fit?_eq_none_iff, Integer.Fits]
    omega
  rw [← hnone, integerKind]
  split
  next n hn => simp [hn]
  next hn => simp [hn, fault_of_digits hdigits, eq_comm]

theorem floatKind_eq_error_iff {whole fraction : List Char} {fault : LexFault}
    (hwhole : whole.all Char.isDigit) (hfraction : fraction.all Char.isDigit) :
    floatKind whole fraction = .error fault ↔
      fault = .floatTooLarge (String.ofList (whole ++ '.' :: fraction)) ∧
        (Binary.limit : ℚ) ≤ Decimal.valueOf whole fraction := by
  have hdigits : (whole ++ fraction).all Char.isDigit := by simp [hwhole, hfraction]
  rw [← not_lt, ← Decimal.isFinite_ofDigits_iff hdigits, floatKind]
  split
  next hfinite => simp [hfinite]
  next hfinite => simp [hfinite, fault_of_point hwhole hfraction, eq_comm]

/-! ## Faults at a place -/

section Places

variable {text : List Char} {lexeme : Lexeme} {fault : LexFault}

/-- Only a point starts no pattern and is no unexpected character. -/
theorem isFault_sign {c : Char} {rest : List Char} (hdigit : c.isDigit = false)
    (hname : Text.isNameStart c = false) (hquote : c ≠ '"') (hgap : Text.isGap c = false)
    (hcomment : c = '/' → rest.head? ≠ some '*') (hpoint : c ≠ '.')
    (hkind : (sign c rest).kind = .error fault) : IsFault (c :: rest) fault := by
  unfold sign at hkind
  split at hkind
  next => cases hkind
  next hnone =>
    obtain rfl := Except.error.inj hkind
    rw [fault_of_character hdigit hpoint]
    refine .character fun pattern piece hhead hpiece => ?_
    obtain ⟨tail, rfl, htail⟩ := exists_tail_of_mem hhead hpiece
    have hcomment' : c = '/' → tail.head? ≠ some '*' := by
      intro hslash hstar
      obtain ⟨after, rfl⟩ := htail
      refine hcomment hslash ?_
      rw [List.head?_append, hstar]
      rfl
    obtain ⟨found, heq⟩ := Pattern.exists_mark_of_mem hpiece hdigit hname hquote hgap hcomment'
    have hnot := List.find?_eq_none.mp hnone found (Mark.mem_all found)
    rw [← heq, List.isPrefixOf_iff_prefix] at hnot
    exact hnot hhead

theorem isFault_number {c : Char} {rest : List Char} (hdigit : c.isDigit)
    (hkind : (number (c :: rest)).kind = .error fault) : IsFault (c :: rest) fault := by
  have hreads := readsNumber_number (c :: rest)
  have hfirst : (c :: rest).head? = some c := rfl
  generalize c :: rest = text at hkind hreads hfirst ⊢
  generalize number text = lexeme at hkind hreads
  cases hreads with
  | @float whole fraction rest hwhole hfraction hrest =>
    obtain ⟨rfl, hlarge⟩ := (floatKind_eq_error_iff hwhole hfraction).mp hkind
    refine .float (Pattern.append_mem_float.mpr ⟨?_, hwhole, hfraction⟩) hrest hlarge
    rintro rfl
    cases hfirst
    exact absurd hdigit (by decide)
  | @integer digits rest hdigits hrest =>
    obtain ⟨rfl, hlarge⟩ := (integerKind_eq_error_iff hdigits).mp hkind
    refine .integer (Pattern.mem_integer.mpr ⟨?_, hdigits⟩) hrest hlarge
    rintro rfl
    rw [(hrest c hfirst).1] at hdigit
    cases hdigit

/-- What is read as a fault is that fault, unless it starts with a point. -/
theorem isFault_of_lexeme? (hgap : gapItem? text = none) (h : lexeme? text = some lexeme)
    (hkind : lexeme.kind = .error fault) (hpoint : text.head? ≠ some '.') :
    IsFault text fault := by
  cases reads_of_lexeme? h with
  | string rest =>
    unfold string at hkind
    split at hkind
    next => cases hkind
    next hclose =>
      obtain rfl := Except.error.inj hkind
      exact .string (closeQuote_eq_none_iff.mp hclose)
  | openComment rest =>
    obtain rfl := Except.error.inj hkind
    rw [gapItem?, Option.map_eq_none_iff] at hgap
    exact .comment (closeComment_eq_none_iff.mp hgap)
  | number rest hdigit => exact isFault_number hdigit hkind
  | word rest hname => cases hkind
  | @sign c rest hdigit hname hquote hcomment =>
    refine isFault_sign hdigit hname hquote ?_ hcomment (fun hc => hpoint (hc ▸ rfl)) hkind
    rw [← Bool.not_eq_true]
    intro hblank
    rw [gapItem?_of_isGap hblank] at hgap
    cases hgap

/-- Where a pattern matches something, no character is unexpected. -/
theorem exists_mem_of_isFault (h : IsFault text fault) :
    (∃ c, fault = .unexpectedCharacter c ∧ text.head? = some c) ∨
    ∃ (pattern : Pattern) (piece : List Char), piece <+: text ∧ piece ∈ pattern.language := by
  cases h with
  | integer hmem => exact .inr ⟨_, _, List.prefix_append _ _, hmem⟩
  | @float whole fraction rest hmem => exact .inr ⟨_, _, ⟨rest, by simp⟩, hmem⟩
  | comment => exact .inr ⟨.openComment, _, List.prefix_append ['/', '*'] _, rfl⟩
  | string => exact .inr ⟨.openString, _, List.prefix_append ['"'] _, rfl⟩
  | character => exact .inl ⟨_, rfl, rfl⟩

theorem lexeme?_of_readsNumber {c : Char} {rest : List Char} (hc : c.isDigit)
    (h : ReadsNumber (c :: rest) lexeme) : lexeme? (c :: rest) = some lexeme := by
  have hpart := isNamePart_of_isDigit hc
  rw [lexeme?_cons (ne_of_isNamePart (by decide) hpart) (ne_of_isNamePart (by decide) hpart),
    if_pos hc, h.number_eq]

/-- A text that is a fault is read as that fault, unless it starts with a point. -/
theorem kind_of_isFault (hgap : gapItem? text = none) (h : IsFault text fault)
    (hpoint : text.head? ≠ some '.') : ∃ lexeme, lexeme? text = some lexeme ∧
      lexeme.kind = .error fault := by
  cases h with
  | @integer digits rest hmem hrest hlarge =>
    obtain ⟨hne, hdigits⟩ := Pattern.mem_integer.mp hmem
    have hreads := ReadsNumber.integer hdigits hrest
    obtain ⟨c, tail, rfl⟩ := List.exists_cons_of_ne_nil hne
    have hc : c.isDigit := List.all_eq_true.mp hdigits c (List.mem_cons_self ..)
    have hkind := (integerKind_eq_error_iff hdigits).mpr ⟨rfl, hlarge⟩
    exact ⟨_, lexeme?_of_readsNumber hc hreads, hkind⟩
  | @float whole fraction rest hmem hrest hlarge =>
    obtain ⟨hne, hwhole, hfraction⟩ := Pattern.append_mem_float.mp hmem
    have hreads := ReadsNumber.float hwhole hfraction hrest
    have hkind := (floatKind_eq_error_iff hwhole hfraction).mpr ⟨rfl, hlarge⟩
    obtain ⟨c, tail, rfl⟩ := List.exists_cons_of_ne_nil hne
    have hc : c.isDigit := List.all_eq_true.mp hwhole c (List.mem_cons_self ..)
    exact ⟨_, lexeme?_of_readsNumber hc hreads, hkind⟩
  | @comment rest => exact ⟨_, rfl, rfl⟩
  | @string rest hopen =>
    refine ⟨_, rfl, ?_⟩
    rw [Lexer.string, closeQuote_eq_none_iff.mpr hopen]
  | @character c rest hnone =>
    cases hlexeme : lexeme? (c :: rest) with
    | none => cases eq_nil_of_lexeme?_eq_none hlexeme
    | some lexeme =>
      refine ⟨lexeme, rfl, ?_⟩
      cases hkind : lexeme.kind with
      | ok kind =>
        have hlongest := (isLongest_of_lexeme? hgap hlexeme hkind).1
        obtain ⟨pattern, hmem⟩ := hlongest.matched
        exact absurd hmem (hnone pattern _ hlongest.starts)
      | error fault =>
        have hfault := isFault_of_lexeme? hgap hlexeme hkind hpoint
        obtain ⟨_, rfl, hhead⟩ | ⟨pattern, piece, hhead, hmem⟩ := exists_mem_of_isFault hfault
        · cases hhead
          rfl
        · exact absurd hmem (hnone pattern piece hhead)

/-- At a point, which is no digit but passes for a part of a number, a number that is too large is
reported. -/
theorem lexeme?_point (rest : List Char) :
    lexeme? ('.' :: rest) = some ⟨['.'], .error (.floatTooLarge "."), rest⟩ := by
  have hnone : Mark.leading? ('.' :: rest) = none := by
    simp [Mark.leading?, Mark.all, Mark.spelling]
  rw [lexeme?_cons (by decide) (by decide), if_neg (by decide), if_neg (by decide), sign, hnone]
  rfl

/-- Faults are reported exactly as they are, except at a point. -/
theorem error_iff (hgap : gapItem? text = none) :
    (∃ lexeme, lexeme? text = some lexeme ∧ lexeme.kind = .error fault) ↔
      if text.head? = some '.' then fault = .floatTooLarge "." else IsFault text fault := by
  split
  next hpoint =>
    obtain ⟨rest, rfl⟩ := List.head?_eq_some_iff.mp hpoint
    rw [lexeme?_point]
    simp [eq_comm]
  next hpoint =>
    constructor
    · rintro ⟨lexeme, hlexeme, hkind⟩
      exact isFault_of_lexeme? hgap hlexeme hkind hpoint
    · exact fun hfault => kind_of_isFault hgap hfault hpoint

end Places

end Lexer

/-! ## Faults in a source -/

theorem Cursor.error_next_iff {cursor : Cursor} {fault : LexFault} :
    (∃ position, cursor.next.1 = .error ⟨fault, position⟩) ↔
      ∃ lexeme, Lexer.lexeme? (Lexer.gap cursor.rest).2 = some lexeme ∧
        lexeme.kind = .error fault := by
  cases hlexeme : Lexer.lexeme? (Lexer.gap cursor.rest).2 with
  | none => simp [next, hlexeme]
  | some lexeme => cases hkind : lexeme.kind <;> simp [next, hlexeme, hkind]

/-- Faults name their cause, except at a point. However often tokens have been asked for, and
whatever was found, behind the gap ahead a fault is reported exactly if the text there is that fault:
digits for an integer beyond all words, digits with a point for a number that is rounded to
infinity, a comment or a text in quotes that nothing closes, or a character from which on no pattern
matches anything. Where the text starts with a point, that is reported as a number that is too
large. -/
theorem lexical_faults_named (source : String) (calls : Nat) :
    ∃ gap text, (Cursor.afterCalls source calls).rest = gap ++ text ∧ IsGap gap ∧
      (∀ item, IsGap item → item <+: text → item = []) ∧
      ∀ fault, (∃ position, (Cursor.afterCalls source calls).next.1 = .error ⟨fault, position⟩) ↔
        if text.head? = some '.' then fault = .floatTooLarge "." else IsFault text fault := by
  have hgap := Lexer.gapItem?_gap (Cursor.afterCalls source calls).rest
  refine ⟨_, _, (Lexer.gap_append _).symm, Lexer.isGap_gap _,
    fun item hitem hhead => Lexer.eq_nil_of_isGap hgap hitem hhead, fun fault => ?_⟩
  rw [Cursor.error_next_iff, Lexer.error_iff hgap]

/-- No pattern matches a lone point, but it is reported as a number that is too large, which it is
not. -/
theorem lone_point_misnamed :
    (Cursor.afterCalls "." 0).next.1 = .error ⟨.floatTooLarge ".", .start⟩ ∧
      IsFault ".".toList (.unexpectedCharacter '.') ∧
        ¬ IsFault ".".toList (.floatTooLarge ".") := by
  have hstarts : ∀ pattern : Pattern, pattern.starts '.' = false := by
    intro pattern
    cases pattern <;> rfl
  have hnone : ∀ (pattern : Pattern) (piece : List Char), piece <+: ['.'] →
      piece ∉ pattern.language := by
    intro pattern piece hhead hpiece
    obtain ⟨after, rfl, -⟩ := Lexer.exists_tail_of_mem hhead hpiece
    have hpoint := Pattern.starts_of_mem hpiece
    rw [hstarts] at hpoint
    cases hpoint
  refine ⟨by decide +kernel, .character hnone, fun hfault => ?_⟩
  obtain ⟨c, hc, -⟩ | ⟨pattern, piece, hhead, hpiece⟩ := Lexer.exists_mem_of_isFault hfault
  · cases hc
  · exact hnone pattern piece hhead hpiece

end ScopedScript
