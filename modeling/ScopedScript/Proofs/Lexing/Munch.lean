import ScopedScript.Proofs.Lexing.Pattern
import ScopedScript.Proofs.Number.Nearest

/-!
# Sources are read by maximal munch

A source that is read is made up of gaps and literals in turn. A gap is made of blanks and complete
comments. A literal is the longest text at its place that a pattern matches, and its token is of the
kind that the text stands for: a number by its value, a text in quotes by what is left when its
escapes are resolved, and a name as such only if no other pattern matches it.

Which patterns can match at a place depends on one character. For each family of patterns that start
alike the reader takes the longest: all digits and what belongs to a point behind them, all parts of
a name, everything up to the closing quote, the longest sign.
-/

namespace ScopedScript

open Computability

/-! ## Literals -/

/-- The longest text that a text starts with and that a pattern matches. -/
structure IsLongest (piece text : List Char) : Prop where
  starts : piece <+: text
  matched : ∃ pattern : Pattern, piece ∈ pattern.language
  longest : ∀ (pattern : Pattern) (other : List Char), other <+: text →
    other ∈ pattern.language → other.length ≤ piece.length

/-- The inside of a text in quotes and what it stands for. -/
inductive Unescapes : List Char → List Char → Prop where
  | nil : Unescapes [] []
  | plain {c : Char} {inside text : List Char} (hc : c ≠ '\\') (h : Unescapes inside text) :
      Unescapes (c :: inside) (c :: text)
  | newLine {inside text : List Char} (h : Unescapes inside text) :
      Unescapes ('\\' :: 'n' :: inside) ('\n' :: text)
  | tab {inside text : List Char} (h : Unescapes inside text) :
      Unescapes ('\\' :: 't' :: inside) ('\t' :: text)
  | carriageReturn {inside text : List Char} (h : Unescapes inside text) :
      Unescapes ('\\' :: 'r' :: inside) ('\r' :: text)
  | null {inside text : List Char} (h : Unescapes inside text) :
      Unescapes ('\\' :: '0' :: inside) ('\x00' :: text)
  /-- Any other character behind a backslash stands for itself. -/
  | other {c : Char} {inside text : List Char} (hc : c ∉ ['n', 't', 'r', '0'])
      (h : Unescapes inside text) : Unescapes ('\\' :: c :: inside) (c :: text)

/-- The kind of token that a text stands for. -/
inductive IsToken : List Char → TokenKind → Prop where
  /-- Digits stand for the integer that they are the decimal digits of. -/
  | integer {digits : List Char} {n : Int64} (h : digits ∈ Pattern.integer.language)
      (hn : n.toInt = Decimal.natOfDigits digits) : IsToken digits (.literal (.int n))
  /-- Digits with a point stand for the nearest number. -/
  | float {whole fraction : List Char} {pattern : Nat}
      (h : whole ++ '.' :: fraction ∈ Pattern.float.language) (hfinite : pattern < Binary.infinity)
      (hnearest : Binary.IsNearest pattern (Decimal.valueOf whole fraction)) :
      IsToken (whole ++ '.' :: fraction) (.literal (.float (Binary.ofMagnitude false pattern)))
  | truth (b : Bool) : IsToken (boolText b).toList (.literal (.bool b))
  /-- A text in quotes stands for its inside with the escapes resolved. -/
  | string {inside : List Char} {s : String} (h : '"' :: inside ++ ['"'] ∈ Pattern.string.language)
      (hs : Unescapes inside s.toList) : IsToken ('"' :: inside ++ ['"']) (.literal (.str s))
  | keyword (word : Keyword) : IsToken word.spelling.toList (.keyword word)
  | mark (sign : Mark) : IsToken sign.spelling.toList (.mark sign)
  /-- A name, if it is nothing else. -/
  | identifier {name : String} (h : name.toList ∈ Pattern.name.language)
      (honly : ∀ pattern : Pattern, name.toList ∈ pattern.language → pattern = .name) :
      IsToken name.toList (.identifier name)

/-! ## Gaps -/

/-- Blanks and complete comments. A comment ends with the first star before a slash behind its
start. -/
inductive IsGap : List Char → Prop where
  | nil : IsGap []
  | blank {c : Char} {rest : List Char} (hc : c ∈ [' ', '\t', '\r', '\x0c', '\n'])
      (h : IsGap rest) : IsGap (c :: rest)
  | comment {inside rest : List Char} (hinside : ¬ ['*', '/'] <:+: inside ++ ['*'])
      (h : IsGap rest) : IsGap ('/' :: '*' :: inside ++ ['*', '/'] ++ rest)

/-- A text as gaps and the literals of tokens in turn, with the end behind the last gap. -/
inductive Munched : List Char → List Token → Prop where
  | done {gap : List Char} {last : Token} (hgap : IsGap gap) (hlast : last.kind = .endOfInput)
      (hempty : last.literal = "") : Munched gap [last]
  | token {gap rest : List Char} {token : Token} {ts : List Token} (hgap : IsGap gap)
      (hlongest : IsLongest token.literal.toList (token.literal.toList ++ rest))
      (hkind : IsToken token.literal.toList token.kind) (hrest : Munched rest ts) :
      Munched (gap ++ (token.literal.toList ++ rest)) (token :: ts)

namespace Lexer

/-! ## What a comment is read as -/

/-- A comment is read up to the first star before a slash. -/
theorem open_of_closeComment {text closed rest : List Char}
    (h : closeComment text = some (closed, rest)) :
    ∃ inside, closed = inside ++ ['*', '/'] ∧ Pattern.Open (inside ++ ['*']) := by
  induction text using closeComment.induct generalizing closed with
  | case1 => cases h
  | case2 tail =>
    cases h
    exact ⟨[], rfl, fun hpart => absurd hpart.length_le (by simp)⟩
  | case3 c tail hend ih =>
    rw [closeComment] at h
    · obtain ⟨⟨inner, after⟩, hinner, heq⟩ := Option.map_eq_some_iff.mp h
      cases heq
      obtain ⟨inside, rfl, hopen⟩ := ih hinner
      refine ⟨c :: inside, rfl, ?_⟩
      rw [Pattern.open_iff_isChain] at hopen ⊢
      rw [List.cons_append, List.isChain_cons]
      refine ⟨?_, hopen⟩
      rintro d hd ⟨rfl, rfl⟩
      have htail := closeComment_append hinner
      cases inside with
      | nil => simp at hd
      | cons e inside =>
        obtain rfl : e = '/' := by simpa using hd
        exact hend _ rfl htail.symm
    · exact hend

theorem isGap_of_gapItem? {text item rest items : List Char}
    (h : gapItem? text = some (item, rest)) (hitems : IsGap items) : IsGap (item ++ items) := by
  unfold gapItem? at h
  split at h
  next tail =>
    obtain ⟨⟨closed, after⟩, hclosed, heq⟩ := Option.map_eq_some_iff.mp h
    cases heq
    obtain ⟨inside, rfl, hopen⟩ := open_of_closeComment hclosed
    exact .comment hopen hitems
  next c tail _ =>
    split at h
    next hgap =>
      cases h
      refine .blank ?_ hitems
      simpa [Text.isGap, or_assoc] using hgap
    next => cases h
  next => cases h

/-- What is skipped before a literal is a gap. -/
theorem isGap_gap (text : List Char) : IsGap (gap text).1 := by
  suffices ∀ ahead text, IsGap (gapItems ahead text).1 from this text text
  intro ahead
  induction ahead with
  | nil => exact fun _ => .nil
  | cons _ ahead ih =>
    intro text
    unfold gapItems
    cases hitem : gapItem? text with
    | none => exact .nil
    | some found => exact isGap_of_gapItem? hitem (ih found.2)

theorem gapItem?_ne_nil {text item rest : List Char} (h : gapItem? text = some (item, rest)) :
    item ≠ [] := by
  rintro rfl
  unfold gapItem? at h
  split at h
  next =>
    obtain ⟨⟨_, _⟩, _, heq⟩ := Option.map_eq_some_iff.mp h
    cases heq
  next => split at h <;> cases h
  next => cases h

/-- Behind a gap there is neither a blank nor a comment. -/
theorem gapItem?_gap (text : List Char) : gapItem? (gap text).2 = none := by
  suffices ∀ ahead text : List Char, text.length ≤ ahead.length →
      gapItem? (gapItems ahead text).2 = none from this text text (Nat.le_refl _)
  intro ahead
  induction ahead with
  | nil =>
    intro text hlength
    rw [List.length_eq_zero_iff.mp (Nat.le_zero.mp hlength)]
    rfl
  | cons _ ahead ih =>
    intro text hlength
    unfold gapItems
    cases hitem : gapItem? text with
    | none => exact hitem
    | some found =>
      obtain ⟨item, rest⟩ := found
      have hpos := List.length_pos_iff.mpr (gapItem?_ne_nil hitem)
      have hlengths := congrArg List.length (gapItem?_append hitem)
      rw [List.length_append] at hlengths
      exact ih rest (by rw [List.length_cons] at hlength; omega)

/-! ## What is read as a literal -/

theorem length_le_takeWhile {p : Char → Bool} {piece text : List Char} (h : piece <+: text)
    (hall : piece.all p) : piece.length ≤ (text.takeWhile p).length := by
  obtain ⟨rest, rfl⟩ := h
  rw [List.takeWhile_append_of_pos (List.all_eq_true.mp hall), List.length_append]
  exact Nat.le_add_right _ _

/-- What a text starts with and a pattern matches shares its first character. -/
theorem exists_tail_of_mem {pattern : Pattern} {c : Char} {piece tail : List Char}
    (hhead : piece <+: c :: tail) (hpiece : piece ∈ pattern.language) :
    ∃ after, piece = c :: after ∧ after <+: tail := by
  obtain ⟨d, after, rfl, _⟩ := Pattern.exists_cons_of_mem hpiece
  obtain ⟨rfl, hafter⟩ := List.cons_prefix_cons.mp hhead
  exact ⟨after, rfl, hafter⟩

/-- A number with a point that a text starts with ends its digits with the point. -/
theorem dropWhile_of_mem_float {piece text : List Char} (h : piece <+: text)
    (hpiece : piece ∈ Pattern.float.language) : ∃ whole fraction rest,
      piece = whole ++ '.' :: fraction ∧ fraction.all Char.isDigit ∧
        text.takeWhile Char.isDigit = whole ∧
          text.dropWhile Char.isDigit = '.' :: (fraction ++ rest) := by
  obtain ⟨whole, fraction, rfl, _, hwhole, hfraction⟩ := Pattern.mem_float.mp hpiece
  obtain ⟨rest, rfl⟩ := h
  have hpoint := not_isDigit_point (fraction ++ rest)
  refine ⟨whole, fraction, rest, rfl, hfraction, ?_, ?_⟩
  · rw [List.append_assoc, List.cons_append, takeWhile_piece hwhole hpoint]
  · rw [List.append_assoc, List.cons_append, dropWhile_piece hwhole hpoint]

/-- A text that starts with a digit has a digit before the first sign that is none. -/
theorem ne_nil_of_isDigit {c : Char} {tail whole rest : List Char} (hc : c.isDigit)
    (h : c :: tail = whole ++ rest) (hrest : ∀ d ∈ rest.head?, d.isDigit = false) :
    whole ≠ [] := by
  rintro rfl
  have hnot := hrest c (by rw [← List.nil_append rest, ← h]; rfl)
  rw [hc] at hnot
  cases hnot

/-- Of the numbers that a text starts with, the longest is read. -/
theorem isLongest_number {c : Char} {tail : List Char} (hc : c.isDigit) :
    IsLongest (number (c :: tail)).text (c :: tail) := by
  have hnumber : ∀ (pattern : Pattern) (other : List Char), other <+: c :: tail →
      other ∈ pattern.language →
        other ∈ Pattern.integer.language ∨ other ∈ Pattern.float.language := by
    intro pattern other hhead hother
    obtain ⟨after, rfl, _⟩ := exists_tail_of_mem hhead hother
    exact Pattern.mem_number_of_mem hother hc
  have hstarts := (⟨_, number_append (c :: tail)⟩ : (number (c :: tail)).text <+: c :: tail)
  have hreads := readsNumber_number (c :: tail)
  generalize htext : c :: tail = text at hnumber hstarts hreads ⊢
  generalize number text = lexeme at hstarts hreads ⊢
  cases hreads with
  | @float whole fraction rest hwhole hfraction hrest =>
    have hpoint := not_isDigit_point (fraction ++ rest)
    have hne := ne_nil_of_isDigit hc htext hpoint
    refine ⟨hstarts, ⟨.float, Pattern.mem_float.mpr ⟨_, _, rfl, hne, hwhole, hfraction⟩⟩, ?_⟩
    intro pattern other hhead hother
    rcases hnumber pattern other hhead hother with hinteger | hfloat
    · have hlength := length_le_takeWhile hhead (Pattern.mem_integer.mp hinteger).2
      rw [takeWhile_piece hwhole hpoint] at hlength
      simp only [List.length_append]
      omega
    · obtain ⟨whole', fraction', rest', rfl, hfraction', htake, hdrop⟩ :=
        dropWhile_of_mem_float hhead hfloat
      rw [takeWhile_piece hwhole hpoint] at htake
      rw [dropWhile_piece hwhole hpoint, List.cons.injEq] at hdrop
      have hlength := length_le_takeWhile (List.prefix_append fraction' rest') hfraction'
      rw [← hdrop.2, takeWhile_piece hfraction hrest] at hlength
      simp only [← htake, List.length_append, List.length_cons]
      omega
  | @integer whole rest hwhole hrest =>
    have hdigit : ∀ d ∈ rest.head?, d.isDigit = false := fun d hd => (hrest d hd).1
    have hne := ne_nil_of_isDigit hc htext hdigit
    refine ⟨hstarts, ⟨.integer, Pattern.mem_integer.mpr ⟨hne, hwhole⟩⟩, ?_⟩
    intro pattern other hhead hother
    rcases hnumber pattern other hhead hother with hinteger | hfloat
    · have hlength := length_le_takeWhile hhead (Pattern.mem_integer.mp hinteger).2
      rwa [takeWhile_piece hwhole hdigit] at hlength
    · obtain ⟨_, _, _, _, _, _, hdrop⟩ := dropWhile_of_mem_float hhead hfloat
      rw [dropWhile_piece hwhole hdigit] at hdrop
      exact absurd rfl (hrest '.' (by rw [hdrop]; rfl)).2

/-- A number is read as its value. -/
theorem isToken_number {c : Char} {tail : List Char} {kind : TokenKind} (hc : c.isDigit)
    (hkind : (number (c :: tail)).kind = .ok kind) : IsToken (number (c :: tail)).text kind := by
  have hreads := readsNumber_number (c :: tail)
  generalize htext : c :: tail = text at hkind hreads ⊢
  generalize number text = lexeme at hkind hreads ⊢
  cases hreads with
  | @float whole fraction rest hwhole hfraction hrest =>
    have hne := ne_nil_of_isDigit hc htext (not_isDigit_point (fraction ++ rest))
    obtain ⟨pattern, hfinite, hround, rfl⟩ := exists_of_floatKind hkind
    have hdigits : (whole ++ fraction).all Char.isDigit := by simp [hwhole, hfraction]
    exact .float (Pattern.mem_float.mpr ⟨_, _, rfl, hne, hwhole, hfraction⟩) hfinite
      (Decimal.isNearest_ofDigits hdigits hfinite hround)
  | @integer whole rest hwhole hrest =>
    have hne := ne_nil_of_isDigit hc htext fun d hd => (hrest d hd).1
    obtain ⟨n, hn, rfl⟩ := exists_of_integerKind hkind
    exact .integer (Pattern.mem_integer.mpr ⟨hne, hwhole⟩) hn

/-! ## Texts in quotes -/

/-- The inside of a text in quotes is resolved as its escapes say. -/
theorem unescapes_decode {inside : List Char} (h : inside ∈ Pattern.quoted∗) :
    Unescapes inside (Text.decode inside) := by
  refine kstar_induction (motive := fun inside => Unescapes inside (Text.decode inside))
    .nil ?_ h
  intro piece hpiece text _ ih
  obtain ⟨c, hc, rfl⟩ | hescape := (Language.mem_add _ _ _).mp hpiece
  · rw [Bool.and_eq_true, bne_iff_ne, bne_iff_ne] at hc
    rw [List.singleton_append, Text.decode]
    · exact .plain hc.2 ih
    · exact fun h _ => hc.2 h
    · exact fun _ _ h _ => hc.2 h
  · obtain ⟨_, ⟨c, _, rfl⟩, rfl⟩ := mem_exactly_mul.mp hescape
    change Unescapes ('\\' :: c :: text) (Text.unescape c :: Text.decode text)
    unfold Text.unescape
    split
    · exact .newLine ih
    · exact .tab ih
    · exact .carriageReturn ih
    · exact .null ih
    next hn ht hr h0 =>
      refine .other ?_ ih
      simp only [List.mem_cons, List.not_mem_nil, or_false, not_or]
      exact ⟨hn, ht, hr, h0⟩

/-- A text in quotes is read up to its own closing quote. -/
theorem isLongest_string {text : List Char} {kind : TokenKind}
    (hkind : (string text).kind = .ok kind) :
    IsLongest (string text).text ('"' :: text) ∧ IsToken (string text).text kind := by
  unfold string at hkind ⊢
  split at hkind
  next inside rest hclose =>
    obtain rfl := Except.ok.inj hkind
    have happend : '"' :: inside ++ ['"'] ++ rest = '"' :: text := by
      simp [← Text.closeQuote_append hclose]
    have hinside := Pattern.mem_quoted_of_closeQuote hclose
    have hpiece : '"' :: inside ++ ['"'] ∈ Pattern.string.language :=
      Pattern.mem_string.mpr ⟨inside, hinside, rfl⟩
    refine ⟨⟨⟨rest, happend⟩, ⟨_, hpiece⟩, ?_⟩, .string hpiece ?_⟩
    · intro pattern other hhead hother
      obtain ⟨tail, rfl, htail⟩ := exists_tail_of_mem hhead hother
      obtain hstring | rfl := Pattern.mem_string_of_mem hother
      · -- No other quote ends the text.
        obtain ⟨inner, hinner, heq⟩ := Pattern.mem_string.mp hstring
        obtain ⟨after, hafter⟩ := htail
        rw [List.cons_append] at heq
        obtain ⟨_, rfl⟩ := List.cons.inj heq
        rw [List.append_assoc, List.singleton_append] at hafter
        rw [← hafter, Pattern.closeQuote_of_mem_quoted hinner] at hclose
        cases hclose
        exact Nat.le_refl _
      · simp
    · rw [String.toList_ofList]
      exact unescapes_decode hinside
  next => cases hkind

/-! ## Names -/

/-- A name is a reserved word or a truth value if it is spelled like one. -/
theorem isToken_wordKind {name : String} (h : IsWord name) :
    IsToken name.toList (wordKind name) := by
  unfold wordKind
  split
  next htrue =>
    subst htrue
    exact .truth true
  next htrue =>
    split
    next hfalse =>
      subst hfalse
      exact .truth false
    next hfalse =>
      split
      next word hword =>
        have hspelling := List.find?_some hword
        rw [decide_eq_true_eq] at hspelling
        subst hspelling
        exact .keyword word
      next hnone =>
        obtain ⟨c, tail, htext, hc, htail⟩ := h
        refine .identifier (Pattern.mem_name.mpr ⟨c, tail, htext, hc, htail⟩) ?_
        intro pattern hpattern
        have hstarts : pattern.starts c := Pattern.starts_of_mem (htext ▸ hpattern)
        obtain rfl | ⟨b, rfl⟩ | ⟨word, rfl⟩ := Pattern.named_of_starts hstarts hc
        · rfl
        · have hname := String.toList_inj.mp (mem_exactly.mp hpattern)
          cases b
          · exact absurd hname hfalse
          · exact absurd hname htrue
        · have hname := String.toList_inj.mp (mem_exactly.mp hpattern)
          rw [hname, Keyword.ofSpelling?_spelling] at hnone
          cases hnone

/-- Of a name, everything that goes on with it is read. -/
theorem isLongest_word {c : Char} {tail : List Char} (hc : Text.isNameStart c) :
    IsLongest (word (c :: tail)).text (c :: tail) := by
  have hpart := Text.isNamePart_of_isNameStart hc
  refine ⟨⟨_, word_append (c :: tail)⟩, ⟨.name, Pattern.mem_name.mpr ?_⟩, ?_⟩
  · refine ⟨c, tail.takeWhile Text.isNamePart, ?_, hc, List.all_takeWhile⟩
    rw [word, List.takeWhile_cons, if_pos hpart]
  · intro pattern other hhead hother
    obtain ⟨after, rfl, _⟩ := exists_tail_of_mem hhead hother
    exact length_le_takeWhile hhead (Pattern.all_isNamePart_of_mem hother hc)

/-! ## Signs -/

theorem isLongest_sign {c : Char} {rest : List Char} {kind : TokenKind}
    (hdigit : c.isDigit = false) (hname : Text.isNameStart c = false) (hquote : c ≠ '"')
    (hgap : Text.isGap c = false) (hcomment : c = '/' → rest.head? ≠ some '*')
    (hkind : (sign c rest).kind = .ok kind) :
    IsLongest (sign c rest).text (c :: rest) ∧ IsToken (sign c rest).text kind := by
  unfold sign at hkind ⊢
  split at hkind
  next found hfound =>
    obtain rfl := Except.ok.inj hkind
    have hstarts := List.find?_some hfound
    rw [List.isPrefixOf_iff_prefix] at hstarts
    refine ⟨⟨hstarts, ⟨.mark found, rfl⟩, ?_⟩, .mark found⟩
    intro pattern other hhead hother
    obtain ⟨tail, rfl, htail⟩ := exists_tail_of_mem hhead hother
    have hcomment' : c = '/' → tail.head? ≠ some '*' := by
      intro hslash hstar
      obtain ⟨after, rfl⟩ := htail
      refine hcomment hslash ?_
      rw [List.head?_append, hstar]
      rfl
    obtain ⟨other, heq⟩ := Pattern.exists_mark_of_mem hother hdigit hname hquote hgap hcomment'
    rw [heq] at hhead ⊢
    exact length_le_of_leading? hfound hhead
  next => cases hkind

/-! ## What is read at a place -/

/-- Only at the end nothing is read. -/
theorem eq_nil_of_lexeme?_eq_none {text : List Char} (h : lexeme? text = none) : text = [] := by
  unfold lexeme? at h
  split at h
  next => rfl
  all_goals cases h

/-- The ways to read a lexeme. -/
inductive Reads : List Char → Lexeme → Prop where
  | string (rest : List Char) : Reads ('"' :: rest) (string rest)
  | openComment (rest : List Char) :
      Reads ('/' :: '*' :: rest) ⟨['/', '*'], .error .unterminatedComment, rest⟩
  | number {c : Char} (rest : List Char) (hdigit : c.isDigit) :
      Reads (c :: rest) (number (c :: rest))
  | word {c : Char} (rest : List Char) (hname : Text.isNameStart c) :
      Reads (c :: rest) (word (c :: rest))
  | sign {c : Char} {rest : List Char} (hdigit : c.isDigit = false)
      (hname : Text.isNameStart c = false) (hquote : c ≠ '"')
      (hcomment : c = '/' → rest.head? ≠ some '*') : Reads (c :: rest) (sign c rest)

theorem reads_of_lexeme? {text : List Char} {lexeme : Lexeme} (h : lexeme? text = some lexeme) :
    Reads text lexeme := by
  unfold lexeme? at h
  split at h
  next => cases h
  next rest =>
    obtain rfl := Option.some.inj h
    exact .string rest
  next rest =>
    obtain rfl := Option.some.inj h
    exact .openComment rest
  next c rest hquote hcomment =>
    obtain rfl := Option.some.inj h
    split
    next hdigit => exact .number rest hdigit
    next hdigit =>
      split
      next hname => exact .word rest hname
      next hname =>
        refine .sign (by simpa using hdigit) (by simpa using hname) hquote ?_
        rintro rfl hstar
        obtain ⟨tail, rfl⟩ := List.head?_eq_some_iff.mp hstar
        exact hcomment tail rfl rfl

/-- Behind a gap, what is read as a literal is the longest text that a pattern matches, and a token
of its kind. -/
theorem isLongest_of_lexeme? {text : List Char} {lexeme : Lexeme} {kind : TokenKind}
    (hgap : gapItem? text = none) (h : lexeme? text = some lexeme)
    (hkind : lexeme.kind = .ok kind) : IsLongest lexeme.text text ∧ IsToken lexeme.text kind := by
  cases reads_of_lexeme? h with
  | string rest => exact isLongest_string hkind
  | openComment rest => cases hkind
  | number rest hdigit => exact ⟨isLongest_number hdigit, isToken_number hdigit hkind⟩
  | @word c rest hname =>
    obtain rfl := Except.ok.inj hkind
    have hword : IsWord (String.ofList ((c :: rest).takeWhile Text.isNamePart)) :=
      isWord_takeWhile hname
    have htoken := isToken_wordKind hword
    rw [String.toList_ofList] at htoken
    exact ⟨isLongest_word hname, htoken⟩
  | sign hdigit hname hquote hcomment =>
    refine isLongest_sign hdigit hname hquote ?_ hcomment hkind
    rw [← Bool.not_eq_true]
    intro hblank
    rw [gapItem?_of_isGap hblank] at hgap
    cases hgap

end Lexer

/-! ## Sources -/

theorem IsLongest.length_pos {piece text : List Char} (h : IsLongest piece text) :
    0 < piece.length := by
  obtain ⟨pattern, hmem⟩ := h.matched
  obtain ⟨c, tail, rfl, _⟩ := Pattern.exists_cons_of_mem hmem
  exact Nat.succ_pos _

theorem IsToken.ne_endOfInput {piece : List Char} {kind : TokenKind} (h : IsToken piece kind) :
    kind ≠ .endOfInput := by
  intro hend
  cases h <;> cases hend

/-- The end comes last and only once. -/
theorem Munched.ends {text : List Char} {ts : List Token} (h : Munched text ts) :
    ∃ us last, ts = us ++ [last] ∧ last.kind = .endOfInput ∧
      ∀ token ∈ us, token.kind ≠ .endOfInput := by
  induction h with
  | @done gap last hgap hlast hempty => exact ⟨[], last, rfl, hlast, List.forall_mem_nil _⟩
  | @token gap rest token ts hgap hlongest hkind hrest ih =>
    obtain ⟨us, last, rfl, hlast, hus⟩ := ih
    exact ⟨token :: us, last, rfl, hlast, List.forall_mem_cons.mpr ⟨hkind.ne_endOfInput, hus⟩⟩

namespace Cursor

open Lexer

/-- A token that is found next is the end behind a gap, or stands for the longest text behind a
gap. -/
theorem next_cases {cursor after : Cursor} {token : Token} (h : cursor.next = (.ok token, after)) :
    (token.kind = .endOfInput ∧ token.literal = "" ∧ IsGap cursor.rest) ∨
      ∃ gap, IsGap gap ∧ cursor.rest = gap ++ (token.literal.toList ++ after.rest) ∧
        IsLongest token.literal.toList (token.literal.toList ++ after.rest) ∧
          IsToken token.literal.toList token.kind := by
  have hgap := isGap_gap cursor.rest
  have happend := gap_append cursor.rest
  cases hlexeme : lexeme? (gap cursor.rest).2 with
  | none =>
    simp only [next, hlexeme] at h
    cases h
    rw [eq_nil_of_lexeme?_eq_none hlexeme, List.append_nil] at happend
    rw [happend] at hgap
    exact .inl ⟨rfl, rfl, hgap⟩
  | some lexeme =>
    simp only [next, hlexeme] at h
    split at h
    next kind hkind =>
      cases h
      have hfound := isLongest_of_lexeme? (gapItem?_gap _) hlexeme hkind
      refine .inr ⟨_, hgap, ?_⟩
      rw [String.toList_ofList, lexeme?_append hlexeme]
      exact ⟨happend.symm, hfound⟩
    next => cases h

/-- The tokens that are collected are those of the text, if there is room for all of them. -/
theorem munched_of_collect {count : Nat} {cursor : Cursor} {ts : List Token}
    (hcount : cursor.rest.length < count) (h : collect count cursor = .ok ts) :
    Munched cursor.rest ts := by
  induction count generalizing cursor ts with
  | zero => exact absurd hcount (Nat.not_lt_zero _)
  | succ count ih =>
    unfold collect at h
    split at h
    next => cases h
    next token after hnext =>
      obtain ⟨hend, hempty, hgap⟩ | ⟨gap, hgap, htext, hlongest, hkind⟩ := next_cases hnext
      · rw [if_pos hend] at h
        cases h
        exact .done hgap hend hempty
      · rw [if_neg hkind.ne_endOfInput] at h
        rw [htext] at hcount ⊢
        have hpos := hlongest.length_pos
        rw [List.length_append, List.length_append] at hcount
        cases hrest : collect count after with
        | error fault =>
          rw [hrest] at h
          cases h
        | ok rest =>
          rw [hrest] at h
          obtain rfl := Except.ok.inj h
          exact .token hgap hlongest hkind (ih (by omega) hrest)

end Cursor

/-- The end comes last in the tokens of a source, and only once. -/
theorem ends_of_tokenize {source : String} {ts : List Token} (h : tokenize source = .ok ts) :
    ∃ us last, ts = us ++ [last] ∧ last.kind = .endOfInput ∧
      ∀ token ∈ us, token.kind ≠ .endOfInput := by
  have hcount : (Cursor.start source).rest.length < source.length + 1 := by
    rw [Cursor.start, String.length_toList]
    exact Nat.lt_succ_self _
  exact (Cursor.munched_of_collect hcount h).ends

/-- A source that is read is gaps and the longest literals in turn, and ends once. -/
theorem munched_of_tokenize {source : String} {ts : List Token} (h : tokenize source = .ok ts) :
    Munched source.toList ts ∧ ∃ us last, ts = us ++ [last] ∧ last.kind = .endOfInput ∧
      ∀ token ∈ us, token.kind ≠ .endOfInput := by
  have hcount : (Cursor.start source).rest.length < source.length + 1 := by
    rw [Cursor.start, String.length_toList]
    exact Nat.lt_succ_self _
  have hmunched : Munched source.toList ts := Cursor.munched_of_collect hcount h
  exact ⟨hmunched, hmunched.ends⟩

/-- Comments end early, signs go on as long as they can, and an escaped quote closes nothing. -/
theorem munched_of_tokenize_comment : ∃ ts,
    tokenize "if x1//=-1/* **/\n \"\\\"\";/**/" = .ok ts ∧
      Munched "if x1//=-1/* **/\n \"\\\"\";/**/".toList ts := by
  have hread : (tokenize "if x1//=-1/* **/\n \"\\\"\";/**/").toOption.isSome := by decide +kernel
  cases h : tokenize "if x1//=-1/* **/\n \"\\\"\";/**/" with
  | error fault =>
    rw [h] at hread
    cases hread
  | ok ts => exact ⟨ts, rfl, (munched_of_tokenize h).1⟩

end ScopedScript
