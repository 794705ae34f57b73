import ScopedScript.Proofs.Number.Literal
import ScopedScript.Proofs.RoundTrip.Tree

/-!
# Texts and the tokens read from them

A text that is blanks and pieces, each of which is the longest token at its place, is read as the
tokens of its pieces. Whether a piece is the longest token depends on the character behind it: a
word or a number ends before a character that cannot go on with it, and a sign ends before a
character that makes no longer sign of it.

In the other direction, every token that is read has a spelling of its own.
-/

namespace ScopedScript

open Lexer

/-! ## Pieces -/

/-- A piece is the longest token at its place. -/
structure IsRead (piece rest : List Char) (kind : TokenKind) : Prop where
  gap : gapItem? (piece ++ rest) = none
  lexeme : lexeme? (piece ++ rest) = some ⟨piece, .ok kind, rest⟩

/-- A text made of blanks and pieces, with the token kinds of the pieces. -/
inductive Lexes : List Char → List TokenKind → Prop where
  | nil : Lexes [] []
  | gap {c : Char} {rest : List Char} {kinds : List TokenKind} (hc : Text.isGap c)
      (h : Lexes rest kinds) : Lexes (c :: rest) kinds
  /-- A piece that is the longest token at its place. -/
  | token {piece rest : List Char} {kind : TokenKind} {kinds : List TokenKind}
      (hgap : gapItem? (piece ++ rest) = none)
      (hpiece : lexeme? (piece ++ rest) = some ⟨piece, .ok kind, rest⟩)
      (hne : piece ≠ []) (hkind : kind ≠ .endOfInput) (h : Lexes rest kinds) :
      Lexes (piece ++ rest) (kind :: kinds)

theorem gapItem?_of_isGap {c : Char} (hc : Text.isGap c) (rest : List Char) :
    gapItem? (c :: rest) = some ([c], rest) := by
  rw [gapItem?]
  · rw [if_pos hc]
  · rintro _ rfl
    exact absurd hc (by decide)

theorem gap_eq_nil {text : List Char} (h : gapItem? text = none) : gap text = ([], text) := by
  cases text with
  | nil => rfl
  | cons c rest => simp only [gap, gapItems, h]

namespace Cursor

/-- A blank only moves the place. -/
theorem next_gap {c : Char} (hc : Text.isGap c) (rest : List Char) (position : Position) :
    next ⟨c :: rest, position⟩ = next ⟨rest, position.advance c⟩ := by
  have hgap : Lexer.gap (c :: rest) = (c :: (Lexer.gap rest).1, (Lexer.gap rest).2) := by
    simp only [Lexer.gap, gapItems, gapItem?_of_isGap hc, List.singleton_append]
  simp only [next, hgap, Position.advanceBy_cons]

theorem collect_gap {c : Char} (hc : Text.isGap c) (rest : List Char) (position : Position)
    (count : Nat) :
    collect count ⟨c :: rest, position⟩ = collect count ⟨rest, position.advance c⟩ := by
  cases count with
  | zero => rfl
  | succ count => simp only [collect, next_gap hc]

theorem next_token {piece rest : List Char} {kind : TokenKind} (h : IsRead piece rest kind)
    (position : Position) :
    next ⟨piece ++ rest, position⟩ =
      (.ok ⟨kind, String.ofList piece, position⟩, ⟨rest, position.advanceBy piece⟩) := by
  simp only [next, gap_eq_nil h.gap, h.lexeme, Position.advanceBy_nil]

/-- The tokens of a text are those of its pieces, as long as none of them is cut off. -/
theorem collect_of_lexes {text : List Char} {kinds : List TokenKind} (h : Lexes text kinds)
    (position : Position) {count : Nat} (hcount : text.length < count) :
    ∃ ts, collect count ⟨text, position⟩ = .ok ts ∧
      ts.map Token.kind = kinds ++ [.endOfInput] := by
  induction h generalizing position count with
  | nil =>
    obtain ⟨less, rfl⟩ : ∃ less, count = less + 1 := ⟨count - 1, by simp at hcount; omega⟩
    exact ⟨[⟨.endOfInput, "", position⟩], rfl, rfl⟩
  | gap hc _ ih =>
    rw [collect_gap hc]
    exact ih _ (Nat.lt_of_succ_lt hcount)
  | @token piece rest kind kinds hgap hpiece hne hkind _ ih =>
    have hlength := List.length_pos_iff.mpr hne
    rw [List.length_append] at hcount
    obtain ⟨less, rfl⟩ : ∃ less, count = less + 1 := ⟨count - 1, by omega⟩
    have hless : rest.length < less := by omega
    obtain ⟨ts, hts, hkinds⟩ := ih (position.advanceBy piece) hless
    refine ⟨⟨kind, String.ofList piece, position⟩ :: ts, ?_, by simp [hkinds]⟩
    simp only [collect, next_token ⟨hgap, hpiece⟩ position, if_neg hkind, hts]
    rfl

end Cursor

/-- A text made of pieces is read as their tokens. -/
theorem Lexes.tokenize {text : String} {kinds : List TokenKind} (h : Lexes text.toList kinds) :
    ∃ ts, tokenize text = .ok ts ∧ ts.map Token.kind = kinds ++ [.endOfInput] :=
  Cursor.collect_of_lexes h _ (by rw [String.length_toList]; exact Nat.lt_succ_self _)

/-! ## What ends a piece -/

/-- What ends a word or a number: the next character does not go on with it. -/
def Loose : List Char → Prop
  | [] => True
  | c :: _ => Text.isNamePart c = false ∧ c ≠ '.'

/-- What ends a sign: the next character makes no longer sign and no comment of it. -/
def Clear : List Char → Prop
  | [] => True
  | c :: _ => c ≠ '=' ∧ c ≠ '/' ∧ c ≠ '*'

theorem isDigit_lt {c : Char} (h : c.isDigit) : c.toNat < 0x80 := by
  simp only [Char.isDigit, Bool.and_eq_true, decide_eq_true_eq] at h
  have hle : c.val.toNat ≤ 57 := UInt32.le_iff_toNat_le.mp h.2
  exact Nat.lt_of_le_of_lt hle (by decide)

theorem isNamePart_of_isDigit {c : Char} (h : c.isDigit) : Text.isNamePart c := by
  simp [Text.isNamePart, Text.isNumeral, isDigit_lt h, h]

/-- Digits start no name. -/
theorem not_isNameStart_of_isDigit {c : Char} (h : c.isDigit) : Text.isNameStart c = false := by
  have halpha : c.isAlpha = false := by
    simp only [Char.isDigit, Char.isAlpha, Char.isUpper, Char.isLower, Bool.and_eq_true,
      decide_eq_true_eq, Bool.or_eq_false_iff, Bool.and_eq_false_iff, decide_eq_false_iff_not,
      UInt32.le_iff_toNat_le, ge_iff_le] at h ⊢
    simp at h ⊢
    omega
  have hne : c ≠ '_' := by
    rintro rfl
    exact absurd h (by decide)
  simp [Text.isNameStart, Text.isLetter, isDigit_lt h, halpha, hne]

section Spans

variable {p : Char → Bool} {piece rest : List Char}

/-- A piece ends where the first character stands that does not belong to it. -/
theorem takeWhile_piece (hpiece : piece.all p) (hrest : ∀ c ∈ rest.head?, p c = false) :
    (piece ++ rest).takeWhile p = piece := by
  rw [List.takeWhile_append_of_pos (List.all_eq_true.mp hpiece)]
  cases rest with
  | nil => simp
  | cons c rest => simp [hrest c rfl]

theorem dropWhile_piece (hpiece : piece.all p) (hrest : ∀ c ∈ rest.head?, p c = false) :
    (piece ++ rest).dropWhile p = rest := by
  rw [List.dropWhile_append_of_pos (List.all_eq_true.mp hpiece)]
  cases rest with
  | nil => rfl
  | cons c rest => simp [hrest c rfl]

end Spans

theorem Loose.not_isNamePart {rest : List Char} (h : Loose rest) :
    ∀ c ∈ rest.head?, Text.isNamePart c = false := by
  cases rest with
  | nil => exact nofun
  | cons c rest =>
    rintro _ ⟨⟩
    exact h.1

theorem Loose.not_isDigit {rest : List Char} (h : Loose rest) :
    ∀ c ∈ rest.head?, c.isDigit = false := by
  intro c hc
  have hpart := h.not_isNamePart c hc
  refine Bool.eq_false_iff.mpr ?_
  intro hdigit
  rw [isNamePart_of_isDigit hdigit] at hpart
  exact Bool.noConfusion hpart

theorem Loose.ends_digits {rest : List Char} (h : Loose rest) :
    ∀ c ∈ rest.head?, c.isDigit = false ∧ c ≠ '.' := by
  intro c hc
  refine ⟨h.not_isDigit c hc, ?_⟩
  obtain ⟨more, rfl⟩ := List.head?_eq_some_iff.mp hc
  exact h.2

/-! ## Numbers -/

namespace Lexer

/-- A point is no digit. -/
theorem not_isDigit_point (rest : List Char) : ∀ c ∈ ('.' :: rest).head?, c.isDigit = false := by
  rintro _ ⟨⟩
  decide

/-- What digits with a point stand for. -/
def floatKind (whole fraction : List Char) : Except LexFault TokenKind :=
  if Binary.isFinite ((Decimal.ofDigits whole fraction).round false) then
    .ok (.literal (.float ((Decimal.ofDigits whole fraction).round false)))
  else .error (fault (whole ++ '.' :: fraction))

/-- What digits alone stand for. -/
def integerKind (whole : List Char) : Except LexFault TokenKind :=
  match Integer.ofDigits? false whole with
  | some n => .ok (.literal (.int n))
  | none => .error (fault whole)

/-- The ways to read a number. -/
inductive ReadsNumber : List Char → Lexeme → Prop where
  | float {whole fraction rest : List Char} (hwhole : whole.all Char.isDigit)
      (hfraction : fraction.all Char.isDigit) (hrest : ∀ c ∈ rest.head?, c.isDigit = false) :
      ReadsNumber (whole ++ '.' :: (fraction ++ rest))
        ⟨whole ++ '.' :: fraction, floatKind whole fraction, rest⟩
  | integer {whole rest : List Char} (hwhole : whole.all Char.isDigit)
      (hrest : ∀ c ∈ rest.head?, c.isDigit = false ∧ c ≠ '.') :
      ReadsNumber (whole ++ rest) ⟨whole, integerKind whole, rest⟩

theorem ReadsNumber.number_eq {text : List Char} {lexeme : Lexeme} (h : ReadsNumber text lexeme) :
    number text = lexeme := by
  cases h with
  | @float whole fraction rest hwhole hfraction hrest =>
    have hpoint := not_isDigit_point (fraction ++ rest)
    simp only [number, takeWhile_piece hwhole hpoint, dropWhile_piece hwhole hpoint,
      takeWhile_piece hfraction hrest, dropWhile_piece hfraction hrest]
    rfl
  | @integer whole rest hwhole hrest =>
    have hdigit : ∀ c ∈ rest.head?, c.isDigit = false := fun c hc => (hrest c hc).1
    rw [number, takeWhile_piece hwhole hdigit, dropWhile_piece hwhole hdigit]
    split
    · exact absurd rfl (hrest _ rfl).2
    · rfl

/-- Digits are read up to what is none. -/
theorem not_isDigit_dropWhile (text : List Char) :
    ∀ c ∈ (text.dropWhile Char.isDigit).head?, c.isDigit = false := by
  intro c hc
  have hnot := List.head?_dropWhile_not Char.isDigit text
  rw [Option.mem_def.mp hc] at hnot
  exact hnot

theorem readsNumber_number (text : List Char) : ReadsNumber text (number text) := by
  have htext : text.takeWhile Char.isDigit ++ text.dropWhile Char.isDigit = text :=
    List.takeWhile_append_dropWhile
  unfold number
  split
  next after hafter =>
    have hreads := ReadsNumber.float (List.all_takeWhile (l := text)) (List.all_takeWhile (l := after))
      (not_isDigit_dropWhile after)
    rwa [List.takeWhile_append_dropWhile, ← hafter, htext] at hreads
  next hnone =>
    have hstop : ∀ c ∈ (text.dropWhile Char.isDigit).head?, c.isDigit = false ∧ c ≠ '.' := by
      intro c hc
      refine ⟨not_isDigit_dropWhile text c hc, ?_⟩
      rintro rfl
      obtain ⟨after, hafter⟩ := List.head?_eq_some_iff.mp hc
      exact hnone after hafter
    have hreads := ReadsNumber.integer (List.all_takeWhile (l := text)) hstop
    rwa [htext] at hreads

/-- Digits with a point that are a token stand for a finite number. -/
theorem exists_of_floatKind {whole fraction : List Char} {kind : TokenKind}
    (h : floatKind whole fraction = .ok kind) : ∃ pattern < Binary.infinity,
      (Decimal.ofDigits whole fraction).round false = Binary.ofMagnitude false pattern ∧
        kind = .literal (.float (Binary.ofMagnitude false pattern)) := by
  obtain ⟨pattern, hle, hround⟩ := Decimal.exists_round_eq (.ofDigits whole fraction)
  simp only [floatKind, hround] at h
  split at h
  next hfinite =>
    rw [Binary.isFinite, Binary.magnitude_ofMagnitude hle, decide_eq_true_eq] at hfinite
    exact ⟨pattern, hfinite, hround, (Except.ok.inj h).symm⟩
  next => cases h

/-- Digits alone that are a token stand for a word. -/
theorem exists_of_integerKind {whole : List Char} {kind : TokenKind}
    (h : integerKind whole = .ok kind) : ∃ n : Int64,
      n.toInt = Decimal.natOfDigits whole ∧ kind = .literal (.int n) := by
  unfold integerKind at h
  split at h
  next n hn =>
    rw [Integer.ofDigits?_eq, if_neg (by decide)] at hn
    exact ⟨n, Integer.toInt_of_fit? hn, (Except.ok.inj h).symm⟩
  next => cases h

/-! ## Signs -/

/-- The longest sign that a text starts with is read. -/
theorem length_le_of_leading? {text : List Char} {found sign : Mark}
    (h : Mark.leading? text = some found) (hsign : sign.spelling.toList <+: text) :
    sign.spelling.toList.length ≤ found.spelling.toList.length := by
  obtain ⟨_, before, after, hall, hbefore⟩ := List.find?_eq_some_iff_append.mp h
  have hmem := Mark.mem_all sign
  have hpairwise := Mark.pairwise_all
  rw [hall] at hmem hpairwise
  rw [String.length_toList, String.length_toList]
  obtain hmem | hmem := List.mem_append.mp hmem
  · -- An earlier sign would have been found.
    have hnot := hbefore sign hmem
    rw [Bool.not_eq_true', ← Bool.not_eq_true, List.isPrefixOf_iff_prefix] at hnot
    exact absurd hsign hnot
  · obtain rfl | hmem := List.mem_cons.mp hmem
    · exact Nat.le_refl _
    · have htail := (List.pairwise_append.mp hpairwise).2.1
      exact (List.pairwise_cons.mp htail).1 sign hmem

/-- Signs that go on with a sign go on with `=` or `/`. -/
theorem mark_continues : ∀ a ∈ Mark.all, ∀ b ∈ Mark.all, a.spelling.toList <+: b.spelling.toList →
    (b.spelling.toList.drop a.spelling.toList.length).head?.all fun c => c = '=' ∨ c = '/' := by
  decide +kernel

/-- So a sign is found up to what makes no longer sign of it. -/
theorem leading?_of_clear (mark : Mark) {rest : List Char} (hrest : Clear rest) :
    Mark.leading? (mark.spelling.toList ++ rest) = some mark := by
  have hstart : mark.spelling.toList <+: mark.spelling.toList ++ rest := List.prefix_append _ _
  have hsome : (Mark.leading? (mark.spelling.toList ++ rest)).isSome :=
    List.find?_isSome.mpr ⟨mark, Mark.mem_all mark, List.isPrefixOf_iff_prefix.mpr hstart⟩
  obtain ⟨found, hfound⟩ := Option.isSome_iff_exists.mp hsome
  have hhead : found.spelling.toList <+: mark.spelling.toList ++ rest :=
    List.isPrefixOf_iff_prefix.mp (List.find?_eq_some_iff_append.mp hfound).1
  have hlonger := List.prefix_of_prefix_length_le hstart hhead (length_le_of_leading? hfound hstart)
  have hcontinues := mark_continues mark (Mark.mem_all mark) found (Mark.mem_all found) hlonger
  obtain ⟨more, hmore⟩ := hlonger
  cases more with
  | nil =>
    rw [List.append_nil] at hmore
    rw [hfound, Mark.spelling_injective (String.toList_injective hmore)]
  | cons c more =>
    obtain ⟨after, hafter⟩ := hhead
    rw [← hmore, List.append_assoc, List.append_cancel_left_eq] at hafter
    subst hafter
    rw [← hmore, List.drop_left] at hcontinues
    have hc : c = '=' ∨ c = '/' := by simpa using hcontinues
    exact absurd hc (not_or.mpr ⟨hrest.1, hrest.2.1⟩)

end Lexer

/-! ## Words, numbers, texts and signs -/

section Pieces

variable {rest : List Char} {kinds : List TokenKind}

/-- Before a piece that starts with neither a blank nor a comment there is no gap. -/
theorem gapItem?_eq_none {c : Char} (hgap : Text.isGap c = false) (hslash : c ≠ '/')
    (text : List Char) : gapItem? (c :: text) = none := by
  rw [gapItem?]
  · rw [hgap]
    rfl
  · intro _ hc
    exact absurd hc hslash

theorem lexeme?_cons {c : Char} (hquote : c ≠ '"') (hslash : c ≠ '/') (text : List Char) :
    lexeme? (c :: text) = some (if c.isDigit then number (c :: text)
      else if Text.isNameStart c then word (c :: text) else sign c text) := by
  rw [lexeme?]
  · exact hquote
  · intro _ hc
    exact absurd hc hslash

theorem ne_of_isNamePart {c d : Char} (hd : Text.isNamePart d = false) (hc : Text.isNamePart c) :
    c ≠ d := by
  rintro rfl
  rw [hc] at hd
  exact Bool.noConfusion hd

theorem not_isGap_of_isNamePart {c : Char} (hc : Text.isNamePart c) : Text.isGap c = false := by
  have hspace := ne_of_isNamePart (d := ' ') (by decide) hc
  have htab := ne_of_isNamePart (d := '\t') (by decide) hc
  have hreturn := ne_of_isNamePart (d := '\r') (by decide) hc
  have hfeed := ne_of_isNamePart (d := '\x0c') (by decide) hc
  have hline := ne_of_isNamePart (d := '\n') (by decide) hc
  simp [Text.isGap, hspace, htab, hreturn, hfeed, hline]

/-- A piece that starts with a part of a name is a number or a word. -/
theorem isRead_named {c : Char} {tail : List Char} {kind : TokenKind} (hc : Text.isNamePart c)
    (hpiece : (if c.isDigit then number (c :: tail ++ rest)
      else if Text.isNameStart c then word (c :: tail ++ rest) else sign c (tail ++ rest)) =
        ⟨c :: tail, .ok kind, rest⟩) : IsRead (c :: tail) rest kind := by
  have hquote : c ≠ '"' := ne_of_isNamePart (by decide) hc
  have hslash : c ≠ '/' := ne_of_isNamePart (by decide) hc
  refine ⟨gapItem?_eq_none (not_isGap_of_isNamePart hc) hslash _, ?_⟩
  rw [List.cons_append, lexeme?_cons hquote hslash]
  exact congrArg some hpiece

theorem wordKind_ne_endOfInput (name : String) : wordKind name ≠ .endOfInput := by
  unfold wordKind
  split
  · simp
  · split
    · simp
    · split <;> simp

/-- A word is read up to what does not go on with it. -/
theorem isRead_word {name : String} (hname : IsWord name) (hrest : Loose rest) :
    IsRead name.toList rest (wordKind name) := by
  obtain ⟨first, tail, htext, hfirst, htail⟩ := hname
  have hpart := Text.isNamePart_of_isNameStart hfirst
  have hall : (first :: tail).all Text.isNamePart := by
    rw [List.all_cons, hpart, htail]
    rfl
  have hdigit : first.isDigit = false := by
    refine Bool.eq_false_iff.mpr ?_
    intro hdigit
    rw [not_isNameStart_of_isDigit hdigit] at hfirst
    exact Bool.noConfusion hfirst
  rw [htext]
  refine isRead_named hpart ?_
  rw [if_neg (by simp [hdigit]), if_pos hfirst, word, takeWhile_piece hall hrest.not_isNamePart,
    dropWhile_piece hall hrest.not_isNamePart, ← htext, String.ofList_toList]

theorem lexes_word {name : String} (hname : IsWord name) (hrest : Loose rest)
    (h : Lexes rest kinds) : Lexes (name.toList ++ rest) (wordKind name :: kinds) := by
  have hread := isRead_word hname hrest
  have hne : name.toList ≠ [] := by
    obtain ⟨first, tail, htext, _⟩ := hname
    simp [htext]
  exact .token hread.gap hread.lexeme hne (wordKind_ne_endOfInput name) h

theorem isWord_keyword (word : Keyword) : IsWord word.spelling := by
  cases word <;> exact ⟨_, _, rfl, by decide, by decide⟩

theorem wordKind_keyword (word : Keyword) : wordKind word.spelling = .keyword word := by
  cases word <;> decide

theorem lexes_keyword (word : Keyword) (hrest : Loose rest) (h : Lexes rest kinds) :
    Lexes (word.spelling.toList ++ rest) (.keyword word :: kinds) := by
  have hword := lexes_word (isWord_keyword word) hrest h
  rwa [wordKind_keyword] at hword

theorem isRead_digits {c : Char} {tail : List Char} {kind : TokenKind} (hc : c.isDigit)
    (hpiece : number (c :: tail ++ rest) = ⟨c :: tail, .ok kind, rest⟩) :
    IsRead (c :: tail) rest kind := by
  refine isRead_named (isNamePart_of_isDigit hc) ?_
  rw [if_pos hc]
  exact hpiece

/-- Digits are read up to what does not go on with them. -/
theorem lexes_digits {piece : List Char} {kind : TokenKind} {c : Char} {tail : List Char}
    (hcons : piece = c :: tail) (hc : c.isDigit)
    (hpiece : number (piece ++ rest) = ⟨piece, .ok kind, rest⟩) (hkind : kind ≠ .endOfInput)
    (h : Lexes rest kinds) : Lexes (piece ++ rest) (kind :: kinds) := by
  subst hcons
  have hread := isRead_digits hc hpiece
  exact .token hread.gap hread.lexeme (List.cons_ne_nil _ _) hkind h

theorem isRead_int {n : Int64} (hn : 0 ≤ n.toInt) (hrest : Loose rest) :
    IsRead (Integer.text n).toList rest (.literal (.int n)) := by
  have hdigits : (Decimal.digitsOf n.toInt.toNat).all Char.isDigit :=
    List.all_eq_true.mpr fun _ => Decimal.isDigit_digitsOf
  have hnumber : number (Decimal.digitsOf n.toInt.toNat ++ rest) =
      ⟨Decimal.digitsOf n.toInt.toNat, .ok (.literal (.int n)), rest⟩ := by
    rw [(ReadsNumber.integer hdigits hrest.ends_digits).number_eq, integerKind,
      Integer.ofDigits?_digitsOf hn]
  obtain ⟨c, tail, hcons⟩ : ∃ c tail, Decimal.digitsOf n.toInt.toNat = c :: tail :=
    List.exists_cons_of_length_pos (Decimal.digitCount_pos n.toInt.toNat)
  have hc : c.isDigit := by
    rw [hcons, List.all_cons, Bool.and_eq_true] at hdigits
    exact hdigits.1
  rw [hcons] at hnumber
  rw [Integer.toList_text hn, hcons]
  exact isRead_digits hc hnumber

theorem lexes_int {n : Int64} (hn : 0 ≤ n.toInt) (hrest : Loose rest) (h : Lexes rest kinds) :
    Lexes ((Integer.text n).toList ++ rest) (.literal (.int n) :: kinds) := by
  have hread := isRead_int hn hrest
  have hne : (Integer.text n).toList ≠ [] := by
    rw [Integer.toList_text hn]
    exact List.ne_nil_of_length_pos (Decimal.digitCount_pos n.toInt.toNat)
  exact .token hread.gap hread.lexeme hne nofun h

theorem lexes_float {pattern : Nat} (hlt : pattern < Binary.infinity) (hrest : Loose rest)
    (h : Lexes rest kinds) :
    Lexes ((Decimal.literalText (Binary.ofMagnitude false pattern)).toList ++ rest)
      (.literal (.float (Binary.ofMagnitude false pattern)) :: kinds) := by
  obtain ⟨whole, fraction, htext, hne, hwhole, hfraction, hround⟩ :=
    Decimal.isNumeral_literalText hlt
  have hfinite : Binary.isFinite (Binary.ofMagnitude false pattern) := by
    rw [Binary.isFinite, Binary.magnitude_ofMagnitude (Nat.le_of_lt hlt)]
    exact decide_eq_true hlt
  obtain ⟨c, tail, rfl⟩ := List.exists_cons_of_ne_nil hne
  have hc : c.isDigit := (List.all_eq_true.mp hwhole) c (List.mem_cons_self ..)
  have hnumber : number (c :: tail ++ '.' :: fraction ++ rest) =
      ⟨c :: tail ++ '.' :: fraction, .ok (.literal (.float (Binary.ofMagnitude false pattern))),
        rest⟩ := by
    rw [List.append_assoc, List.cons_append (a := '.'),
      (ReadsNumber.float hwhole hfraction hrest.not_isDigit).number_eq, floatKind, hround,
      if_pos hfinite]
  rw [htext]
  exact lexes_digits rfl hc hnumber (by simp) h

/-- A text in quotes is read up to its own closing quote. -/
theorem isRead_string {inside : List Char}
    (hclose : Text.closeQuote (inside ++ '"' :: rest) = some (inside, rest)) :
    IsRead ('"' :: inside ++ ['"']) rest
      (.literal (.str (String.ofList (Text.decode inside)))) := by
  have hcons : '"' :: inside ++ ['"'] ++ rest = '"' :: (inside ++ '"' :: rest) := by simp
  constructor
  · rw [hcons]
    exact gapItem?_eq_none (by decide) (by decide) _
  · rw [hcons, lexeme?]
    simp only [string, hclose]

theorem lexes_string (s : String) (h : Lexes rest kinds) :
    Lexes ((Text.literal s).toList ++ rest) (.literal (.str s) :: kinds) := by
  have hread := isRead_string (Text.closeQuote_encode s.toList rest)
  rw [Text.decode_encode, String.ofList_toList] at hread
  rw [Text.literal, String.toList_ofList]
  exact .token hread.gap hread.lexeme (List.cons_ne_nil _ _) nofun h

/-- A literal is read as its value. -/
theorem lexes_literal {value : Value} (hvalue : value.HasLiteral) (hrest : Loose rest)
    (h : Lexes rest kinds) : Lexes (value.literal.toList ++ rest) (.literal value :: kinds) := by
  cases value with
  | int n => exact lexes_int hvalue hrest h
  | float x =>
    obtain ⟨pattern, hlt, rfl⟩ := hvalue
    exact lexes_float hlt hrest h
  | bool b =>
    cases b with
    | true =>
      have hword : IsWord "true" := ⟨_, _, rfl, by decide, by decide⟩
      exact lexes_word hword hrest h
    | false =>
      have hword : IsWord "false" := ⟨_, _, rfl, by decide, by decide⟩
      exact lexes_word hword hrest h
  | str s => exact lexes_string s h

/-- The marks that no longer mark and no comment starts with. -/
def Mark.isDelimiter : Mark → Bool
  | .colon | .semicolon | .comma | .leftBrace | .rightBrace | .leftParen | .rightParen
  | .leftBracket | .rightBracket => true
  | _ => false

/-- What a mark is read from starts with its first sign and is no comment. -/
theorem isRead_of_leading {mark : Mark}
    (hleading : Mark.leading? (mark.spelling.toList ++ rest) = some mark)
    (hcomment : ∀ text, mark.spelling.toList ++ rest ≠ '/' :: '*' :: text) :
    IsRead mark.spelling.toList rest (.mark mark) := by
  obtain ⟨c, tail, hcons⟩ : ∃ c tail, mark.spelling.toList = c :: tail := by
    cases mark <;> exact ⟨_, _, rfl⟩
  have hplain : Text.isGap c = false ∧ c.isDigit = false ∧ Text.isNameStart c = false ∧
      c ≠ '"' := by
    cases mark <;> cases hcons <;> decide
  obtain ⟨hgap, hdigit, hstart, hquote⟩ := hplain
  rw [hcons, List.cons_append] at hleading hcomment
  constructor
  · rw [hcons, List.cons_append, gapItem?, hgap]
    · rfl
    · rintro text rfl heq
      exact hcomment text (by rw [heq])
  · rw [hcons, List.cons_append, lexeme?, if_neg (by simp [hdigit]), if_neg (by simp [hstart]), sign,
      hleading]
    · simp [hcons]
    · exact hquote
    · rintro text rfl heq
      exact hcomment text (by rw [heq])

theorem lexes_mark {mark : Mark} (hread : IsRead mark.spelling.toList rest (.mark mark))
    (h : Lexes rest kinds) : Lexes (mark.spelling.toList ++ rest) (.mark mark :: kinds) := by
  have hne : mark.spelling.toList ≠ [] := by cases mark <;> exact List.cons_ne_nil _ _
  exact .token hread.gap hread.lexeme hne nofun h

theorem lexes_delimiter (mark : Mark) (hmark : mark.isDelimiter) (h : Lexes rest kinds) :
    Lexes (mark.spelling.toList ++ rest) (.mark mark :: kinds) := by
  cases mark <;> first
    | exact absurd hmark (by decide)
    | exact lexes_mark (isRead_of_leading rfl nofun) h

/-- A sign is read up to what makes no longer sign and no comment of it. -/
theorem isRead_sign (mark : Mark) (hrest : Clear rest) :
    IsRead mark.spelling.toList rest (.mark mark) := by
  refine isRead_of_leading (leading?_of_clear mark hrest) ?_
  cases rest with
  | nil => cases mark <;> exact nofun
  | cons c rest =>
    rintro text heq
    cases mark <;> simp [Mark.spelling, hrest.2.2] at heq

theorem lexes_sign (mark : Mark) (hrest : Clear rest) (h : Lexes rest kinds) :
    Lexes (mark.spelling.toList ++ rest) (.mark mark :: kinds) :=
  lexes_mark (isRead_sign mark hrest) h

end Pieces

/-! ## Tokens that are read have a spelling -/

theorem readable_number {text : List Char} {kind : TokenKind} (h : (number text).kind = .ok kind) :
    kind.Readable := by
  have hreads := readsNumber_number text
  generalize number text = lexeme at h hreads
  cases hreads with
  | float =>
    obtain ⟨pattern, hfinite, -, rfl⟩ := exists_of_floatKind h
    exact ⟨pattern, hfinite, rfl⟩
  | integer =>
    obtain ⟨n, hn, rfl⟩ := exists_of_integerKind h
    change 0 ≤ n.toInt
    rw [hn]
    exact Int.natCast_nonneg _

theorem readable_wordKind {name : String} (hname : IsWord name) : (wordKind name).Readable := by
  have hkind : wordKind name = wordKind name := rfl
  conv at hkind => rhs; unfold wordKind
  split at hkind
  · rw [hkind]
    trivial
  · split at hkind
    · rw [hkind]
      trivial
    · split at hkind
      · rw [hkind]
        trivial
      · rw [hkind]
        exact ⟨hname, hkind⟩

theorem isWord_takeWhile {c : Char} {rest : List Char} (hc : Text.isNameStart c) :
    IsWord (String.ofList ((c :: rest).takeWhile Text.isNamePart)) := by
  refine ⟨c, rest.takeWhile Text.isNamePart, ?_, hc, ?_⟩
  · rw [String.toList_ofList, List.takeWhile_cons, if_pos (Text.isNamePart_of_isNameStart hc)]
  · exact List.all_takeWhile

theorem readable_lexeme {text : List Char} {lexeme : Lexeme} {kind : TokenKind}
    (h : lexeme? text = some lexeme) (hkind : lexeme.kind = .ok kind) : kind.Readable := by
  unfold lexeme? at h
  split at h
  next => contradiction
  next rest =>
    obtain rfl := Option.some.inj h
    unfold string at hkind
    split at hkind
    next =>
      obtain rfl := Except.ok.inj hkind
      trivial
    next => cases hkind
  next =>
    obtain rfl := Option.some.inj h
    cases hkind
  next c rest _ _ =>
    obtain rfl := Option.some.inj h
    split at hkind
    next => exact readable_number hkind
    next =>
      split at hkind
      next hstart =>
        obtain rfl := Except.ok.inj hkind
        exact readable_wordKind (isWord_takeWhile hstart)
      next =>
        unfold sign at hkind
        split at hkind
        next =>
          obtain rfl := Except.ok.inj hkind
          trivial
        next => cases hkind

theorem Cursor.readable_next {cursor : Cursor} {token : Token} (h : cursor.next.1 = .ok token) :
    token.kind.Readable := by
  cases hlexeme : lexeme? (gap cursor.rest).2 with
  | none =>
    simp only [next, hlexeme] at h
    obtain rfl := Except.ok.inj h
    trivial
  | some lexeme =>
    simp only [next, hlexeme] at h
    split at h
    next kind hkind =>
      obtain rfl := Except.ok.inj h
      exact readable_lexeme hlexeme hkind
    next => cases h

/-- What is true of every token that is found next is true of all tokens that are collected. -/
theorem Cursor.forall_mem_collect {p : Token → Prop} {count : Nat} {cursor : Cursor}
    {ts : List Token} (hp : ∀ (cursor : Cursor) (token : Token), cursor.next.1 = .ok token → p token)
    (h : collect count cursor = .ok ts) : ∀ token ∈ ts, p token := by
  induction count generalizing cursor ts with
  | zero =>
    obtain rfl := Except.ok.inj h
    exact List.forall_mem_nil _
  | succ count ih =>
    unfold collect at h
    split at h
    next => cases h
    next token cursor' hnext =>
      have htoken := hp cursor token (congrArg Prod.fst hnext)
      split at h
      next =>
        obtain rfl := Except.ok.inj h
        exact List.forall_mem_singleton.mpr htoken
      next =>
        cases hrest : collect count cursor' with
        | error fault =>
          rw [hrest] at h
          cases h
        | ok rest =>
          rw [hrest] at h
          obtain rfl := Except.ok.inj h
          exact List.forall_mem_cons.mpr ⟨htoken, ih hrest⟩

/-- Every token that is read has a spelling. -/
theorem readable_of_tokenize {source : String} {ts : List Token} (h : tokenize source = .ok ts) :
    ∀ token ∈ ts, token.kind.Readable :=
  Cursor.forall_mem_collect (fun _ _ => Cursor.readable_next) h

end ScopedScript
