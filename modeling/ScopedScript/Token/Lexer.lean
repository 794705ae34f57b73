import ScopedScript.Token

/-!
# Reading tokens

A source text is a sequence of gaps and lexemes. A gap is made of blanks and complete comments. A
lexeme is the longest text at hand that one of the token forms matches; where none matches, or the
matched text stands for nothing, the fault names the cause and reading can go on behind the
offending text.
-/

namespace ScopedScript

/-- Why a text is no token. -/
inductive LexFault where
  | unexpectedCharacter (c : Char)
  | unterminatedString
  | unterminatedComment
  | integerTooLarge (literal : String)
  | floatTooLarge (literal : String)
  deriving DecidableEq

/-- The wording of a fault. -/
def LexFault.wording : LexFault → String
  | unexpectedCharacter c => "Unexpected character '" ++ String.singleton c ++ "'"
  | unterminatedString => "Unterminated string literal"
  | unterminatedComment => "Unterminated comment"
  | integerTooLarge literal => "Integer literal " ++ literal ++ " is too large"
  | floatTooLarge literal => "Float literal " ++ literal ++ " is too large"

namespace Lexer

/-! ## Gaps -/

/-- The rest of a comment up to and with its end, and what follows. -/
def closeComment : List Char → Option (List Char × List Char)
  | [] => none
  | '*' :: '/' :: rest => some (['*', '/'], rest)
  | c :: rest => (closeComment rest).map fun (inside, rest) => (c :: inside, rest)

/-- One blank or one complete comment, and what follows. -/
def gapItem? : List Char → Option (List Char × List Char)
  | '/' :: '*' :: rest =>
    (closeComment rest).map fun (inside, rest) => ('/' :: '*' :: inside, rest)
  | c :: rest => if Text.isGap c then some ([c], rest) else none
  | [] => none

/-- The blanks and comments that a text starts with, and what follows. There are no more of them
than characters ahead. -/
def gapItems : List Char → List Char → List Char × List Char
  | [], text => ([], text)
  | _ :: ahead, text =>
    match gapItem? text with
    | none => ([], text)
    | some (item, rest) =>
      let (items, rest) := gapItems ahead rest
      (item ++ items, rest)

/-- The blanks and comments that a text starts with, and what follows. -/
def gap (text : List Char) : List Char × List Char :=
  gapItems text text

/-! ## Lexemes -/

/-- A text read as one token, or as the fault it is, and what follows. -/
structure Lexeme where
  text : List Char
  kind : Except LexFault TokenKind
  rest : List Char

/-- The fault of a text that a token form was tried on and that is no token. Digits are an integer
that does not fit, digits and points a floating-point number without a finite value. Of all other
texts the first character is at fault. -/
def fault (text : List Char) : LexFault :=
  if text.all Char.isDigit then .integerTooLarge (String.ofList text)
  else if text.all fun c => c.isDigit || c = '.' then .floatTooLarge (String.ofList text)
  else .unexpectedCharacter (text.headD '\x00')

/-- Digits: an integer, or with a point behind them a floating-point number. -/
def number (text : List Char) : Lexeme :=
  let whole := text.takeWhile Char.isDigit
  match text.dropWhile Char.isDigit with
  | '.' :: rest =>
    let fraction := rest.takeWhile Char.isDigit
    let literal := whole ++ '.' :: fraction
    let value := (Decimal.ofDigits whole fraction).round false
    let kind :=
      if Binary.isFinite value then .ok (.literal (.float value))
      else .error (fault literal)
    ⟨literal, kind, rest.dropWhile Char.isDigit⟩
  | rest =>
    let kind := match Integer.ofDigits? false whole with
      | some n => .ok (.literal (.int n))
      | none => .error (fault whole)
    ⟨whole, kind, rest⟩

/-- What follows an opening quote: a text up to its closing quote. -/
def string (text : List Char) : Lexeme :=
  match Text.closeQuote text with
  | some (inside, rest) =>
    ⟨'"' :: inside ++ ['"'], .ok (.literal (.str (String.ofList (Text.decode inside)))), rest⟩
  | none => ⟨['"'], .error .unterminatedString, text⟩

/-- The kind of a name: reserved words and the truth values are no identifiers. -/
def wordKind (name : String) : TokenKind :=
  if name = "true" then .literal (.bool true)
  else if name = "false" then .literal (.bool false)
  else match Keyword.ofSpelling? name with
    | some word => .keyword word
    | none => .identifier name

/-- A name: letters, numerals and underscores. -/
def word (text : List Char) : Lexeme :=
  let name := text.takeWhile Text.isNamePart
  ⟨name, .ok (wordKind (String.ofList name)), text.dropWhile Text.isNamePart⟩

/-- A sign, or a character that no token starts with. -/
def sign (c : Char) (rest : List Char) : Lexeme :=
  match Mark.leading? (c :: rest) with
  | some mark =>
    let text := mark.spelling.toList
    ⟨text, .ok (.mark mark), (c :: rest).drop text.length⟩
  | none => ⟨[c], .error (fault [c]), rest⟩

/-- The lexeme that a text without a gap at its start starts with. -/
def lexeme? : List Char → Option Lexeme
  | [] => none
  | '"' :: rest => some (string rest)
  | '/' :: '*' :: rest => some ⟨['/', '*'], .error .unterminatedComment, rest⟩
  | c :: rest =>
    some <|
      if c.isDigit then number (c :: rest)
      else if Text.isNameStart c then word (c :: rest)
      else sign c rest

/-! ## Which fault a text is -/

theorem fault_of_digits {digits : List Char} (h : digits.all Char.isDigit) :
    fault digits = .integerTooLarge (String.ofList digits) := by
  rw [fault, if_pos h]

theorem fault_of_point {whole fraction : List Char} (hwhole : whole.all Char.isDigit)
    (hfraction : fraction.all Char.isDigit) : fault (whole ++ '.' :: fraction) =
      .floatTooLarge (String.ofList (whole ++ '.' :: fraction)) := by
  have hpoint : ¬ (whole ++ '.' :: fraction).all Char.isDigit := by simp
  have hall : (whole ++ '.' :: fraction).all fun c => c.isDigit || c = '.' := by
    simp only [List.all_eq_true] at hwhole hfraction
    grind
  rw [fault, if_neg hpoint, if_pos hall]

theorem fault_of_character {c : Char} (hdigit : c.isDigit = false) (hpoint : c ≠ '.') :
    fault [c] = .unexpectedCharacter c := by
  simp [fault, hdigit, hpoint]

/-! ## A gap or a lexeme and the rest make up the text -/

theorem closeComment_append {text inside rest : List Char}
    (h : closeComment text = some (inside, rest)) : inside ++ rest = text := by
  induction text using closeComment.induct generalizing inside with
  | case1 => simp [closeComment] at h
  | case2 tail =>
    simp only [closeComment, Option.some.injEq, Prod.mk.injEq] at h
    obtain ⟨rfl, rfl⟩ := h
    rfl
  | case3 c tail hc ih =>
    rw [closeComment] at h
    · simp only [Option.map_eq_some_iff, Prod.exists, Prod.mk.injEq] at h
      obtain ⟨inner, _, hinner, rfl, rfl⟩ := h
      simp [ih hinner]
    · exact hc

theorem gapItem?_append {text item rest : List Char} (h : gapItem? text = some (item, rest)) :
    item ++ rest = text := by
  unfold gapItem? at h
  split at h
  · simp only [Option.map_eq_some_iff, Prod.exists, Prod.mk.injEq] at h
    obtain ⟨inside, _, hinside, rfl, rfl⟩ := h
    simp [closeComment_append hinside]
  · split at h
    · simp only [Option.some.injEq, Prod.mk.injEq] at h
      obtain ⟨rfl, rfl⟩ := h
      rfl
    · contradiction
  · contradiction

theorem gapItems_append (ahead text : List Char) :
    (gapItems ahead text).1 ++ (gapItems ahead text).2 = text := by
  induction ahead generalizing text with
  | nil => rfl
  | cons _ ahead ih =>
    unfold gapItems
    cases h : gapItem? text with
    | none => rfl
    | some found =>
      obtain ⟨item, rest⟩ := found
      simpa [ih rest] using gapItem?_append h

/-- A gap and the rest make up the text. -/
theorem gap_append (text : List Char) : (gap text).1 ++ (gap text).2 = text :=
  gapItems_append text text

theorem number_append (text : List Char) : (number text).text ++ (number text).rest = text := by
  have whole : text.takeWhile Char.isDigit ++ text.dropWhile Char.isDigit = text :=
    List.takeWhile_append_dropWhile
  unfold number
  split
  · next tail heq =>
    have fraction : tail.takeWhile Char.isDigit ++ tail.dropWhile Char.isDigit = tail :=
      List.takeWhile_append_dropWhile
    simp only [List.append_assoc, List.cons_append, fraction]
    rw [← heq, whole]
  · exact whole

theorem string_append (text : List Char) :
    (string text).text ++ (string text).rest = '"' :: text := by
  unfold string
  split
  · next inside rest h => simp [← Text.closeQuote_append h]
  · rfl

theorem word_append (text : List Char) : (word text).text ++ (word text).rest = text := by
  simp [word, List.takeWhile_append_dropWhile]

theorem sign_append (c : Char) (rest : List Char) :
    (sign c rest).text ++ (sign c rest).rest = c :: rest := by
  unfold sign
  split
  · next mark h =>
    have starts := List.find?_some h
    obtain ⟨tail, htail⟩ := List.isPrefixOf_iff_prefix.mp starts
    simp only [← htail, List.drop_left]
  · rfl

/-- A lexeme and the rest make up the text. -/
theorem lexeme?_append {text : List Char} {lexeme : Lexeme} (h : lexeme? text = some lexeme) :
    lexeme.text ++ lexeme.rest = text := by
  unfold lexeme? at h
  split at h
  · contradiction
  · obtain rfl := Option.some.inj h
    exact string_append _
  · obtain rfl := Option.some.inj h
    rfl
  · obtain rfl := Option.some.inj h
    split
    · exact number_append _
    · split
      · exact word_append _
      · exact sign_append _ _

end Lexer

/-! ## Cursors -/

/-- A place in a source text: what is left to read, and where that stands. -/
structure Cursor where
  rest : List Char
  position : Position

namespace Cursor

/-- The place before a source text. -/
def start (source : String) : Cursor := ⟨source.toList, .start⟩

/-- The token or the fault found next, and the place behind it. Behind the end of the source
there is the end again. -/
def next (cursor : Cursor) : Except (Diagnostic LexFault) Token × Cursor :=
  let (gap, rest) := Lexer.gap cursor.rest
  let position := cursor.position.advanceBy gap
  match Lexer.lexeme? rest with
  | none => (.ok ⟨.endOfInput, "", position⟩, ⟨rest, position⟩)
  | some lexeme =>
    let result := match lexeme.kind with
      | .ok kind => .ok ⟨kind, String.ofList lexeme.text, position⟩
      | .error fault => .error ⟨fault, position⟩
    (result, ⟨lexeme.rest, position.advanceBy lexeme.text⟩)

/-- The next tokens up to and with the end of the source, at most `count` of them, or the first
fault. -/
def collect : Nat → Cursor → Except (Diagnostic LexFault) (List Token)
  | 0, _ => .ok []
  | count + 1, cursor =>
    match cursor.next with
    | (.error fault, _) => .error fault
    | (.ok token, cursor) =>
      if token.kind = .endOfInput then .ok [token] else (collect count cursor).map (token :: ·)

end Cursor

/-- All tokens of a source, the last of which is its end, or the first fault. -/
def tokenize (source : String) : Except (Diagnostic LexFault) (List Token) :=
  (Cursor.start source).collect (source.length + 1)

end ScopedScript
