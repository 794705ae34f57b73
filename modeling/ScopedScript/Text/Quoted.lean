import ScopedScript.Text.Class

/-!
# Texts in double quotes

A text is written in quotes in two places, under two sets of rules.

A *literal* is what a script holds: a backslash before a quote or a backslash, the four named
escapes, and every other character as it is. `decode` reads the inside of a literal back.

A *shown* text is what a diagnostic quotes: the same, and a character that cannot be seen on its
own is written as its code point in hexadecimal.
-/

namespace ScopedScript.Text

/-! ## Literals -/

/-- A character of a literal. -/
def encodeChar (c : Char) : List Char :=
  match c with
  | '"' => ['\\', '"']
  | '\\' => ['\\', '\\']
  | '\n' => ['\\', 'n']
  | '\t' => ['\\', 't']
  | '\r' => ['\\', 'r']
  | '\x00' => ['\\', '0']
  | c => [c]

/-- The inside of a literal for a text. -/
def encode (text : List Char) : List Char :=
  text.flatMap encodeChar

/-- What a character stands for after a backslash; those without a meaning of their own stand for
themselves. -/
def unescape (c : Char) : Char :=
  match c with
  | 'n' => '\n'
  | 't' => '\t'
  | 'r' => '\r'
  | '0' => '\x00'
  | c => c

/-- The text that the inside of a literal stands for. -/
def decode : List Char → List Char
  | [] => []
  | '\\' :: [] => []
  | '\\' :: c :: rest => unescape c :: decode rest
  | c :: rest => c :: decode rest

/-- Splits a text at the first quote that no backslash stands before; the quote itself is in
neither part. -/
def closeQuote : List Char → Option (List Char × List Char)
  | [] => none
  | '"' :: rest => some ([], rest)
  | '\\' :: c :: rest => (closeQuote rest).map fun (inside, rest) => ('\\' :: c :: inside, rest)
  | c :: rest => (closeQuote rest).map fun (inside, rest) => (c :: inside, rest)

/-- A text as a literal. -/
def literal (text : String) : String :=
  String.ofList ('"' :: encode text.toList ++ ['"'])

/-- A written character reads back as itself, whatever follows. -/
theorem decode_encodeChar_append (c : Char) (rest : List Char) :
    decode (encodeChar c ++ rest) = c :: decode rest := by
  unfold encodeChar
  split <;> simp_all [decode, unescape]

/-- Reading a written literal gives the text back. -/
theorem decode_encode (text : List Char) : decode (encode text) = text := by
  induction text with
  | nil => rfl
  | cons c rest ih =>
    simp only [encode, List.flatMap_cons] at ih ⊢
    rw [decode_encodeChar_append, ih]

theorem closeQuote_encodeChar_append (c : Char) (text : List Char) :
    closeQuote (encodeChar c ++ text) =
      (closeQuote text).map fun (inside, rest) => (encodeChar c ++ inside, rest) := by
  unfold encodeChar
  split <;> simp_all [closeQuote]

/-- A written literal ends at its own closing quote. -/
theorem closeQuote_encode (text rest : List Char) :
    closeQuote (encode text ++ '"' :: rest) = some (encode text, rest) := by
  induction text with
  | nil => rfl
  | cons c tail ih =>
    simp only [encode, List.flatMap_cons, List.append_assoc] at ih ⊢
    rw [closeQuote_encodeChar_append, ih]
    rfl

/-- What is split at a quote makes up the text with it. -/
theorem closeQuote_append {text inside rest : List Char}
    (h : closeQuote text = some (inside, rest)) : inside ++ '"' :: rest = text := by
  induction text using closeQuote.induct generalizing inside with
  | case1 => simp [closeQuote] at h
  | case2 tail =>
    simp only [closeQuote, Option.some.injEq, Prod.mk.injEq] at h
    obtain ⟨rfl, rfl⟩ := h
    rfl
  | case3 c tail ih =>
    rw [closeQuote] at h
    simp only [Option.map_eq_some_iff, Prod.exists, Prod.mk.injEq] at h
    obtain ⟨inner, _, hinner, rfl, rfl⟩ := h
    simp [ih hinner]
  | case4 c tail hquote hescape ih =>
    rw [closeQuote] at h
    · simp only [Option.map_eq_some_iff, Prod.exists, Prod.mk.injEq] at h
      obtain ⟨inner, _, hinner, rfl, rfl⟩ := h
      simp [ih hinner]
    · exact hquote
    · exact hescape

/-! ## Texts shown in diagnostics -/

/-- A character of a shown text. -/
def showChar (c : Char) : List Char :=
  match c with
  | '"' => ['\\', '"']
  | '\\' => ['\\', '\\']
  | '\n' => ['\\', 'n']
  | '\t' => ['\\', 't']
  | '\r' => ['\\', 'r']
  | '\x00' => ['\\', '0']
  | c => if isPlain c then [c] else ['\\', 'u', '\x7b'] ++ Nat.toDigits 16 c.toNat ++ ['\x7d']

/-- A text as a diagnostic quotes it. -/
def shown (text : String) : String :=
  String.ofList ('"' :: text.toList.flatMap showChar ++ ['"'])

end ScopedScript.Text
