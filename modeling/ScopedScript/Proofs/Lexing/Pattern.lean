import Mathlib.Computability.Language
import Mathlib.Data.List.Chain
import ScopedScript.Token.Lexer
import ScopedScript.Proofs.RoundTrip.Lexing

/-!
# Token patterns

The texts that belong to each kind of token, as languages that are built from classes of characters
by concatenation and repetition. Nothing is said here about where in a source they are looked for.

Patterns overlap. A number can start a longer number, a quote a text in quotes, a slash a comment,
and every reserved word belongs to the pattern of names as well.
-/

namespace ScopedScript

open Computability

/-! ## Classes and repetitions -/

/-- One character of a class. -/
def oneOf (p : Char → Bool) : Language Char := {text | ∃ c, p c ∧ text = [c]}

/-- One text. -/
def exactly (text : String) : Language Char := {text.toList}

section Classes

variable {p : Char → Bool} {text : List Char}

theorem mem_exactly {spelling : String} : text ∈ exactly spelling ↔ text = spelling.toList :=
  Iff.rfl

/-- A repeated class has the texts of which every character belongs to it. -/
theorem mem_oneOf_kstar : text ∈ (oneOf p)∗ ↔ text.all p := by
  rw [Language.mem_kstar]
  constructor
  · rintro ⟨pieces, rfl, hpieces⟩
    simp only [List.all_flatten, List.all_eq_true]
    intro piece hpiece
    obtain ⟨c, hc, rfl⟩ := hpieces piece hpiece
    simpa using hc
  · intro h
    refine ⟨text.map fun c => [c], by rw [← List.flatMap_def, List.flatMap_singleton'], ?_⟩
    simp only [List.mem_map]
    rintro _ ⟨c, hc, rfl⟩
    exact ⟨c, List.all_eq_true.mp h c hc, rfl⟩

/-- Behind one character of a class, others of another class. -/
theorem mem_oneOf_mul {q : Char → Bool} :
    text ∈ oneOf p * (oneOf q)∗ ↔ ∃ c tail, text = c :: tail ∧ p c ∧ tail.all q := by
  rw [Language.mem_mul]
  constructor
  · rintro ⟨_, ⟨c, hc, rfl⟩, tail, htail, rfl⟩
    exact ⟨c, tail, rfl, hc, mem_oneOf_kstar.mp htail⟩
  · rintro ⟨c, tail, rfl, hc, htail⟩
    exact ⟨[c], ⟨c, hc, rfl⟩, tail, mem_oneOf_kstar.mpr htail, rfl⟩

/-- At least one character of a class. -/
theorem mem_oneOf_plus : text ∈ oneOf p * (oneOf p)∗ ↔ text ≠ [] ∧ text.all p := by
  rw [mem_oneOf_mul]
  cases text with
  | nil => simp
  | cons c tail => simp

theorem mem_exactly_mul {spelling : String} {rest : Language Char} :
    text ∈ exactly spelling * rest ↔ ∃ tail ∈ rest, text = spelling.toList ++ tail := by
  rw [Language.mem_mul]
  constructor
  · rintro ⟨_, rfl, tail, htail, rfl⟩
    exact ⟨tail, htail, rfl⟩
  · rintro ⟨tail, htail, rfl⟩
    exact ⟨_, rfl, tail, htail, rfl⟩

theorem mem_mul_exactly {spelling : String} {rest : Language Char} :
    text ∈ rest * exactly spelling ↔ ∃ before ∈ rest, text = before ++ spelling.toList := by
  rw [Language.mem_mul]
  constructor
  · rintro ⟨before, hbefore, _, rfl, rfl⟩
    exact ⟨before, hbefore, rfl⟩
  · rintro ⟨before, hbefore, rfl⟩
    exact ⟨before, hbefore, _, rfl, rfl⟩

end Classes

section Repetitions

variable {l : Language Char}

theorem append_mem_kstar {piece text : List Char} (hpiece : piece ∈ l) (htext : text ∈ l∗) :
    piece ++ text ∈ l∗ := by
  obtain ⟨pieces, rfl, hpieces⟩ := Language.mem_kstar.mp htext
  exact ⟨piece :: pieces, rfl, List.forall_mem_cons.mpr ⟨hpiece, hpieces⟩⟩

/-- Induction along a repetition. -/
theorem kstar_induction {motive : List Char → Prop} (hnil : motive [])
    (hcons : ∀ piece ∈ l, ∀ text ∈ l∗, motive text → motive (piece ++ text)) {text : List Char}
    (h : text ∈ l∗) : motive text := by
  obtain ⟨pieces, rfl, hpieces⟩ := Language.mem_kstar.mp h
  clear h
  induction pieces with
  | nil => exact hnil
  | cons piece pieces ih =>
    obtain ⟨hpiece, hpieces⟩ := List.forall_mem_cons.mp hpieces
    exact hcons piece hpiece _ (Language.join_mem_kstar hpieces) (ih hpieces)

end Repetitions

/-! ## Patterns -/

/-- The patterns that a source is read by. -/
inductive Pattern where
  | float
  | integer
  | truth (b : Bool)
  | string
  | name
  | keyword (word : Keyword)
  | mark (sign : Mark)
  | comment
  | openComment
  | openString
  | newLine
  /-- Blanks other than line feeds. -/
  | blanks

namespace Pattern

/-- A character inside quotes: one that is neither a quote nor a backslash, or any one behind a
backslash. -/
def quoted : Language Char :=
  oneOf (fun c => c != '"' && c != '\\') + exactly "\\" * oneOf fun _ => true

/-- Stars, at least one. -/
def stars : Language Char := oneOf (· == '*') * (oneOf (· == '*'))∗

/-- A part of a comment: a character other than a star, or stars and a character that ends neither
them nor the comment. -/
def commented : Language Char :=
  oneOf (· != '*') + stars * oneOf fun c => c != '*' && c != '/'

/-- The texts that a pattern matches. -/
def language : Pattern → Language Char
  | float => oneOf Char.isDigit * (oneOf Char.isDigit)∗ * exactly "." * (oneOf Char.isDigit)∗
  | integer => oneOf Char.isDigit * (oneOf Char.isDigit)∗
  | truth b => exactly (boolText b)
  | string => exactly "\"" * quoted∗ * exactly "\""
  | name => oneOf Text.isNameStart * (oneOf Text.isNamePart)∗
  | keyword word => exactly word.spelling
  | mark sign => exactly sign.spelling
  | comment => exactly "/*" * commented∗ * stars * exactly "/"
  | openComment => exactly "/*"
  | openString => exactly "\""
  | newLine => exactly "\n"
  | blanks =>
    oneOf (fun c => c == ' ' || c == '\t' || c == '\r' || c == '\x0c') *
      (oneOf fun c => c == ' ' || c == '\t' || c == '\r' || c == '\x0c')∗

section Texts

variable {text : List Char}

theorem mem_integer : text ∈ integer.language ↔ text ≠ [] ∧ text.all Char.isDigit :=
  mem_oneOf_plus

theorem mem_name : text ∈ name.language ↔
    ∃ c tail, text = c :: tail ∧ Text.isNameStart c ∧ tail.all Text.isNamePart :=
  mem_oneOf_mul

/-- A number with a point has digits before it, and behind it digits or nothing. -/
theorem mem_float : text ∈ float.language ↔ ∃ whole fraction, text = whole ++ '.' :: fraction ∧
    whole ≠ [] ∧ whole.all Char.isDigit ∧ fraction.all Char.isDigit := by
  rw [language, Language.mem_mul]
  constructor
  · rintro ⟨before, hbefore, fraction, hfraction, rfl⟩
    obtain ⟨whole, hwhole, rfl⟩ := mem_mul_exactly.mp hbefore
    obtain ⟨hne, hall⟩ := mem_oneOf_plus.mp hwhole
    exact ⟨whole, fraction, by simp, hne, hall, mem_oneOf_kstar.mp hfraction⟩
  · rintro ⟨whole, fraction, rfl, hne, hall, hfraction⟩
    refine ⟨whole ++ ['.'], mem_mul_exactly.mpr ⟨whole, mem_oneOf_plus.mpr ⟨hne, hall⟩, rfl⟩,
      fraction, mem_oneOf_kstar.mpr hfraction, by simp⟩

/-- There is only one point to take apart a number at. -/
theorem append_mem_float {whole fraction : List Char} :
    whole ++ '.' :: fraction ∈ float.language ↔
      whole ≠ [] ∧ whole.all Char.isDigit ∧ fraction.all Char.isDigit := by
  rw [mem_float]
  constructor
  · rintro ⟨before, behind, heq, hne, hbefore, hbehind⟩
    have hpoint : ∀ {digits : List Char}, digits.all Char.isDigit → '.' ∉ digits :=
      fun hall hmem => absurd (List.all_eq_true.mp hall _ hmem) (by decide)
    obtain ⟨rfl, -, rfl⟩ :=
      (List.append_cons_inj_of_notMem (hpoint hbefore) (hpoint hbehind)).mp heq.symm
    exact ⟨hne, hbefore, hbehind⟩
  · rintro ⟨hne, hwhole, hfraction⟩
    exact ⟨whole, fraction, rfl, hne, hwhole, hfraction⟩

theorem mem_string : text ∈ string.language ↔
    ∃ inside ∈ quoted∗, text = '"' :: inside ++ ['"'] := by
  rw [language, mem_mul_exactly]
  constructor
  · rintro ⟨_, hbefore, rfl⟩
    obtain ⟨inside, hinside, rfl⟩ := mem_exactly_mul.mp hbefore
    exact ⟨inside, hinside, rfl⟩
  · rintro ⟨inside, hinside, rfl⟩
    exact ⟨_, mem_exactly_mul.mpr ⟨inside, hinside, rfl⟩, rfl⟩

end Texts

/-! ## Quotes -/

/-- What stands inside quotes is split off at the quote behind it. -/
theorem closeQuote_of_mem_quoted {inside : List Char} (h : inside ∈ quoted∗) (rest : List Char) :
    Text.closeQuote (inside ++ '"' :: rest) = some (inside, rest) := by
  refine kstar_induction (motive := fun inside =>
    Text.closeQuote (inside ++ '"' :: rest) = some (inside, rest)) rfl ?_ h
  intro piece hpiece text _ ih
  rw [List.append_assoc]
  obtain ⟨c, hc, rfl⟩ | hescape := (Language.mem_add _ _ _).mp hpiece
  · rw [Bool.and_eq_true, bne_iff_ne, bne_iff_ne] at hc
    rw [List.singleton_append, Text.closeQuote, ih]
    · rfl
    · exact hc.1
    · intro d _ hd
      exact absurd hd hc.2
  · obtain ⟨_, ⟨c, _, rfl⟩, rfl⟩ := mem_exactly_mul.mp hescape
    change Text.closeQuote ('\\' :: c :: (text ++ '"' :: rest)) = _
    rw [Text.closeQuote, ih]
    rfl

/-- What is split off at a quote can stand inside quotes. -/
theorem mem_quoted_of_closeQuote {text inside rest : List Char}
    (h : Text.closeQuote text = some (inside, rest)) : inside ∈ quoted∗ := by
  induction text using Text.closeQuote.induct generalizing inside with
  | case1 => cases h
  | case2 tail =>
    cases h
    exact Language.nil_mem_kstar _
  | case3 c tail ih =>
    rw [Text.closeQuote, Option.map_eq_some_iff] at h
    obtain ⟨⟨inner, after⟩, hinner, heq⟩ := h
    cases heq
    have hpiece : ['\\', c] ∈ quoted :=
      (Language.mem_add _ _ _).mpr (.inr (mem_exactly_mul.mpr ⟨[c], ⟨c, rfl, rfl⟩, rfl⟩))
    exact append_mem_kstar hpiece (ih hinner)
  | case4 c tail hquote hescape ih =>
    rw [Text.closeQuote] at h
    · obtain ⟨⟨inner, after⟩, hinner, heq⟩ := Option.map_eq_some_iff.mp h
      cases heq
      have hbackslash : c ≠ '\\' := by
        rintro rfl
        cases tail with
        | nil => cases hinner
        | cons d rest => exact hescape d rest rfl rfl
      have hpiece : [c] ∈ quoted := by
        refine (Language.mem_add _ _ _).mpr (.inl ⟨c, ?_, rfl⟩)
        rw [Bool.and_eq_true, bne_iff_ne, bne_iff_ne]
        exact ⟨hquote, hbackslash⟩
      exact append_mem_kstar hpiece (ih hinner)
    · exact hquote
    · exact hescape

/-! ## Comments -/

theorem mem_stars {text : List Char} : text ∈ stars ↔ text ≠ [] ∧ text.all (· == '*') :=
  mem_oneOf_plus

/-- No star is followed by a slash. -/
def Open (text : List Char) : Prop := ¬ ['*', '/'] <:+: text

theorem open_iff_isChain {text : List Char} :
    Open text ↔ text.IsChain fun c d => ¬ (c = '*' ∧ d = '/') := by
  rw [List.isChain_iff_forall_rel_of_append_cons_cons]
  constructor
  · rintro h c d before after rfl ⟨rfl, rfl⟩
    exact h ⟨before, after, by simp⟩
  · rintro h ⟨before, after, rfl⟩
    exact @h '*' '/' before after (by simp) ⟨rfl, rfl⟩

/-- Parts of a comment do not end with a star. -/
theorem commented_cases {piece : List Char} (h : piece ∈ commented) :
    ∃ before d, piece = before ++ [d] ∧ before.all (· == '*') ∧ d ≠ '*' ∧
      (before ≠ [] → d ≠ '/') := by
  obtain ⟨d, hd, rfl⟩ | h := (Language.mem_add _ _ _).mp h
  · exact ⟨[], d, rfl, rfl, by simpa using hd, fun hne => absurd rfl hne⟩
  · obtain ⟨before, hbefore, _, ⟨d, hd, rfl⟩, rfl⟩ := Language.mem_mul.mp h
    rw [Bool.and_eq_true, bne_iff_ne, bne_iff_ne] at hd
    exact ⟨before, d, rfl, (mem_stars.mp hbefore).2, hd.1, fun _ => hd.2⟩

theorem open_of_not_mem {text : List Char} (h : '/' ∉ text) : Open text :=
  fun hpart => h (hpart.subset (by simp))

/-- Before the slash at the end of a comment no star is followed by a slash. -/
theorem open_of_mem {text : List Char} (h : text ∈ commented∗ * stars) : Open text := by
  obtain ⟨inside, hinside, final, hfinal, rfl⟩ := Language.mem_mul.mp h
  have hstars : ∀ {text : List Char}, text.all (· == '*') → '/' ∉ text := by
    intro text hall hmem
    exact absurd (List.all_eq_true.mp hall _ hmem) (by decide)
  refine kstar_induction (motive := fun inside => Open (inside ++ final))
    (open_of_not_mem (hstars (mem_stars.mp hfinal).2)) ?_ hinside
  intro piece hpiece text _ ih
  obtain ⟨before, d, rfl, hbefore, hstar, hslash⟩ := commented_cases hpiece
  have hopen : Open (before ++ [d]) := by
    cases before with
    | nil => exact fun hpart => absurd hpart.length_le (by simp)
    | cons c before =>
      refine open_of_not_mem fun hmem => ?_
      obtain hmem | hmem := List.mem_append.mp hmem
      · exact hstars hbefore hmem
      · exact hslash (List.cons_ne_nil _ _) (List.mem_singleton.mp hmem).symm
  rw [List.append_assoc, open_iff_isChain, List.isChain_append]
  refine ⟨open_iff_isChain.mp hopen, open_iff_isChain.mp ih, ?_⟩
  rintro x hx y _ ⟨rfl, _⟩
  exact hstar (by simpa using hx)

/-- What ends with a star and holds no end of a comment is made of parts of comments and stars. -/
theorem mem_of_open {inside : List Char} (h : Open (inside ++ ['*'])) :
    inside ++ ['*'] ∈ commented∗ * stars := by
  induction inside with
  | nil =>
    have hstar : ['*'] ∈ stars := mem_stars.mpr ⟨List.cons_ne_nil _ _, rfl⟩
    exact Language.append_mem_mul (Language.nil_mem_kstar commented) hstar
  | cons c inside ih =>
    have hchain := open_iff_isChain.mp h
    rw [List.cons_append, List.isChain_cons] at hchain
    obtain ⟨before, hbefore, final, hfinal, heq⟩ :=
      Language.mem_mul.mp (ih (open_iff_isChain.mpr hchain.2))
    rw [← heq] at hchain
    rw [List.cons_append, ← heq]
    by_cases hc : c = '*'
    · -- A star goes to the stars that begin the next part, or to those at the end.
      subst hc
      obtain ⟨pieces, rfl, hpieces⟩ := Language.mem_kstar.mp hbefore
      cases pieces with
      | nil =>
        obtain ⟨_, hall⟩ := mem_stars.mp hfinal
        have hmore : '*' :: final ∈ stars :=
          mem_stars.mpr ⟨List.cons_ne_nil _ _, by simpa using hall⟩
        exact Language.append_mem_mul (Language.nil_mem_kstar commented) hmore
      | cons piece pieces =>
        obtain ⟨hpiece, hrest⟩ := List.forall_mem_cons.mp hpieces
        obtain ⟨first, d, rfl, hfirst, hstar, hslash⟩ := commented_cases hpiece
        have hd : d ≠ '/' := by
          cases first with
          | nil =>
            rintro rfl
            exact hchain.1 '/' (by simp) ⟨rfl, rfl⟩
          | cons e first => exact hslash (List.cons_ne_nil _ _)
        have hnew : '*' :: first ++ [d] ∈ commented := by
          refine (Language.mem_add _ _ _).mpr (.inr (Language.append_mem_mul ?_ ⟨d, ?_, rfl⟩))
          · exact mem_stars.mpr ⟨List.cons_ne_nil _ _, by simpa using hfirst⟩
          · simp [hstar, hd]
        have hmore := append_mem_kstar hnew (Language.join_mem_kstar hrest)
        rw [List.flatten_cons, ← List.cons_append, ← List.cons_append, ← List.cons_append]
        exact Language.append_mem_mul hmore hfinal
    · have hnew : [c] ∈ commented :=
        (Language.mem_add _ _ _).mpr (.inl ⟨c, bne_iff_ne.mpr hc, rfl⟩)
      exact Language.append_mem_mul (append_mem_kstar hnew hbefore) hfinal

/-- A comment ends with the first star before a slash behind its start. -/
theorem mem_comment {text : List Char} : text ∈ comment.language ↔
    ∃ inside, text = '/' :: '*' :: inside ++ ['*', '/'] ∧ Open (inside ++ ['*']) := by
  have hlanguage : comment.language = exactly "/*" * (commented∗ * stars * exactly "/") := by
    rw [language, mul_assoc, mul_assoc, mul_assoc]
  rw [hlanguage, mem_exactly_mul]
  constructor
  · rintro ⟨_, htail, rfl⟩
    obtain ⟨before, hbefore, rfl⟩ := mem_mul_exactly.mp htail
    obtain ⟨first, hfirst, final, hfinal, rfl⟩ := Language.mem_mul.mp hbefore
    obtain ⟨hne, hall⟩ := mem_stars.mp hfinal
    obtain ⟨final, c, rfl⟩ : ∃ init c, final = init ++ [c] :=
      ⟨_, _, (List.dropLast_append_getLast hne).symm⟩
    obtain rfl : c = '*' := by simpa using List.all_eq_true.mp hall c (by simp)
    refine ⟨first ++ final, by simp, ?_⟩
    rw [List.append_assoc]
    exact open_of_mem hbefore
  · rintro ⟨inside, rfl, hopen⟩
    exact ⟨_, mem_mul_exactly.mpr ⟨_, mem_of_open hopen, rfl⟩, by simp⟩

/-! ## How patterns start -/

/-- A character that a sign starts with. -/
def isSign (c : Char) : Bool := Mark.all.any fun sign => sign.spelling.toList.head? = some c

/-- The characters that a pattern starts with. -/
def starts : Pattern → Char → Bool
  | float | integer => Char.isDigit
  | truth _ | name | keyword _ => Text.isNameStart
  | string | openString => (· == '"')
  | mark _ => isSign
  | comment | openComment => (· == '/')
  | newLine | blanks => Text.isGap

/-- A matched text is not empty, and starts as its pattern does. -/
theorem exists_cons_of_mem {pattern : Pattern} {text : List Char} (h : text ∈ pattern.language) :
    ∃ c tail, text = c :: tail ∧ pattern.starts c := by
  cases pattern with
  | float =>
    obtain ⟨whole, fraction, rfl, hne, hall, _⟩ := mem_float.mp h
    obtain ⟨c, tail, rfl⟩ := List.exists_cons_of_ne_nil hne
    exact ⟨c, _, rfl, List.all_eq_true.mp hall c (List.mem_cons_self ..)⟩
  | integer =>
    obtain ⟨hne, hall⟩ := mem_integer.mp h
    obtain ⟨c, tail, rfl⟩ := List.exists_cons_of_ne_nil hne
    exact ⟨c, _, rfl, List.all_eq_true.mp hall c (List.mem_cons_self ..)⟩
  | truth b =>
    obtain rfl := mem_exactly.mp h
    cases b <;> exact ⟨_, _, rfl, by decide⟩
  | string =>
    obtain ⟨inside, _, rfl⟩ := mem_string.mp h
    exact ⟨_, _, rfl, rfl⟩
  | name =>
    obtain ⟨c, tail, rfl, hc, _⟩ := mem_name.mp h
    exact ⟨c, tail, rfl, hc⟩
  | keyword word =>
    obtain rfl := mem_exactly.mp h
    obtain ⟨c, tail, htext, hc, _⟩ := isWord_keyword word
    exact ⟨c, tail, htext, hc⟩
  | mark sign =>
    obtain rfl := mem_exactly.mp h
    cases sign <;> exact ⟨_, _, rfl, by decide⟩
  | comment =>
    obtain ⟨inside, rfl, _⟩ := mem_comment.mp h
    exact ⟨_, _, rfl, rfl⟩
  | openComment =>
    obtain rfl := mem_exactly.mp h
    exact ⟨_, _, rfl, rfl⟩
  | openString =>
    obtain rfl := mem_exactly.mp h
    exact ⟨_, _, rfl, rfl⟩
  | newLine =>
    obtain rfl := mem_exactly.mp h
    exact ⟨_, _, rfl, rfl⟩
  | blanks =>
    obtain ⟨c, tail, rfl, hc, _⟩ := mem_oneOf_mul.mp h
    refine ⟨c, tail, rfl, ?_⟩
    rw [starts, Text.isGap, hc]
    rfl

/-- Signs start with characters of their own. -/
theorem not_of_isSign {c : Char} (h : isSign c) :
    c.isDigit = false ∧ Text.isNameStart c = false ∧ c ≠ '"' ∧ Text.isGap c = false := by
  obtain ⟨sign, _, hhead⟩ := List.any_eq_true.mp h
  rw [decide_eq_true_eq] at hhead
  have hall : ∀ d ∈ sign.spelling.toList.head?,
      d.isDigit = false ∧ Text.isNameStart d = false ∧ d ≠ '"' ∧ Text.isGap d = false := by
    cases sign <;> (rintro _ ⟨⟩; decide)
  exact hall c hhead

section Families

variable {pattern : Pattern} {c : Char} {tail : List Char}

theorem starts_of_mem (h : c :: tail ∈ pattern.language) : pattern.starts c := by
  obtain ⟨_, _, heq, hstarts⟩ := exists_cons_of_mem h
  cases heq
  exact hstarts

/-- What starts with a digit is a number. -/
theorem mem_number_of_mem (h : c :: tail ∈ pattern.language) (hc : c.isDigit) :
    c :: tail ∈ integer.language ∨ c :: tail ∈ float.language := by
  have hstarts := starts_of_mem h
  cases pattern with
  | float => exact .inr h
  | integer => exact .inl h
  | truth | name | keyword =>
    rw [starts, not_isNameStart_of_isDigit hc] at hstarts
    cases hstarts
  | mark =>
    rw [(not_of_isSign hstarts).1] at hc
    cases hc
  | string | openString | comment | openComment =>
    rw [eq_of_beq hstarts] at hc
    exact absurd hc (by decide)
  | newLine | blanks =>
    rw [starts, not_isGap_of_isNamePart (isNamePart_of_isDigit hc)] at hstarts
    cases hstarts

/-- What starts like a name is a name, a truth value or a reserved word. -/
theorem named_of_starts (hstarts : pattern.starts c) (hc : Text.isNameStart c) :
    pattern = .name ∨ (∃ b, pattern = .truth b) ∨ ∃ word, pattern = .keyword word := by
  cases pattern with
  | name => exact .inl rfl
  | truth b => exact .inr (.inl ⟨b, rfl⟩)
  | keyword word => exact .inr (.inr ⟨word, rfl⟩)
  | float | integer =>
    rw [not_isNameStart_of_isDigit hstarts] at hc
    cases hc
  | mark =>
    rw [(not_of_isSign hstarts).2.1] at hc
    cases hc
  | string | openString | comment | openComment =>
    rw [eq_of_beq hstarts] at hc
    exact absurd hc (by decide)
  | newLine | blanks =>
    rw [starts, not_isGap_of_isNamePart (Text.isNamePart_of_isNameStart hc)] at hstarts
    cases hstarts

/-- What starts like a name goes on like one. -/
theorem all_isNamePart_of_mem (h : c :: tail ∈ pattern.language) (hc : Text.isNameStart c) :
    (c :: tail).all Text.isNamePart := by
  have hstarts := starts_of_mem h
  obtain rfl | ⟨b, rfl⟩ | ⟨word, rfl⟩ := named_of_starts hstarts hc
  · obtain ⟨_, _, heq, _, hall⟩ := mem_name.mp h
    cases heq
    rw [List.all_cons, Text.isNamePart_of_isNameStart hc, hall]
    rfl
  · rw [mem_exactly.mp h]
    cases b <;> decide
  · rw [mem_exactly.mp h]
    cases word <;> decide

/-- What starts with a quote is a text in quotes or the quote alone. -/
theorem mem_string_of_mem (h : '"' :: tail ∈ pattern.language) :
    '"' :: tail ∈ string.language ∨ tail = [] := by
  have hstarts := starts_of_mem h
  cases pattern with
  | string => exact .inl h
  | openString => exact .inr (List.cons.inj (mem_exactly.mp h)).2
  | mark => exact absurd rfl (not_of_isSign hstarts).2.2.1
  | truth | name | keyword =>
    rw [starts] at hstarts
    exact absurd hstarts (by decide)
  | _ => exact absurd hstarts (by decide)

/-- What starts otherwise, and is neither a blank nor the start of a comment, is a sign. -/
theorem exists_mark_of_mem (h : c :: tail ∈ pattern.language) (hdigit : c.isDigit = false)
    (hname : Text.isNameStart c = false) (hquote : c ≠ '"') (hgap : Text.isGap c = false)
    (hcomment : c = '/' → tail.head? ≠ some '*') :
    ∃ sign : Mark, c :: tail = sign.spelling.toList := by
  have hstarts := starts_of_mem h
  cases pattern with
  | mark sign => exact ⟨sign, mem_exactly.mp h⟩
  | float | integer =>
    rw [starts, hdigit] at hstarts
    cases hstarts
  | truth | name | keyword =>
    rw [starts, hname] at hstarts
    cases hstarts
  | string | openString => exact absurd (eq_of_beq hstarts) hquote
  | comment =>
    obtain ⟨inside, heq, _⟩ := mem_comment.mp h
    cases heq
    exact absurd rfl (hcomment rfl)
  | openComment =>
    cases mem_exactly.mp h
    exact absurd rfl (hcomment rfl)
  | newLine | blanks =>
    rw [starts, hgap] at hstarts
    cases hstarts

end Families

end Pattern

end ScopedScript
