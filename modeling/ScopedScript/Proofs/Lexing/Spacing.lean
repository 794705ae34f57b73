import ScopedScript.Proofs.Lexing.Munch

/-!
# Blanks between tokens

Where a token ends is found by looking at what follows it, and in a source anything may: a number
can be followed by the name that it runs into, and a sign by another one. A blank ends a token at
the same place, and so does the end of the source. So the literals of the tokens of a source can be
moved apart, and each of them can stand alone.
-/

namespace ScopedScript

open Lexer

/-! ## What is read before a blank -/

/-- Nothing follows, or a blank. -/
def Ends (rest : List Char) : Prop := ∀ c ∈ rest.head?, Text.isGap c

theorem ends_nil : Ends [] := nofun

theorem ends_cons {c : Char} (hc : Text.isGap c) (rest : List Char) : Ends (c :: rest) := by
  rintro _ ⟨⟩
  exact hc

section Endings

variable {rest : List Char}

/-- A blank ends words and numbers. -/
theorem Ends.loose (h : Ends rest) : Loose rest := by
  cases rest with
  | nil => trivial
  | cons c rest =>
    have hgap : Text.isGap c := h c rfl
    refine ⟨?_, ?_⟩
    · by_contra hpart
      simp [not_isGap_of_isNamePart (by simpa using hpart)] at hgap
    · rintro rfl
      exact absurd hgap (by decide)

/-- A blank ends signs. -/
theorem Ends.clear (h : Ends rest) : Clear rest := by
  cases rest with
  | nil => trivial
  | cons c rest =>
    have hgap : Text.isGap c := h c rfl
    refine ⟨?_, ?_, ?_⟩ <;>
    · rintro rfl
      exact absurd hgap (by decide)

end Endings

namespace Lexer

/-- A number is read as before when nothing goes on with it. -/
theorem isRead_number {c : Char} {tail rest : List Char} {kind : TokenKind} (hc : c.isDigit)
    (hkind : (number (c :: tail)).kind = .ok kind) (hrest : Loose rest) :
    IsRead (number (c :: tail)).text rest kind := by
  obtain ⟨after, hafter, _⟩ : ∃ after, (number (c :: tail)).text = c :: after ∧ after <+: tail := by
    have hlongest : IsLongest (number (c :: tail)).text (c :: tail) := isLongest_number hc
    obtain ⟨pattern, hpattern⟩ := hlongest.matched
    exact exists_tail_of_mem ⟨_, number_append (c :: tail)⟩ hpattern
  have hreads := readsNumber_number (c :: tail)
  generalize c :: tail = text at hkind hafter hreads ⊢
  generalize number text = lexeme at hkind hafter hreads ⊢
  suffices number (lexeme.text ++ rest) = ⟨lexeme.text, .ok kind, rest⟩ by
    rw [hafter] at this ⊢
    exact isRead_digits hc this
  rw [← hkind]
  cases hreads with
  | @float whole fraction _ hwhole hfraction =>
    rw [List.append_assoc, List.cons_append]
    exact (ReadsNumber.float hwhole hfraction hrest.not_isDigit).number_eq
  | @integer whole _ hwhole =>
    exact (ReadsNumber.integer hwhole hrest.ends_digits).number_eq

/-- What is read as a token is read so before a blank, and at the end. -/
theorem isRead_of_lexeme? {text rest : List Char} {lexeme : Lexeme} {kind : TokenKind}
    (h : lexeme? text = some lexeme) (hkind : lexeme.kind = .ok kind) (hrest : Ends rest) :
    IsRead lexeme.text rest kind := by
  cases reads_of_lexeme? h with
  | string tail =>
    unfold string at hkind ⊢
    split at hkind
    next inside after hclose =>
      obtain rfl := Except.ok.inj hkind
      have hinside := Pattern.mem_quoted_of_closeQuote hclose
      exact isRead_string (Pattern.closeQuote_of_mem_quoted hinside rest)
    next => cases hkind
  | openComment tail => cases hkind
  | number tail hdigit => exact isRead_number hdigit hkind hrest.loose
  | @word c tail hname =>
    obtain rfl := Except.ok.inj hkind
    have hword : IsWord (String.ofList ((c :: tail).takeWhile Text.isNamePart)) :=
      isWord_takeWhile hname
    have hread := isRead_word hword hrest.loose
    rwa [String.toList_ofList] at hread
  | sign =>
    unfold sign at hkind ⊢
    split at hkind
    next found hfound =>
      obtain rfl := Except.ok.inj hkind
      exact isRead_sign found hrest.clear
    next => cases hkind

end Lexer

/-! ## Tokens apart -/

namespace Token

/-- What a token is and the text it was read from, wherever that stood. -/
def content (token : Token) : TokenKind × String := (token.kind, token.literal)

/-- A token other than the end that is read from its literal before a blank, and at the end. -/
structure Stands (token : Token) : Prop where
  kind_ne : token.kind ≠ .endOfInput
  literal_ne : token.literal.toList ≠ []
  isRead : ∀ rest, Ends rest → IsRead token.literal.toList rest token.kind

end Token

/-- A token that is found is the end or stands. -/
theorem Cursor.stands_next {cursor : Cursor} {token : Token} (h : cursor.next.1 = .ok token) :
    token.content = (.endOfInput, "") ∨ token.Stands := by
  cases hlexeme : lexeme? (gap cursor.rest).2 with
  | none =>
    simp only [next, hlexeme] at h
    obtain rfl := Except.ok.inj h
    exact .inl rfl
  | some lexeme =>
    simp only [next, hlexeme] at h
    split at h
    next kind hkind =>
      obtain rfl := Except.ok.inj h
      obtain ⟨hlongest, htoken⟩ := isLongest_of_lexeme? (gapItem?_gap _) hlexeme hkind
      refine .inr ⟨htoken.ne_endOfInput, ?_, ?_⟩
      · rw [String.toList_ofList]
        exact List.length_pos_iff.mp hlongest.length_pos
      · intro rest hrest
        rw [String.toList_ofList]
        exact isRead_of_lexeme? hlexeme hkind hrest
    next => cases h

/-- The tokens of a source stand, but for the end behind them. -/
theorem stands_of_tokenize {source : String} {ts : List Token} (h : tokenize source = .ok ts) :
    ∃ us last, ts = us ++ [last] ∧ last.content = (.endOfInput, "") ∧
      ∀ token ∈ us, token.Stands := by
  obtain ⟨us, last, rfl, hlast, hus⟩ := ends_of_tokenize h
  have hall := Cursor.forall_mem_collect (fun _ _ => Cursor.stands_next) h
  refine ⟨us, last, rfl, ?_, ?_⟩
  · exact (hall last (by simp)).resolve_right fun hstands => hstands.kind_ne hlast
  · intro token htoken
    refine (hall token (by simp [htoken])).resolve_left fun hend => ?_
    exact hus token htoken (congrArg Prod.fst hend)

/-! ## Literals with blanks between them -/

/-- A text as the literals of tokens, with blanks between them and maybe around them. -/
inductive Spread : List Char → List Token → Prop where
  | nil : Spread [] []
  | blank {c : Char} {rest : List Char} {ts : List Token} (hc : Text.isGap c)
      (h : Spread rest ts) : Spread (c :: rest) ts
  /-- A literal, before a blank or at the end. -/
  | token {token : Token} {rest : List Char} {ts : List Token} (htoken : token.Stands)
      (hrest : Ends rest) (h : Spread rest ts) :
      Spread (token.literal.toList ++ rest) (token :: ts)

namespace Spread

/-- Literals with blanks between them are read one by one. -/
theorem collect {text : List Char} {ts : List Token} (h : Spread text ts) (position : Position)
    {count : Nat} (hcount : text.length < count) :
    ∃ us, Cursor.collect count ⟨text, position⟩ = .ok us ∧
      us.map Token.content = ts.map Token.content ++ [(.endOfInput, "")] := by
  induction h generalizing position count with
  | nil =>
    obtain ⟨less, rfl⟩ := Nat.exists_eq_add_one_of_ne_zero (Nat.ne_of_gt hcount)
    exact ⟨[⟨.endOfInput, "", position⟩], rfl, rfl⟩
  | blank hc _ ih =>
    rw [Cursor.collect_gap hc]
    exact ih _ (Nat.lt_of_succ_lt hcount)
  | @token token rest ts htoken hrest _ ih =>
    have hpos := List.length_pos_iff.mpr htoken.literal_ne
    rw [List.length_append] at hcount
    obtain ⟨less, rfl⟩ := Nat.exists_eq_add_one_of_ne_zero (by omega : count ≠ 0)
    have hless : rest.length < less := by omega
    obtain ⟨us, hus, hcontent⟩ := ih (position.advanceBy token.literal.toList) hless
    refine ⟨⟨token.kind, token.literal, position⟩ :: us, ?_, ?_⟩
    · simp only [Cursor.collect, Cursor.next_token (htoken.isRead rest hrest) position,
        if_neg htoken.kind_ne, hus, String.ofList_toList]
      rfl
    · rw [List.map_cons, hcontent]
      rfl

theorem tokenize {text : String} {ts : List Token} (h : Spread text.toList ts) :
    ∃ us, tokenize text = .ok us ∧
      us.map Token.content = ts.map Token.content ++ [(.endOfInput, "")] :=
  h.collect _ (by rw [String.length_toList]; exact Nat.lt_succ_self _)

/-- A literal alone. -/
theorem singleton {token : Token} (h : token.Stands) : Spread token.literal.toList [token] := by
  have hspread := Spread.token h ends_nil .nil
  rwa [List.append_nil] at hspread

/-- Literals with a space between each two of them. -/
theorem intercalate {ts : List Token} (h : ∀ token ∈ ts, token.Stands) :
    Spread (" ".intercalate (ts.map Token.literal)).toList ts := by
  induction ts with
  | nil => exact .nil
  | cons token ts ih =>
    obtain ⟨htoken, hts⟩ := List.forall_mem_cons.mp h
    cases ts with
    | nil => simpa using singleton htoken
    | cons next ts =>
      have hspace : Text.isGap ' ' := rfl
      have hspread := Spread.token htoken (ends_cons hspace _) (.blank hspace (ih hts))
      simpa using hspread

/-- Literals with a space behind each of them, since nothing follows the last. -/
theorem intercalate_end {ts : List Token} (h : ∀ token ∈ ts, token.Stands) :
    Spread (" ".intercalate (ts.map Token.literal ++ [""])).toList ts := by
  induction ts with
  | nil => exact .nil
  | cons token ts ih =>
    obtain ⟨htoken, hts⟩ := List.forall_mem_cons.mp h
    have hspace : Text.isGap ' ' := rfl
    have hspread := Spread.token htoken (ends_cons hspace _) (.blank hspace (ih hts))
    cases ts <;> simpa using hspread

end Spread

/-- Blanks move tokens apart and change none of them. The literals of a source with a space between
them, and behind the last of them if the empty literal of the end counts, are read as the same
tokens with the same literals. Each literal alone is read as its token, and then comes the end. -/
theorem spacing_robust {source : String} {ts : List Token} (h : tokenize source = .ok ts) :
    (∃ us, tokenize (" ".intercalate (ts.map Token.literal)) = .ok us ∧
      us.map Token.content = ts.map Token.content) ∧
    (∃ us, tokenize (" ".intercalate (ts.dropLast.map Token.literal)) = .ok us ∧
      us.map Token.content = ts.map Token.content) ∧
    ∀ token ∈ ts.dropLast, ∃ us, tokenize token.literal = .ok us ∧
      us.map Token.content = [token.content, (.endOfInput, "")] := by
  obtain ⟨ts, last, rfl, hlast, hstands⟩ := stands_of_tokenize h
  have hempty : last.literal = "" := congrArg Prod.snd hlast
  rw [List.dropLast_concat, List.map_append, List.map_append, List.map_singleton, hempty,
    List.map_singleton, hlast]
  refine ⟨(Spread.intercalate_end hstands).tokenize, (Spread.intercalate hstands).tokenize, ?_⟩
  intro token htoken
  exact (Spread.singleton (hstands token htoken)).tokenize

/-- A number runs into a name, and signs run into each other; a text in quotes goes on over a
line. -/
theorem spacing_robust_run_together : ∃ ts us,
    tokenize "x1=2.y//=-0if\"\n\\\"\"" = .ok ts ∧
      " ".intercalate (ts.map Token.literal) = "x1 = 2. y //= - 0 if \"\n\\\"\" " ∧
      tokenize "x1 = 2. y //= - 0 if \"\n\\\"\" " = .ok us ∧
      us.map Token.content = ts.map Token.content := by
  have hjoined : (tokenize "x1=2.y//=-0if\"\n\\\"\"").toOption.map
      (fun ts => " ".intercalate (ts.map Token.literal)) =
        some "x1 = 2. y //= - 0 if \"\n\\\"\" " := by decide +kernel
  cases h : tokenize "x1=2.y//=-0if\"\n\\\"\"" with
  | error fault =>
    rw [h] at hjoined
    cases hjoined
  | ok ts =>
    rw [h] at hjoined
    have htext := Option.some.inj hjoined
    obtain ⟨us, hus, hcontent⟩ := (spacing_robust h).1
    exact ⟨ts, us, rfl, htext, htext ▸ hus, hcontent⟩

end ScopedScript
