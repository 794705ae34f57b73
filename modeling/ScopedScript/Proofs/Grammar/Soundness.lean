import ScopedScript.Proofs.Grammar

/-!
# What readers yield is derived by the grammar

A reader that succeeds has taken some tokens off the front, and its result stands for exactly those.
The rule of every reader is proved for any readers of its parts, and the readers of nested phrases
are tied together by induction on the room they are given.
-/

namespace ScopedScript.Parser

open Grammar

/-! ## Running readers -/

section Running

variable {α β : Type} {ts rest : List Token}

theorem bind_eq_ok {reader : Parser α} {next : α → Parser β} {b : β} :
    (reader >>= next) ts = .ok (b, rest) ↔
      ∃ a middle, reader ts = .ok (a, middle) ∧ next a middle = .ok (b, rest) := by
  simp only [bind, StateT.bind, Except.bind]
  cases reader ts with
  | error fault => simp
  | ok found =>
    obtain ⟨a, middle⟩ := found
    constructor
    · intro h
      exact ⟨a, middle, rfl, h⟩
    · rintro ⟨_, _, heq, h⟩
      cases heq
      exact h

@[simp] theorem pure_apply (a : α) : (pure a : Parser α) ts = .ok (a, ts) := rfl

@[simp] theorem peek_bind (next : Option Token → Parser β) :
    (peek >>= next) ts = next ts.head? ts := rfl

@[simp] theorem get_bind (next : List Token → Parser β) :
    (get >>= next) ts = next ts ts := rfl

@[simp] theorem skip_bind (next : Unit → Parser β) :
    (skip >>= next) ts = next () ts.tail := rfl

@[simp] theorem set_bind (us : List Token) (next : PUnit → Parser β) :
    (set us >>= next) ts = next () us := rfl

@[simp] theorem throw_apply (fault : Diagnostic ParseFault) :
    (throw fault : Parser α) ts = .error fault := rfl

@[simp] theorem throw_bind (fault : Diagnostic ParseFault) (next : α → Parser β) :
    ((throw fault : Parser α) >>= next) ts = .error fault := rfl

@[simp] theorem exhausted_ne_ok (expected : Expectation) {a : α} :
    (exhausted expected : Parser α) ts ≠ .ok (a, rest) := nofun

@[simp] theorem unexpected_ne_ok (token : Token) (expected : Expectation) {a : α} :
    (unexpected token expected : Parser α) ts ≠ .ok (a, rest) := nofun

end Running

/-! ## Single tokens -/

section Tokens

variable {ts rest : List Token} {token : Token}

theorem expect_eq_ok {kind : TokenKind} {expected : Expectation} :
    expect kind expected ts = .ok (token, rest) ↔ ts = token :: rest ∧ token.kind = kind := by
  cases ts with
  | nil => simp [expect]
  | cons head tail =>
    simp only [expect, peek_bind, List.head?_cons, List.cons.injEq]
    split
    · simp only [skip_bind, List.tail_cons, pure_apply, Except.ok.injEq, Prod.mk.injEq]
      constructor
      · rintro ⟨rfl, rfl⟩
        exact ⟨⟨rfl, rfl⟩, by assumption⟩
      · rintro ⟨⟨rfl, rfl⟩, _⟩
        exact ⟨rfl, rfl⟩
    · next h =>
      simp only [unexpected_ne_ok, false_iff]
      rintro ⟨⟨rfl, rfl⟩, hkind⟩
      exact h hkind

theorem mark_eq_ok {sign : Mark} :
    mark sign ts = .ok (token, rest) ↔ ts = token :: rest ∧ token.kind = .mark sign :=
  expect_eq_ok

theorem keyword_eq_ok {word : Keyword} :
    keyword word ts = .ok (token, rest) ↔ ts = token :: rest ∧ token.kind = .keyword word :=
  expect_eq_ok

theorem eat_eq_ok {kind : TokenKind} {b : Bool} : eat kind ts = .ok (b, rest) ↔
    (b = true ∧ ∃ token, ts = token :: rest ∧ token.kind = kind) ∨
      (b = false ∧ ts = rest ∧ ∀ token, ts.head? = some token → token.kind ≠ kind) := by
  cases ts with
  | nil => simp [eat, eq_comm]
  | cons head tail =>
    simp only [eat, peek_bind, List.head?_cons, Option.some.injEq]
    split
    · next h =>
      simp only [skip_bind, List.tail_cons, pure_apply, Except.ok.injEq, Prod.mk.injEq,
        List.cons.injEq]
      constructor
      · rintro ⟨rfl, rfl⟩
        exact .inl ⟨rfl, head, ⟨rfl, rfl⟩, h⟩
      · rintro (⟨rfl, _, ⟨rfl, rfl⟩, _⟩ | ⟨_, _, hne⟩)
        · exact ⟨rfl, rfl⟩
        · exact absurd h (hne head rfl)
    · next h =>
      simp only [pure_apply, Except.ok.injEq, Prod.mk.injEq, List.cons.injEq]
      constructor
      · rintro ⟨rfl, rfl⟩
        exact .inr ⟨rfl, rfl, fun _ heq => heq ▸ h⟩
      · rintro (⟨_, _, ⟨rfl, rfl⟩, hkind⟩ | ⟨rfl, rfl, _⟩)
        · exact absurd hkind h
        · exact ⟨rfl, rfl⟩

theorem identifier_eq_ok {found : String × Token} : identifier ts = .ok (found, rest) ↔
    ts = found.2 :: rest ∧ found.2.kind = .identifier found.1 := by
  cases ts with
  | nil => simp [identifier]
  | cons head tail =>
    simp only [identifier, peek_bind, List.head?_cons, List.cons.injEq]
    cases hkind : head.kind with
    | identifier name =>
      simp only [skip_bind, List.tail_cons, pure_apply, Except.ok.injEq, Prod.mk.injEq]
      constructor
      · rintro ⟨rfl, rfl⟩
        exact ⟨⟨rfl, rfl⟩, hkind⟩
      · rintro ⟨⟨rfl, rfl⟩, hname⟩
        rw [hkind] at hname
        cases hname
        exact ⟨rfl, rfl⟩
    | _ =>
      simp only [unexpected_ne_ok, false_iff]
      rintro ⟨⟨rfl, rfl⟩, hname⟩
      rw [hkind] at hname
      cases hname

theorem typeName_eq_ok {declared : DeclaredType} : typeName ts = .ok (declared, rest) ↔
    ts = declared.token :: rest ∧ declared.token.kind.type? = some declared.type := by
  cases ts with
  | nil => simp [typeName]
  | cons head tail =>
    simp only [typeName, peek_bind, List.head?_cons, List.cons.injEq]
    cases htype : head.kind.type? with
    | some type =>
      simp only [skip_bind, List.tail_cons, pure_apply, Except.ok.injEq, Prod.mk.injEq]
      constructor
      · rintro ⟨rfl, rfl⟩
        exact ⟨⟨rfl, rfl⟩, htype⟩
      · rintro ⟨⟨rfl, rfl⟩, hname⟩
        obtain ⟨_, _⟩ := declared
        rw [htype] at hname
        cases hname
        exact ⟨rfl, rfl⟩
    | none =>
      simp only [unexpected_ne_ok, false_iff]
      rintro ⟨⟨rfl, rfl⟩, hname⟩
      rw [htype] at hname
      cases hname

end Tokens

/-! ## Soundness -/

/-- Whatever a reader yields stands for the tokens it takes off the front. -/
def Yields {α : Type} (reader : Parser α) (phrase : List Token → α → Prop) : Prop :=
  ∀ ⦃ts : List Token⦄ ⦃a : α⦄ ⦃rest : List Token⦄, reader ts = .ok (a, rest) →
    ∃ used, ts = used ++ rest ∧ phrase used a

/-! ### Lists -/

section Lists

variable {α : Type} {item : Parser α} {phrase : List Token → α → Prop}

theorem commaTail_yields (hitem : Yields item phrase) (closing : Mark) (ahead : List Token) :
    Yields (commaTail item closing ahead) fun ts items =>
      ∃ us close, ts = us ++ [close] ∧ IsMore phrase us items ∧ close.kind = .mark closing := by
  induction ahead with
  | nil =>
    intro ts items rest h
    cases h
  | cons _ ahead ih =>
    intro ts items rest h
    cases ts with
    | nil => cases h
    | cons token tail =>
      simp only [commaTail, peek_bind, List.head?_cons] at h
      split at h
      · next hcomma =>
        simp only [skip_bind, List.tail_cons, bind_eq_ok, pure_apply, Except.ok.injEq,
          Prod.mk.injEq] at h
        obtain ⟨a, middle, ha, more, _, hmore, rfl, rfl⟩ := h
        obtain ⟨used, rfl, hused⟩ := hitem ha
        obtain ⟨_, rfl, us, close, rfl, hus, hclose⟩ := ih hmore
        exact ⟨token :: used ++ us ++ [close], by simp, token :: used ++ us, close, rfl,
          .cons hcomma hused hus, hclose⟩
      · split at h
        · next hclose =>
          simp only [skip_bind, List.tail_cons, pure_apply, Except.ok.injEq, Prod.mk.injEq] at h
          obtain ⟨rfl, rfl⟩ := h
          exact ⟨[token], rfl, [], token, rfl, .nil, hclose⟩
        · exact absurd h (unexpected_ne_ok _ _)

theorem commaSeparated_yields (hitem : Yields item phrase) (closing : Mark) :
    Yields (commaSeparated item closing) (IsList phrase closing) := by
  intro ts items rest h
  simp only [commaSeparated, bind_eq_ok, eat_eq_ok] at h
  obtain ⟨closed, middle, ⟨rfl, close, rfl, hclose⟩ | ⟨rfl, rfl, _⟩, h⟩ := h
  · cases h
    exact ⟨[close], rfl, .empty hclose⟩
  · simp only [Bool.false_eq_true, if_false, bind_eq_ok, get_bind, pure_apply, Except.ok.injEq,
      Prod.mk.injEq] at h
    obtain ⟨a, _, ha, more, _, hmore, rfl, rfl⟩ := h
    obtain ⟨used, rfl, hused⟩ := hitem ha
    obtain ⟨_, rfl, us, close, rfl, hus, hclose⟩ := commaTail_yields hitem closing _ hmore
    exact ⟨used ++ us ++ [close], by simp, .items hused hus hclose⟩

/-- The readers of optional parts take their first token, and then what they are for. -/
theorem optional_eq_ok {kind : TokenKind} {found : Option α} {ts rest : List Token}
    (h : optional kind item ts = .ok (found, rest)) :
    (found = none ∧ ts = rest) ∨ ∃ token tail a, ts = token :: tail ∧ token.kind = kind ∧
      found = some a ∧ item tail = .ok (a, rest) := by
  simp only [optional, bind_eq_ok, eat_eq_ok] at h
  obtain ⟨_, middle, ⟨rfl, token, rfl, hkind⟩ | ⟨rfl, rfl, _⟩, h⟩ := h
  · simp only [if_true, bind_eq_ok, pure_apply, Except.ok.injEq, Prod.mk.injEq] at h
    obtain ⟨a, _, ha, rfl, rfl⟩ := h
    exact .inr ⟨token, middle, a, rfl, hkind, rfl, ha⟩
  · cases h
    exact .inl ⟨rfl, rfl⟩

end Lists

/-! ### Expressions -/

theorem operatorTail_yields {operand : Parser Expr} {level room : Nat}
    (hoperand : Yields operand (IsLevel (level + 1) room)) (ahead : List Token) {before : List Token}
    {left : Expr} (hleft : IsLevel level room before left) :
    Yields (operatorTail operand level ahead left) fun ts e =>
      IsLevel level room (before ++ ts) e := by
  induction ahead generalizing before left with
  | nil =>
    intro ts e rest h
    cases h
    exact ⟨[], rfl, by simpa using hleft⟩
  | cons _ ahead ih =>
    intro ts e rest h
    simp only [operatorTail, bind_eq_ok] at h
    obtain ⟨found, middle, hfound, h⟩ := h
    cases ts with
    | nil =>
      cases hfound
      cases h
      exact ⟨[], rfl, by simpa using hleft⟩
    | cons token tail =>
      simp only [operator?, peek_bind, List.head?_cons] at hfound
      cases hop : BinaryOp.ofKind? token.kind with
      | none =>
        simp only [hop] at hfound
        cases hfound
        cases h
        exact ⟨[], rfl, by simpa using hleft⟩
      | some op =>
        simp only [hop] at hfound
        split at hfound
        · next hlevel =>
          cases hfound
          simp only [bind_eq_ok, List.tail_cons] at h
          obtain ⟨right, _, hright, h⟩ := h
          obtain ⟨us, rfl, hus⟩ := hoperand hright
          obtain ⟨vs, rfl, hvs⟩ := ih (.binary hop hlevel hleft hus) h
          exact ⟨token :: us ++ vs, by simp, by simpa using hvs⟩
        · cases hfound
          cases h
          exact ⟨[], rfl, by simpa using hleft⟩

theorem leftAssociative_yields {operand : Parser Expr} {level room : Nat} (hlevel : level < 7)
    (hoperand : Yields operand (IsLevel (level + 1) room)) :
    Yields (leftAssociative operand level) (IsLevel level room) := by
  intro ts e rest h
  simp only [leftAssociative, bind_eq_ok, get_bind] at h
  obtain ⟨first, _, hfirst, h⟩ := h
  obtain ⟨us, rfl, hus⟩ := hoperand hfirst
  obtain ⟨vs, rfl, hvs⟩ := operatorTail_yields hoperand _ (.tighter hlevel hus) h
  exact ⟨us ++ vs, by simp, hvs⟩

theorem levels_yields {operand : Parser Expr} {room : Nat}
    (hoperand : Yields operand (IsOperand room)) : Yields (levels operand) (IsLevel 1 room) := by
  have h7 : Yields operand (IsLevel 7 room) := by
    intro ts e rest h
    obtain ⟨us, hts, hus⟩ := hoperand h
    exact ⟨us, hts, .operand hus⟩
  have h6 : Yields (leftAssociative operand 6) (IsLevel 6 room) :=
    leftAssociative_yields (by decide) h7
  have h5 : Yields (leftAssociative _ 5) (IsLevel 5 room) := leftAssociative_yields (by decide) h6
  have h4 : Yields (leftAssociative _ 4) (IsLevel 4 room) := leftAssociative_yields (by decide) h5
  have h3 : Yields (leftAssociative _ 3) (IsLevel 3 room) := leftAssociative_yields (by decide) h4
  have h2 : Yields (leftAssociative _ 2) (IsLevel 2 room) := leftAssociative_yields (by decide) h3
  exact leftAssociative_yields (by decide) h2

theorem accesses_yields {nested : Parser Expr} {room : Nat}
    (hnested : Yields nested (IsExpression room)) (ahead : List Token) {before : List Token}
    {base : Expr} (hbase : IsAtom room before base) :
    Yields (accesses nested ahead base) fun ts e => IsAtom room (before ++ ts) e := by
  induction ahead generalizing before base with
  | nil =>
    intro ts e rest h
    cases h
    exact ⟨[], rfl, by simpa using hbase⟩
  | cons _ ahead ih =>
    intro ts e rest h
    cases ts with
    | nil =>
      cases h
      exact ⟨[], rfl, by simpa using hbase⟩
    | cons token tail =>
      simp only [accesses, peek_bind, List.head?_cons] at h
      split at h
      · next hbracket =>
        simp only [skip_bind, List.tail_cons, bind_eq_ok, mark_eq_ok] at h
        obtain ⟨start, _, hstart, stop, _, hstop, close, _, ⟨rfl, hclose⟩, h⟩ := h
        obtain ⟨us, rfl, hus⟩ := hnested hstart
        obtain ⟨rfl, rfl⟩ | ⟨colon, _, stop, rfl, hcolon, rfl, hinner⟩ := optional_eq_ok hstop
        · obtain ⟨vs, rfl, hvs⟩ := ih (.index hbase hbracket hus hclose) h
          exact ⟨token :: us ++ close :: vs, by simp, by simpa using hvs⟩
        · obtain ⟨vs, rfl, hvs⟩ := hnested hinner
          obtain ⟨ws, rfl, hws⟩ := ih (.slice hbase hbracket hus hcolon hvs hclose) h
          exact ⟨token :: us ++ colon :: vs ++ close :: ws, by simp, by simpa using hws⟩
      · cases h
        exact ⟨[], rfl, by simpa using hbase⟩

theorem primary_yields {nested : Parser Expr} {room : Nat}
    (hnested : Yields nested (IsExpression room)) : Yields (primary nested) (IsAtom room) := by
  intro ts e rest h
  cases ts with
  | nil => cases h
  | cons token tail =>
    simp only [primary, peek_bind, List.head?_cons] at h
    cases hkind : token.kind with
    | literal value =>
      simp only [hkind] at h
      cases h
      exact ⟨[token], rfl, .literal hkind⟩
    | identifier name =>
      simp only [hkind, skip_bind, List.tail_cons, bind_eq_ok, eat_eq_ok] at h
      obtain ⟨_, middle, ⟨rfl, paren, rfl, hparen⟩ | ⟨rfl, rfl, _⟩, h⟩ := h
      · simp only [if_true, bind_eq_ok, pure_apply, Except.ok.injEq, Prod.mk.injEq] at h
        obtain ⟨es, _, hes, rfl, rfl⟩ := h
        obtain ⟨us, rfl, hus⟩ := commaSeparated_yields hnested _ hes
        have hcallee : IsCallee token.kind name := hkind ▸ .identifier name
        exact ⟨token :: paren :: us, rfl, .call hcallee hparen (isArguments_iff.mpr hus)⟩
      · cases h
        exact ⟨[token], rfl, .var hkind⟩
    | keyword word =>
      simp only [hkind] at h
      split at h
      · next htype =>
        simp only [skip_bind, List.tail_cons, bind_eq_ok, expect_eq_ok, pure_apply, Except.ok.injEq,
          Prod.mk.injEq] at h
        obtain ⟨paren, _, ⟨rfl, hparen⟩, es, _, hes, rfl, rfl⟩ := h
        obtain ⟨us, rfl, hus⟩ := commaSeparated_yields hnested _ hes
        have hcallee : IsCallee token.kind word.spelling := hkind ▸ .conversion htype
        exact ⟨token :: paren :: us, rfl, .call hcallee hparen (isArguments_iff.mpr hus)⟩
      · exact absurd h (unexpected_ne_ok _ _)
    | mark sign =>
      cases sign with
      | leftParen =>
        simp only [hkind, skip_bind, List.tail_cons, bind_eq_ok, mark_eq_ok, pure_apply,
          Except.ok.injEq, Prod.mk.injEq] at h
        obtain ⟨inside, _, hinside, close, _, ⟨rfl, hclose⟩, rfl, rfl⟩ := h
        obtain ⟨us, rfl, hus⟩ := hnested hinside
        exact ⟨token :: us ++ [close], by simp, .group hkind hus hclose⟩
      | _ =>
        simp only [hkind] at h
        exact absurd h (unexpected_ne_ok _ _)
    | _ =>
      simp only [hkind] at h
      exact absurd h (unexpected_ne_ok _ _)

theorem atom_yields {nested : Parser Expr} {room : Nat}
    (hnested : Yields nested (IsExpression room)) : Yields (atom nested) (IsAtom room) := by
  intro ts e rest h
  simp only [atom, bind_eq_ok, get_bind] at h
  obtain ⟨base, _, hbase, h⟩ := h
  obtain ⟨us, rfl, hus⟩ := primary_yields hnested hbase
  obtain ⟨vs, rfl, hvs⟩ := accesses_yields hnested _ hus h
  exact ⟨us ++ vs, by simp, hvs⟩

theorem prefixed_yields {below : Option (Parser Expr)} {atom : Parser Expr} {room : Nat}
    (hbelow : ∀ operand, below = some operand →
      ∃ less, room = less + 1 ∧ Yields operand (IsOperand less))
    (hatom : Yields atom (IsAtom room)) : Yields (prefixed below atom) (IsOperand room) := by
  have hplain : Yields atom (IsOperand room) := by
    intro ts e rest h
    obtain ⟨us, hts, hus⟩ := hatom h
    exact ⟨us, hts, .atom hus⟩
  intro ts e rest h
  cases ts with
  | nil => exact hplain h
  | cons token tail =>
    simp only [prefixed, peek_bind, List.head?_cons] at h
    cases hop : UnaryOp.ofKind? token.kind with
    | none =>
      simp only [hop] at h
      exact hplain h
    | some op =>
      cases below with
      | none =>
        simp only [hop] at h
        cases h
      | some operand =>
        simp only [hop, skip_bind, List.tail_cons, bind_eq_ok, pure_apply, Except.ok.injEq,
          Prod.mk.injEq] at h
        obtain ⟨inner, _, hinner, rfl, rfl⟩ := h
        obtain ⟨less, rfl, hoperand⟩ := hbelow operand rfl
        obtain ⟨us, rfl, hus⟩ := hoperand hinner
        exact ⟨token :: us, rfl, .unary hop hus⟩

theorem tooDeep_yields {α : Type} (phrase : List Token → α → Prop) : Yields tooDeep phrase := by
  intro ts a rest h
  cases h

theorem nested_yields {operand : Parser Expr} {room : Nat}
    (hoperand : Yields operand (IsOperand room)) :
    Yields (levels operand) (IsExpression (room + 1)) := by
  intro ts e rest h
  obtain ⟨us, hts, hus⟩ := levels_yields hoperand h
  exact ⟨us, hts, .nested hus⟩

theorem operand_yields (room : Nat) : Yields (operand room) (IsOperand room) := by
  induction room with
  | zero => exact prefixed_yields nofun (atom_yields (tooDeep_yields _))
  | succ room ih =>
    refine prefixed_yields ?_ (atom_yields (nested_yields ih))
    intro operand hoperand
    cases hoperand
    exact ⟨room, rfl, ih⟩

/-- An expression is read with the room that its derivation has. -/
theorem expression_yields (room : Nat) : Yields (expression room) (IsExpression room) := by
  cases room with
  | zero => exact tooDeep_yields _
  | succ room => exact nested_yields (operand_yields room)

theorem rangeOrExpression_yields {expression : Parser Expr} {room : Nat}
    (hexpression : Yields expression (IsExpression room)) :
    Yields (rangeOrExpression expression) (IsIterable room) := by
  intro ts e rest h
  simp only [rangeOrExpression, bind_eq_ok, peek_bind] at h
  obtain ⟨start, middle, hstart, h⟩ := h
  obtain ⟨us, rfl, hus⟩ := hexpression hstart
  cases middle with
  | nil =>
    cases h
    exact ⟨us, rfl, .expression hus⟩
  | cons colon tail =>
    simp only [List.head?_cons] at h
    split at h
    · next hcolon =>
      simp only [skip_bind, List.tail_cons, bind_eq_ok] at h
      obtain ⟨stop, _, hstop, step, _, hstep, h⟩ := h
      obtain ⟨vs, rfl, hvs⟩ := hexpression hstop
      obtain ⟨rfl, rfl⟩ | ⟨colon', _, step, rfl, hcolon', rfl, hinner⟩ := optional_eq_ok hstep
      · cases h
        exact ⟨us ++ colon :: vs, by simp, .range hus hcolon hvs⟩
      · cases h
        obtain ⟨ws, rfl, hws⟩ := hexpression hinner
        exact ⟨us ++ colon :: vs ++ colon' :: ws, by simp,
          .steppedRange hus hcolon hvs hcolon' hws⟩
    · cases h
      exact ⟨us, rfl, .expression hus⟩

/-! ### Declarations -/

theorem declaredType_yields : Yields declaredType IsDeclaredType := by
  intro ts declared rest h
  simp only [declaredType, bind_eq_ok, keyword_eq_ok, mark_eq_ok, typeName_eq_ok, pure_apply,
    Except.ok.injEq, Prod.mk.injEq] at h
  obtain ⟨word, _, ⟨rfl, hword⟩, paren, _, ⟨rfl, hparen⟩, ⟨type, name⟩, _, ⟨rfl, hname⟩, close, _,
    ⟨rfl, hclose⟩, rfl, rfl⟩ := h
  exact ⟨[word, paren, name, close], rfl, .named hword hparen hname hclose⟩

theorem declaredResult_yields : Yields declaredResult IsDeclaredResult := by
  intro ts declared rest h
  simp only [declaredResult, bind_eq_ok, peek_bind, keyword_eq_ok, mark_eq_ok] at h
  obtain ⟨word, _, ⟨rfl, hword⟩, paren, ahead, ⟨rfl, hparen⟩, h⟩ := h
  cases ahead with
  | nil => cases h
  | cons name tail =>
    simp only [List.head?_cons] at h
    split at h
    · next hname =>
      simp only [skip_bind, List.tail_cons, pure_apply, bind_eq_ok, mark_eq_ok, Except.ok.injEq,
        Prod.mk.injEq] at h
      obtain ⟨_, _, ⟨rfl, rfl⟩, close, _, ⟨rfl, hclose⟩, rfl, rfl⟩ := h
      exact ⟨[word, paren, name, close], rfl, .void hword hparen hname hclose⟩
    · simp only [bind_eq_ok, typeName_eq_ok, mark_eq_ok, pure_apply, Except.ok.injEq,
        Prod.mk.injEq] at h
      obtain ⟨named, _, ⟨hnamed, hname⟩, _, _, ⟨rfl, rfl⟩, close, _, ⟨rfl, hclose⟩, rfl, rfl⟩ := h
      rw [hnamed]
      exact ⟨[word, paren, named.token, close], rfl, .named hword hparen hname hclose⟩

section Expressions

variable {expression : Parser Expr} {room : Nat}

theorem initializer_yields (hexpression : Yields expression (IsExpression room)) :
    Yields (optional (.mark .assign) expression) (IsInitializer room) := by
  intro ts value rest h
  obtain ⟨rfl, rfl⟩ | ⟨sign, _, e, rfl, hsign, rfl, he⟩ := optional_eq_ok h
  · exact ⟨[], rfl, .absent⟩
  · obtain ⟨us, rfl, hus⟩ := hexpression he
    exact ⟨sign :: us, rfl, .given hsign hus⟩

theorem declarator_yields (hexpression : Yields expression (IsExpression room)) :
    Yields (declarator expression) (IsDeclarator room) := by
  intro ts d rest h
  simp only [declarator, bind_eq_ok, identifier_eq_ok, pure_apply, Except.ok.injEq,
    Prod.mk.injEq] at h
  obtain ⟨⟨name, token⟩, _, ⟨rfl, hname⟩, value, _, hvalue, rfl, rfl⟩ := h
  obtain ⟨us, rfl, hus⟩ := initializer_yields hexpression hvalue
  exact ⟨token :: us, rfl, .named hname hus⟩

theorem declaratorTail_yields (hexpression : Yields expression (IsExpression room))
    (ahead : List Token) :
    Yields (declaratorTail expression ahead) (IsMore (IsDeclarator room)) := by
  induction ahead with
  | nil =>
    intro ts ds rest h
    cases h
    exact ⟨[], rfl, .nil⟩
  | cons _ ahead ih =>
    intro ts ds rest h
    simp only [declaratorTail, bind_eq_ok, eat_eq_ok] at h
    obtain ⟨_, middle, ⟨rfl, comma, rfl, hcomma⟩ | ⟨rfl, rfl, _⟩, h⟩ := h
    · simp only [if_true, bind_eq_ok, pure_apply, Except.ok.injEq, Prod.mk.injEq] at h
      obtain ⟨d, _, hd, ds, _, hds, rfl, rfl⟩ := h
      obtain ⟨us, rfl, hus⟩ := declarator_yields hexpression hd
      obtain ⟨vs, rfl, hvs⟩ := ih hds
      exact ⟨comma :: us ++ vs, by simp, .cons hcomma hus hvs⟩
    · cases h
      exact ⟨[], rfl, .nil⟩

theorem varDecl_yields (hexpression : Yields expression (IsExpression room)) :
    Yields (varDecl expression) (IsVarDecl room) := by
  intro ts decl rest h
  simp only [varDecl, bind_eq_ok, get_bind, pure_apply, Except.ok.injEq, Prod.mk.injEq] at h
  obtain ⟨declared, _, hdeclared, first, _, hfirst, ds, _, hds, rfl, rfl⟩ := h
  obtain ⟨us, rfl, hus⟩ := declaredType_yields hdeclared
  obtain ⟨vs, rfl, hvs⟩ := declarator_yields hexpression hfirst
  obtain ⟨ws, rfl, hws⟩ := declaratorTail_yields hexpression _ hds
  exact ⟨us ++ vs ++ ws, by simp, .typed hus hvs hws⟩

theorem parameter_yields (hexpression : Yields expression (IsExpression room)) :
    Yields (parameter expression) (IsParameter room) := by
  intro ts param rest h
  simp only [parameter, bind_eq_ok, identifier_eq_ok, pure_apply, Except.ok.injEq,
    Prod.mk.injEq] at h
  obtain ⟨declared, _, hdeclared, ⟨name, token⟩, _, ⟨rfl, hname⟩, value, _, hvalue, rfl, rfl⟩ := h
  obtain ⟨us, rfl, hus⟩ := declaredType_yields hdeclared
  obtain ⟨vs, rfl, hvs⟩ := initializer_yields hexpression hvalue
  exact ⟨us ++ token :: vs, by simp, .typed hus hname hvs⟩

end Expressions

/-! ### Statements -/

section Nested

variable {expression : Parser Expr} {block : Parser (List Statement)} {room : Nat}

theorem alternatives_yields (hexpression : Yields expression (IsExpression room))
    (hblock : Yields block (IsBlock room)) (ahead : List Token) :
    Yields (alternatives expression block ahead) (IsAlternative room) := by
  induction ahead with
  | nil =>
    intro ts otherwise rest h
    cases h
    exact ⟨[], rfl, .absent⟩
  | cons _ ahead ih =>
    intro ts otherwise rest h
    simp only [alternatives, bind_eq_ok, eat_eq_ok] at h
    obtain ⟨_, middle, ⟨rfl, word, rfl, hword⟩ | ⟨rfl, rfl, _⟩, h⟩ := h
    · simp only [if_true, bind_eq_ok, pure_apply, Except.ok.injEq, Prod.mk.injEq] at h
      obtain ⟨condition, _, hcondition, body, _, hbody, last, _, hlast, rfl, rfl⟩ := h
      obtain ⟨us, rfl, hus⟩ := hexpression hcondition
      obtain ⟨vs, rfl, hvs⟩ := hblock hbody
      obtain ⟨ws, rfl, hws⟩ := ih hlast
      exact ⟨word :: us ++ vs ++ ws, by simp, .elseif hword hus hvs hws⟩
    · simp only [Bool.false_eq_true, if_false, bind_eq_ok, eat_eq_ok] at h
      obtain ⟨_, middle, ⟨rfl, word, rfl, hword⟩ | ⟨rfl, rfl, _⟩, h⟩ := h
      · simp only [if_true, bind_eq_ok, pure_apply, Except.ok.injEq, Prod.mk.injEq] at h
        obtain ⟨body, _, hbody, rfl, rfl⟩ := h
        obtain ⟨us, rfl, hus⟩ := hblock hbody
        exact ⟨word :: us, rfl, .otherwise hword hus⟩
      · cases h
        exact ⟨[], rfl, .absent⟩

theorem conditional_yields (hexpression : Yields expression (IsExpression room))
    (hblock : Yields block (IsBlock room)) :
    Yields (conditional expression block) (IsStatement room) := by
  intro ts s rest h
  simp only [conditional, bind_eq_ok, get_bind, keyword_eq_ok, pure_apply, Except.ok.injEq,
    Prod.mk.injEq] at h
  obtain ⟨word, _, ⟨rfl, hword⟩, condition, _, hcondition, body, _, hbody, otherwise, _, hotherwise,
    rfl, rfl⟩ := h
  obtain ⟨us, rfl, hus⟩ := hexpression hcondition
  obtain ⟨vs, rfl, hvs⟩ := hblock hbody
  obtain ⟨ws, rfl, hws⟩ := alternatives_yields hexpression hblock _ hotherwise
  exact ⟨word :: us ++ vs ++ ws, by simp, .conditional hword hus hvs hws⟩

theorem whileLoop_yields (hexpression : Yields expression (IsExpression room))
    (hblock : Yields block (IsBlock room)) :
    Yields (whileLoop expression block) (IsStatement room) := by
  intro ts s rest h
  simp only [whileLoop, bind_eq_ok, keyword_eq_ok, pure_apply, Except.ok.injEq,
    Prod.mk.injEq] at h
  obtain ⟨word, _, ⟨rfl, hword⟩, condition, _, hcondition, body, _, hbody, rfl, rfl⟩ := h
  obtain ⟨us, rfl, hus⟩ := hexpression hcondition
  obtain ⟨vs, rfl, hvs⟩ := hblock hbody
  exact ⟨word :: us ++ vs, by simp, .whileLoop hword hus hvs⟩

theorem function_yields (hexpression : Yields expression (IsExpression room))
    (hblock : Yields block (IsBlock room)) :
    Yields (function expression block) (IsStatement room) := by
  intro ts s rest h
  simp only [function, bind_eq_ok, identifier_eq_ok, mark_eq_ok, pure_apply, Except.ok.injEq,
    Prod.mk.injEq] at h
  obtain ⟨returns, _, hreturns, ⟨name, token⟩, _, ⟨rfl, hname⟩, paren, _, ⟨rfl, hparen⟩, params, _,
    hparams, body, _, hbody, rfl, rfl⟩ := h
  obtain ⟨us, rfl, hus⟩ := declaredResult_yields hreturns
  obtain ⟨vs, rfl, hvs⟩ := commaSeparated_yields (parameter_yields hexpression) _ hparams
  obtain ⟨ws, rfl, hws⟩ := hblock hbody
  exact ⟨us ++ token :: paren :: vs ++ ws, by simp, .function hus hname hparen hvs hws⟩

theorem returnFrom_yields (hexpression : Yields expression (IsExpression room)) :
    Yields (returnFrom expression) (IsStatement room) := by
  intro ts s rest h
  simp only [returnFrom, bind_eq_ok, keyword_eq_ok, eat_eq_ok] at h
  obtain ⟨word, _, ⟨rfl, hword⟩, _, middle, ⟨rfl, semicolon, rfl, hend⟩ | ⟨rfl, rfl, _⟩, h⟩ := h
  · cases h
    exact ⟨[word, semicolon], rfl, .returnNothing hword hend⟩
  · simp only [Bool.false_eq_true, if_false, bind_eq_ok, mark_eq_ok, pure_apply, Except.ok.injEq,
      Prod.mk.injEq] at h
    obtain ⟨value, _, hvalue, semicolon, _, ⟨rfl, hend⟩, rfl, rfl⟩ := h
    obtain ⟨us, rfl, hus⟩ := hexpression hvalue
    exact ⟨word :: us ++ [semicolon], by simp, .returnValue hword hus hend⟩

theorem forLoop_yields (hexpression : Yields expression (IsExpression room))
    (hblock : Yields block (IsBlock room)) :
    Yields (forLoop expression block) (IsStatement room) := by
  intro ts s rest h
  simp only [forLoop, bind_eq_ok, keyword_eq_ok] at h
  obtain ⟨word, _, ⟨rfl, hword⟩, decl, middle, hdecl, h⟩ := h
  obtain ⟨us, rfl, hus⟩ := varDecl_yields hexpression hdecl
  cases hus with
  | typed htype hfirst hrest =>
    -- The header is read as any declaration, and then turned down if it declares too much.
    cases hrest with
    | cons _ _ _ => cases h
    | nil =>
      cases hfirst with
      | named hname hvalue =>
        cases hvalue with
        | given _ _ => cases h
        | absent =>
          simp only [Option.isSome_none, Bool.false_eq_true, if_false, bind_eq_ok, keyword_eq_ok,
            pure_apply, Except.ok.injEq, Prod.mk.injEq] at h
          obtain ⟨within, _, ⟨rfl, hwithin⟩, iterable, _, hiterable, body, _, hbody, rfl, rfl⟩ := h
          obtain ⟨vs, rfl, hvs⟩ := rangeOrExpression_yields hexpression hiterable
          obtain ⟨ws, rfl, hws⟩ := hblock hbody
          exact ⟨_, by simp, .forLoop hword htype hname hwithin hvs hws⟩

theorem expressionStatement_yields (hexpression : Yields expression (IsExpression room)) :
    Yields (expressionStatement expression) (IsStatement room) := by
  intro ts s rest h
  simp only [expressionStatement, bind_eq_ok, peek_bind] at h
  obtain ⟨e, middle, he, h⟩ := h
  obtain ⟨us, rfl, hus⟩ := hexpression he
  cases middle with
  | nil => cases h
  | cons token tail =>
    simp only [List.head?_cons] at h
    split at h
    · cases h
    · simp only [bind_eq_ok, mark_eq_ok, pure_apply, Except.ok.injEq, Prod.mk.injEq] at h
      obtain ⟨semicolon, _, ⟨hsemicolon, hend⟩, rfl, rfl⟩ := h
      rw [hsemicolon]
      exact ⟨us ++ [semicolon], by simp, .expression hus hend⟩

theorem assignmentOrExpression_yields (hexpression : Yields expression (IsExpression room)) :
    Yields (assignmentOrExpression expression) (IsStatement room) := by
  intro ts s rest h
  match ts with
  | [] => exact expressionStatement_yields hexpression h
  | [token] => exact expressionStatement_yields hexpression h
  | target :: sign :: tail =>
    simp only [assignmentOrExpression, get_bind] at h
    cases htarget : target.kind with
    | identifier name =>
      cases hop : AssignOp.ofKind? sign.kind with
      | some op =>
        simp only [htarget, hop, set_bind, bind_eq_ok, mark_eq_ok, pure_apply, Except.ok.injEq,
          Prod.mk.injEq] at h
        obtain ⟨value, _, hvalue, semicolon, _, ⟨rfl, hend⟩, rfl, rfl⟩ := h
        obtain ⟨us, rfl, hus⟩ := hexpression hvalue
        exact ⟨target :: sign :: us ++ [semicolon], by simp, .assignment htarget hop hus hend⟩
      | none =>
        simp only [htarget, hop] at h
        exact expressionStatement_yields hexpression h
    | _ =>
      simp only [htarget] at h
      exact expressionStatement_yields hexpression h

theorem statementWith_yields (hexpression : Yields expression (IsExpression room))
    (hblock : Yields block (IsBlock room)) :
    Yields (statementWith expression block) (IsStatement room) := by
  intro ts s rest h
  cases ts with
  | nil => cases h
  | cons token tail =>
    simp only [statementWith, peek_bind, List.head?_cons] at h
    cases hkind : token.kind with
    | mark sign =>
      cases sign with
      | semicolon =>
        simp only [hkind] at h
        cases h
        exact ⟨[token], rfl, .empty hkind⟩
      | _ =>
        simp only [hkind] at h
        exact assignmentOrExpression_yields hexpression h
    | keyword word =>
      cases word with
      | kwVar =>
        simp only [hkind, bind_eq_ok, mark_eq_ok, pure_apply, Except.ok.injEq, Prod.mk.injEq] at h
        obtain ⟨decl, _, hdecl, semicolon, _, ⟨rfl, hend⟩, rfl, rfl⟩ := h
        obtain ⟨us, hsplit, hus⟩ := varDecl_yields hexpression hdecl
        exact ⟨us ++ [semicolon], by simpa using hsplit, .declaration hus hend⟩
      | kwIf =>
        simp only [hkind] at h
        exact conditional_yields hexpression hblock h
      | kwWhile =>
        simp only [hkind] at h
        exact whileLoop_yields hexpression hblock h
      | kwFor =>
        simp only [hkind] at h
        exact forLoop_yields hexpression hblock h
      | kwBreak =>
        simp only [hkind, skip_bind, List.tail_cons, bind_eq_ok, mark_eq_ok, pure_apply,
          Except.ok.injEq, Prod.mk.injEq] at h
        obtain ⟨semicolon, _, ⟨rfl, hend⟩, rfl, rfl⟩ := h
        exact ⟨[token, semicolon], rfl, .breakLoop hkind hend⟩
      | kwContinue =>
        simp only [hkind, skip_bind, List.tail_cons, bind_eq_ok, mark_eq_ok, pure_apply,
          Except.ok.injEq, Prod.mk.injEq] at h
        obtain ⟨semicolon, _, ⟨rfl, hend⟩, rfl, rfl⟩ := h
        exact ⟨[token, semicolon], rfl, .continueLoop hkind hend⟩
      | kwReturn =>
        simp only [hkind] at h
        exact returnFrom_yields hexpression h
      | kwFunc =>
        simp only [hkind] at h
        exact function_yields hexpression hblock h
      | _ =>
        simp only [hkind] at h
        exact assignmentOrExpression_yields hexpression h
    | _ =>
      simp only [hkind] at h
      exact assignmentOrExpression_yields hexpression h

end Nested

/-- A list of statements ends where its closing token or the end of the source comes next, or where
nothing does. -/
theorem statementItems_yields {statement : Parser Statement} {room : Nat}
    (hstatement : Yields statement (IsStatement room)) (closing : TokenKind) (ahead : List Token) :
    Yields (statementItems statement closing ahead) (IsStatements room) := by
  induction ahead with
  | nil =>
    intro ts body rest h
    cases h
    exact ⟨[], rfl, .nil⟩
  | cons _ ahead ih =>
    intro ts body rest h
    cases ts with
    | nil =>
      cases h
      exact ⟨[], rfl, .nil⟩
    | cons token tail =>
      simp only [statementItems, peek_bind, List.head?_cons] at h
      split at h
      · cases h
        exact ⟨[], rfl, .nil⟩
      · simp only [bind_eq_ok, pure_apply, Except.ok.injEq, Prod.mk.injEq] at h
        obtain ⟨first, _, hfirst, more, _, hmore, rfl, rfl⟩ := h
        obtain ⟨us, hsplit, hus⟩ := hstatement hfirst
        obtain ⟨vs, rfl, hvs⟩ := ih hmore
        exact ⟨us ++ vs, by simpa using hsplit, .cons hus hvs⟩

theorem statements_yields {statement : Parser Statement} {room : Nat}
    (hstatement : Yields statement (IsStatement room)) (closing : TokenKind) :
    Yields (statements statement closing) (IsStatements room) :=
  fun ts _ _ h => statementItems_yields hstatement closing ts h

theorem blockOf_yields {statement : Parser Statement} {room : Nat}
    (hstatement : Yields statement (IsStatement room)) :
    Yields (blockOf statement) (IsBlock (room + 1)) := by
  intro ts body rest h
  simp only [blockOf, bind_eq_ok, mark_eq_ok, pure_apply, Except.ok.injEq, Prod.mk.injEq] at h
  obtain ⟨brace, _, ⟨rfl, hbrace⟩, body, _, hbody, close, _, ⟨rfl, hclose⟩, rfl, rfl⟩ := h
  obtain ⟨us, rfl, hus⟩ := statements_yields hstatement _ hbody
  exact ⟨brace :: us ++ [close], by simp, .nested hbrace hus hclose⟩

/-- A statement is read with the room that its derivation has. -/
theorem statement_yields (room : Nat) : Yields (statement room) (IsStatement room) := by
  induction room with
  | zero => exact statementWith_yields (expression_yields 0) (tooDeep_yields _)
  | succ room ih => exact statementWith_yields (expression_yields (room + 1)) (blockOf_yields ih)

end ScopedScript.Parser
