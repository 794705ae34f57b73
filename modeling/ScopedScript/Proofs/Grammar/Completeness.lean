import ScopedScript.Proofs.Grammar.Soundness
import ScopedScript.Proofs.Grammar.Tokens

/-!
# What the grammar derives is read

A reader takes exactly the tokens of a phrase, as long as nothing behind them could be taken for
more of it. What that forbids is small: behind an expression no operator, no parenthesis and no
bracket, and behind a statement no further branch of a conditional.

The loops of the readers are bounded by the tokens ahead. An expression grows to its left, so there
the statement is that the loop has come to where the phrase ends, with at least as many rounds left
as there are tokens.
-/

namespace ScopedScript.Parser

open Grammar

/-! ## Running readers -/

/-- What comes next, if anything does, is of such a kind. -/
def Next (p : TokenKind → Prop) (rest : List Token) : Prop :=
  ∀ token, rest.head? = some token → p token.kind

@[simp] theorem next_nil {p : TokenKind → Prop} : Next p [] := nofun

@[simp] theorem next_cons {p : TokenKind → Prop} {token : Token} {rest : List Token} :
    Next p (token :: rest) ↔ p token.kind := by
  simp [Next]

theorem Next.imp {p q : TokenKind → Prop} {rest : List Token} (h : Next p rest)
    (hpq : ∀ kind, p kind → q kind) : Next q rest :=
  fun token htoken => hpq _ (h token htoken)

/-- A reader takes the tokens of a phrase, whatever follows them as long as it begins with a token
of such a kind. -/
def Reads {α : Type} (reader : Parser α) (phrase : List Token → α → Prop)
    (follow : TokenKind → Prop) : Prop :=
  ∀ ⦃ts : List Token⦄ ⦃a : α⦄ ⦃rest : List Token⦄, phrase ts a → Next follow rest →
    reader (ts ++ rest) = .ok (a, rest)

section Tokens

variable {kind : TokenKind} {token : Token} {ts rest : List Token}

theorem eat_of_next (h : Next (· ≠ kind) ts) : eat kind ts = .ok (false, ts) :=
  eat_eq_ok.mpr (.inr ⟨rfl, rfl, h⟩)

theorem eat_cons (h : token.kind = kind) : eat kind (token :: rest) = .ok (true, rest) :=
  eat_eq_ok.mpr (.inl ⟨rfl, token, rfl, h⟩)

theorem mark_cons {sign : Mark} (h : token.kind = .mark sign) :
    mark sign (token :: rest) = .ok (token, rest) :=
  mark_eq_ok.mpr ⟨rfl, h⟩

theorem keyword_cons {word : Keyword} (h : token.kind = .keyword word) :
    keyword word (token :: rest) = .ok (token, rest) :=
  keyword_eq_ok.mpr ⟨rfl, h⟩

theorem identifier_cons {name : String} (h : token.kind = .identifier name) :
    identifier (token :: rest) = .ok ((name, token), rest) :=
  identifier_eq_ok.mpr ⟨rfl, h⟩

variable {α : Type} {reader : Parser α}

theorem optional_of_next (h : Next (· ≠ kind) ts) : optional kind reader ts = .ok (none, ts) :=
  bind_eq_ok.mpr ⟨false, ts, eat_of_next h, rfl⟩

theorem optional_cons {a : α} (h : token.kind = kind) (ha : reader ts = .ok (a, rest)) :
    optional kind reader (token :: ts) = .ok (some a, rest) :=
  bind_eq_ok.mpr ⟨true, ts, eat_cons h, bind_eq_ok.mpr ⟨a, rest, ha, rfl⟩⟩

end Tokens

/-! ## Lists -/

section Lists

variable {α : Type} {item : Parser α} {phrase : List Token → α → Prop} {follow : TokenKind → Prop}
  {closing : Mark}

theorem commaTail_reads (hitem : Reads item phrase follow) (hcomma : follow (.mark .comma))
    (hclosing : follow (.mark closing)) (hne : closing ≠ .comma) {ts rest ahead : List Token}
    {items : List α} {close : Token} (h : IsMore phrase ts items)
    (hclose : close.kind = .mark closing) (hahead : ts.length < ahead.length) :
    commaTail item closing ahead (ts ++ close :: rest) = .ok (items, rest) := by
  induction h generalizing ahead with
  | nil =>
    cases ahead with
    | nil => simp at hahead
    | cons _ ahead =>
      simp only [commaTail, List.nil_append, peek_bind, List.head?_cons, hclose,
        TokenKind.mark.injEq, hne, if_false, if_true]
      rfl
  | @cons comma us vs a items hsign h hrest ih =>
    cases ahead with
    | nil => simp at hahead
    | cons _ ahead =>
      have hnext : Next follow (vs ++ close :: rest) := by
        cases hrest with
        | nil => simpa [hclose] using hclosing
        | cons hsign _ _ => simpa [hsign] using hcomma
      have hlength : vs.length < ahead.length := by
        simp only [List.length_append, List.length_cons] at hahead
        omega
      simp only [commaTail, List.cons_append, List.append_assoc, peek_bind, List.head?_cons, hsign,
        if_true, skip_bind, List.tail_cons]
      refine bind_eq_ok.mpr ⟨a, _, hitem h hnext, ?_⟩
      exact bind_eq_ok.mpr ⟨items, rest, ih hlength, rfl⟩

theorem commaSeparated_reads (hitem : Reads item phrase follow) (hcomma : follow (.mark .comma))
    (hclosing : follow (.mark closing)) (hne : closing ≠ .comma)
    (hopens : ∀ {ts a}, phrase ts a →
      ∃ token tail, ts = token :: tail ∧ token.kind ≠ .mark closing) :
    Reads (commaSeparated item closing) (IsList phrase closing) fun _ => True := by
  intro ts items rest h _
  cases h with
  | empty hclose => exact bind_eq_ok.mpr ⟨true, rest, eat_cons hclose, rfl⟩
  | @items close ts us a items hfirst hmore hclose =>
    have hnext : Next follow (us ++ close :: rest) := by
      cases hmore with
      | nil => simpa [hclose] using hclosing
      | cons hsign _ _ => simpa [hsign] using hcomma
    have hopen : Next (· ≠ .mark closing) (ts ++ (us ++ close :: rest)) := by
      obtain ⟨token, tail, rfl, htoken⟩ := hopens hfirst
      exact next_cons.mpr htoken
    rw [List.append_assoc, List.append_assoc, List.singleton_append]
    refine bind_eq_ok.mpr ⟨false, _, eat_of_next hopen, ?_⟩
    simp only [Bool.false_eq_true, if_false]
    refine bind_eq_ok.mpr ⟨a, _, hitem hfirst hnext, ?_⟩
    rw [get_bind]
    refine bind_eq_ok.mpr ⟨items, rest, ?_, rfl⟩
    exact commaTail_reads hitem hcomma hclosing hne hmore hclose (by simp)

end Lists

/-! ## Expressions -/

/-- A token that goes on with no expression of a level: it neither calls nor looks into what stands
before it, and it is no operator that binds as tightly. -/
def Halts (level : Nat) (kind : TokenKind) : Prop :=
  kind ≠ .mark .leftParen ∧ kind ≠ .mark .leftBracket ∧
    ∀ op, BinaryOp.ofKind? kind = some op → op.precedence < level

theorem Halts.mono {level level' : Nat} {kind : TokenKind} (h : Halts level kind)
    (hle : level ≤ level') : Halts level' kind :=
  ⟨h.1, h.2.1, fun op hop => Nat.lt_of_lt_of_le (h.2.2 op hop) hle⟩

theorem halts_of_operator {kind : TokenKind} {op : BinaryOp}
    (hop : BinaryOp.ofKind? kind = some op) : Halts (op.precedence + 1) kind := by
  refine ⟨?_, ?_, ?_⟩
  · rintro rfl
    cases hop
  · rintro rfl
    cases hop
  · intro op' hop'
    rw [hop] at hop'
    cases hop'
    exact Nat.lt_succ_self _

section Operators

variable {operand : Parser Expr} {level room : Nat}

theorem operatorTail_of_next {rest ahead : List Token} {e : Expr}
    (h : Next (Halts level) rest) : operatorTail operand level ahead e rest = .ok (e, rest) := by
  cases ahead with
  | nil => rfl
  | cons _ ahead =>
    have hnone : operator? level rest = .ok (none, rest) := by
      cases rest with
      | nil => rfl
      | cons token tail =>
        simp only [operator?, peek_bind, List.head?_cons]
        cases hop : BinaryOp.ofKind? token.kind with
        | none => rfl
        | some op =>
          have hlt : op.precedence < level := (next_cons.mp h).2.2 op hop
          simp [Nat.ne_of_lt hlt]
    exact bind_eq_ok.mpr ⟨none, rest, hnone, rfl⟩

theorem operatorTail_cons {token sign : Token} {ahead ts rest : List Token} {left right : Expr}
    {op : BinaryOp} (hop : BinaryOp.ofKind? sign.kind = some op) (hlevel : op.precedence = level)
    (hright : operand ts = .ok (right, rest)) :
    operatorTail operand level (token :: ahead) left (sign :: ts) =
      operatorTail operand level ahead (.binary left op right sign) rest := by
  have hsome : operator? level (sign :: ts) = .ok (some (op, sign), ts) := by
    simp only [operator?, peek_bind, List.head?_cons, hop, hlevel, if_true]
    rfl
  simp only [operatorTail, bind, StateT.bind, hsome, Except.bind, hright]

theorem leftAssociative_of_operand {ts rest : List Token} {e : Expr}
    (h : operand ts = .ok (e, rest)) :
    leftAssociative operand level ts = operatorTail operand level rest e rest := by
  simp only [leftAssociative, bind, StateT.bind, h, Except.bind]
  rfl

/-- Reading comes to the end of a phrase of a level, where only the loop for further operators of
that level is left to run. -/
theorem leftAssociative_eq_operatorTail {operand : Parser Expr} {room : Nat} {rest : List Token} :
    ∀ {level : Nat} {ts : List Token} {e : Expr}, IsLevel level room ts e → level < 7 →
      Reads operand (IsLevel (level + 1) room) (Halts (level + 1)) →
      Next (Halts (level + 1)) rest → ∃ ahead, rest.length ≤ ahead.length ∧
        leftAssociative operand level (ts ++ rest) = operatorTail operand level ahead e rest
  | _, _, _, .operand _, hlevel, _, _ => absurd hlevel (Nat.lt_irrefl 7)
  | _, _, _, .tighter _ h, _, hoperand, hrest =>
    ⟨rest, Nat.le_refl _, leftAssociative_of_operand (hoperand h hrest)⟩
  | level, _, _, @IsLevel.binary _ _ us vs sign _ _ _ hop hprecedence hleft hright, hlevel,
      hoperand, hrest => by
    have hsign : Next (Halts (level + 1)) (sign :: (vs ++ rest)) := by
      rw [next_cons, ← hprecedence]
      exact halts_of_operator hop
    obtain ⟨ahead, hlength, hahead⟩ := leftAssociative_eq_operatorTail hleft hlevel hoperand hsign
    cases ahead with
    | nil => exact absurd hlength (Nat.not_succ_le_zero _)
    | cons token ahead =>
      refine ⟨ahead, ?_, ?_⟩
      · simp only [List.length_cons, List.length_append] at hlength
        omega
      · rw [List.append_assoc, List.cons_append, hahead]
        exact operatorTail_cons hop hprecedence (hoperand hright hrest)

theorem leftAssociative_reads
    (hoperand : Reads operand (IsLevel (level + 1) room) (Halts (level + 1))) (hlevel : level < 7) :
    Reads (leftAssociative operand level) (IsLevel level room) (Halts level) := by
  intro ts e rest h hrest
  have hweak : Next (Halts (level + 1)) rest := hrest.imp fun _ h => h.mono (Nat.le_succ _)
  obtain ⟨ahead, _, hahead⟩ := leftAssociative_eq_operatorTail h hlevel hoperand hweak
  rw [hahead]
  exact operatorTail_of_next hrest

theorem levels_reads (hoperand : Reads operand (IsOperand room) (Halts 7)) :
    Reads (levels operand) (IsLevel 1 room) (Halts 1) := by
  have h7 : Reads operand (IsLevel 7 room) (Halts 7) := by
    intro ts e rest h hrest
    cases h with
    | operand h => exact hoperand h hrest
    | tighter hlevel _ => exact absurd hlevel (Nat.lt_irrefl 7)
    | @binary _ _ _ _ _ _ _ op _ hprecedence _ _ =>
      have hle := op.precedence_le_six
      omega
  have h6 : Reads (leftAssociative operand 6) (IsLevel 6 room) (Halts 6) :=
    leftAssociative_reads h7 (by decide)
  have h5 : Reads (leftAssociative _ 5) (IsLevel 5 room) (Halts 5) :=
    leftAssociative_reads h6 (by decide)
  have h4 : Reads (leftAssociative _ 4) (IsLevel 4 room) (Halts 4) :=
    leftAssociative_reads h5 (by decide)
  have h3 : Reads (leftAssociative _ 3) (IsLevel 3 room) (Halts 3) :=
    leftAssociative_reads h4 (by decide)
  have h2 : Reads (leftAssociative _ 2) (IsLevel 2 room) (Halts 2) :=
    leftAssociative_reads h3 (by decide)
  exact leftAssociative_reads h2 (by decide)

end Operators

/-- The signs behind expressions, none of which goes on with one. -/
def closingSigns : List Mark :=
  [.rightParen, .rightBracket, .leftBrace, .colon, .comma, .semicolon]

theorem halts_of_mem {level : Nat} {sign : Mark} (h : sign ∈ closingSigns) :
    Halts level (.mark sign) := by
  simp only [closingSigns, List.mem_cons, List.not_mem_nil, or_false] at h
  rcases h with rfl | rfl | rfl | rfl | rfl | rfl <;> exact ⟨nofun, nofun, nofun⟩

theorem next_halts {level : Nat} {token : Token} {rest : List Token} {sign : Mark}
    (htoken : token.kind = .mark sign) (hsign : sign ∈ closingSigns) :
    Next (Halts level) (token :: rest) := by
  rw [next_cons, htoken]
  exact halts_of_mem hsign

section Atoms

variable {nested : Parser Expr} {room : Nat}

theorem arguments_reads (hnested : Reads nested (IsExpression room) (Halts 1)) :
    Reads (commaSeparated nested .rightParen) (IsArguments room) fun _ => True := by
  intro ts es rest h hrest
  refine commaSeparated_reads hnested (halts_of_mem (by decide)) (halts_of_mem (by decide))
    (by decide) ?_ (isArguments_iff.mp h) hrest
  intro ts e h
  exact IsExpression.opens_ne h rfl

theorem atom_of_primary {ts rest : List Token} {e : Expr} (h : primary nested ts = .ok (e, rest)) :
    atom nested ts = accesses nested rest e rest := by
  simp only [atom, bind, StateT.bind, h, Except.bind]
  rfl

theorem accesses_of_next {ahead rest : List Token} {e : Expr}
    (h : Next (· ≠ .mark .leftBracket) rest) : accesses nested ahead e rest = .ok (e, rest) := by
  cases ahead with
  | nil => rfl
  | cons _ ahead =>
    cases rest with
    | nil => rfl
    | cons token tail =>
      simp only [accesses, peek_bind, List.head?_cons, next_cons.mp h, if_false]
      rfl

theorem accesses_index (hnested : Reads nested (IsExpression room) (Halts 1))
    {first bracket close : Token} {ahead us rest : List Token} {base position : Expr}
    (hbracket : bracket.kind = .mark .leftBracket) (h : IsExpression room us position)
    (hclose : close.kind = .mark .rightBracket) :
    accesses nested (first :: ahead) base (bracket :: us ++ close :: rest) =
      accesses nested ahead (.index base position bracket) rest := by
  have hposition : nested (us ++ close :: rest) = .ok (position, close :: rest) :=
    hnested h (next_halts hclose (by decide))
  have hstop : optional (.mark .colon) nested (close :: rest) = .ok (none, close :: rest) :=
    optional_of_next (next_cons.mpr (by simp [hclose]))
  simp only [accesses, List.cons_append, peek_bind, List.head?_cons, hbracket, if_true, skip_bind,
    List.tail_cons]
  simp only [bind, StateT.bind, hposition, Except.bind, hstop, mark_cons hclose]

theorem accesses_slice (hnested : Reads nested (IsExpression room) (Halts 1))
    {first bracket colon close : Token} {ahead us vs rest : List Token} {base start stop : Expr}
    (hbracket : bracket.kind = .mark .leftBracket) (hstart : IsExpression room us start)
    (hcolon : colon.kind = .mark .colon) (hstop : IsExpression room vs stop)
    (hclose : close.kind = .mark .rightBracket) :
    accesses nested (first :: ahead) base (bracket :: us ++ colon :: vs ++ close :: rest) =
      accesses nested ahead (.slice base start stop bracket) rest := by
  have hstart : nested (us ++ colon :: (vs ++ close :: rest)) = .ok (start, _) :=
    hnested hstart (next_halts hcolon (by decide))
  have hstop : nested (vs ++ close :: rest) = .ok (stop, close :: rest) :=
    hnested hstop (next_halts hclose (by decide))
  have hstop := optional_cons hcolon hstop
  simp only [accesses, List.cons_append, List.append_assoc, peek_bind, List.head?_cons, hbracket,
    if_true, skip_bind, List.tail_cons]
  simp only [bind, StateT.bind, hstart, Except.bind, hstop, mark_cons hclose]

theorem primary_call (hnested : Reads nested (IsExpression room) (Halts 1)) {token paren : Token}
    {ts rest : List Token} {name : String} {es : List Expr} (hname : IsCallee token.kind name)
    (hparen : paren.kind = .mark .leftParen) (h : IsArguments room ts es) :
    primary nested (token :: paren :: ts ++ rest) = .ok (.call name es false token, rest) := by
  have hargs : commaSeparated nested .rightParen (ts ++ rest) = .ok (es, rest) :=
    arguments_reads hnested h fun _ _ => trivial
  simp only [primary, List.cons_append, peek_bind, List.head?_cons]
  generalize hkind : token.kind = kind at hname
  cases hname with
  | identifier _ =>
    simp only [skip_bind, List.tail_cons]
    refine bind_eq_ok.mpr ⟨true, _, eat_cons hparen, ?_⟩
    exact bind_eq_ok.mpr ⟨es, rest, hargs, rfl⟩
  | conversion htype =>
    simp only [htype, if_true, skip_bind, List.tail_cons]
    refine bind_eq_ok.mpr ⟨paren, _, expect_eq_ok.mpr ⟨rfl, hparen⟩, ?_⟩
    exact bind_eq_ok.mpr ⟨es, rest, hargs, rfl⟩

theorem primary_literal {token : Token} {rest : List Token} {value : Value}
    (h : token.kind = .literal value) :
    primary nested (token :: rest) = .ok (.literal value token, rest) := by
  simp only [primary, peek_bind, List.head?_cons, h]
  rfl

theorem primary_var {token : Token} {rest : List Token} {name : String}
    (h : token.kind = .identifier name) (hrest : Next (· ≠ .mark .leftParen) rest) :
    primary nested (token :: rest) = .ok (.var name token, rest) := by
  simp only [primary, peek_bind, List.head?_cons, h, skip_bind, List.tail_cons]
  exact bind_eq_ok.mpr ⟨false, rest, eat_of_next hrest, rfl⟩

theorem primary_group (hnested : Reads nested (IsExpression room) (Halts 1)) {paren close : Token}
    {ts rest : List Token} {e : Expr} (hparen : paren.kind = .mark .leftParen)
    (h : IsExpression room ts e) (hclose : close.kind = .mark .rightParen) :
    primary nested (paren :: (ts ++ [close]) ++ rest) = .ok (e, rest) := by
  simp only [primary, List.cons_append, List.append_assoc, List.nil_append, peek_bind,
    List.head?_cons, hparen, skip_bind, List.tail_cons]
  refine bind_eq_ok.mpr ⟨e, _, hnested h (next_halts hclose (by decide)), ?_⟩
  exact bind_eq_ok.mpr ⟨close, rest, mark_cons hclose, rfl⟩

/-- Reading comes to the end of an atom, where only the loop for further accesses is left to run. -/
theorem atom_eq_accesses (hnested : Reads nested (IsExpression room) (Halts 1)) :
    ∀ {ts rest : List Token} {e : Expr}, IsAtom room ts e → Next (· ≠ .mark .leftParen) rest →
      ∃ ahead, rest.length ≤ ahead.length ∧ atom nested (ts ++ rest) = accesses nested ahead e rest
  | _, rest, _, .literal h, _ => ⟨rest, Nat.le_refl _, atom_of_primary (primary_literal h)⟩
  | _, rest, _, .var h, hrest => ⟨rest, Nat.le_refl _, atom_of_primary (primary_var h hrest)⟩
  | _, rest, _, .call hname hparen h, _ =>
    ⟨rest, Nat.le_refl _, atom_of_primary (primary_call hnested hname hparen h)⟩
  | _, rest, _, .group hparen h hclose, _ =>
    ⟨rest, Nat.le_refl _, atom_of_primary (primary_group hnested hparen h hclose)⟩
  | _, rest, _, @IsAtom.index _ bracket close ts us _ _ hbase hbracket h hclose, _ => by
    have hnext : Next (· ≠ .mark .leftParen) (bracket :: us ++ close :: rest) :=
      next_cons.mpr (by rw [hbracket]; decide)
    obtain ⟨ahead, hlength, hahead⟩ := atom_eq_accesses hnested hbase hnext
    cases ahead with
    | nil => exact absurd hlength (Nat.not_succ_le_zero _)
    | cons first ahead =>
      refine ⟨ahead, ?_, ?_⟩
      · simp only [List.length_append, List.length_cons] at hlength
        omega
      · rw [accesses_index hnested hbracket h hclose] at hahead
        simpa only [List.append_assoc, List.cons_append, List.nil_append] using hahead
  | _, rest, _, @IsAtom.slice _ bracket colon close ts us vs _ _ _ hbase hbracket hstart hcolon hstop
      hclose, _ => by
    have hnext : Next (· ≠ .mark .leftParen) (bracket :: us ++ colon :: vs ++ close :: rest) :=
      next_cons.mpr (by rw [hbracket]; decide)
    obtain ⟨ahead, hlength, hahead⟩ := atom_eq_accesses hnested hbase hnext
    cases ahead with
    | nil => exact absurd hlength (Nat.not_succ_le_zero _)
    | cons first ahead =>
      refine ⟨ahead, ?_, ?_⟩
      · simp only [List.length_append, List.length_cons] at hlength
        omega
      · rw [accesses_slice hnested hbracket hstart hcolon hstop hclose] at hahead
        simpa only [List.append_assoc, List.cons_append, List.nil_append] using hahead

theorem atom_reads (hnested : Reads nested (IsExpression room) (Halts 1)) :
    Reads (atom nested) (IsAtom room) (Halts 7) := by
  intro ts e rest h hrest
  have hparen : Next (· ≠ .mark .leftParen) rest := hrest.imp fun _ h => h.1
  have hbracket : Next (· ≠ .mark .leftBracket) rest := hrest.imp fun _ h => h.2.1
  obtain ⟨ahead, _, hahead⟩ := atom_eq_accesses hnested h hparen
  rw [hahead]
  exact accesses_of_next hbracket

theorem prefixed_atom {below : Option (Parser Expr)} {ts rest : List Token} {e : Expr}
    {atom : Parser Expr} (h : IsAtom room ts e) :
    prefixed below atom (ts ++ rest) = atom (ts ++ rest) := by
  obtain ⟨token, tail, rfl, hopens⟩ := h.opens
  simp only [prefixed, List.cons_append, peek_bind, List.head?_cons, ofKind?_of_opensAtom hopens]

theorem prefixed_unary {operand atom : Parser Expr} {sign : Token} {ts rest : List Token}
    {op : UnaryOp} {e : Expr} (hop : UnaryOp.ofKind? sign.kind = some op)
    (h : operand ts = .ok (e, rest)) :
    prefixed (some operand) atom (sign :: ts) = .ok (.unary op e sign, rest) := by
  simp only [prefixed, peek_bind, List.head?_cons, hop, skip_bind, List.tail_cons]
  exact bind_eq_ok.mpr ⟨e, rest, h, rfl⟩

end Atoms

theorem nested_reads {operand : Parser Expr} {room : Nat}
    (hoperand : Reads operand (IsOperand room) (Halts 7)) :
    Reads (levels operand) (IsExpression (room + 1)) (Halts 1) := by
  intro ts e rest h hrest
  cases h with
  | nested h => exact levels_reads hoperand h hrest

theorem tooDeep_reads (follow : TokenKind → Prop) : Reads tooDeep (IsExpression 0) follow := by
  intro ts e rest h
  cases h

theorem operand_reads (room : Nat) : Reads (operand room) (IsOperand room) (Halts 7) := by
  induction room with
  | zero =>
    intro ts e rest h hrest
    cases h with
    | atom h =>
      rw [operand_zero, prefixed_atom h]
      exact atom_reads (tooDeep_reads _) h hrest
  | succ room ih =>
    intro ts e rest h hrest
    cases h with
    | atom h =>
      rw [operand_succ, prefixed_atom h]
      exact atom_reads (nested_reads ih) h hrest
    | unary hop h => exact prefixed_unary hop (ih h hrest)

/-- Every expression is read for which there is room. -/
theorem expression_reads (room : Nat) :
    Reads (expression room) (IsExpression room) (Halts 1) := by
  cases room with
  | zero => exact tooDeep_reads _
  | succ room => exact nested_reads (operand_reads room)

theorem rangeOrExpression_reads {expression : Parser Expr} {room : Nat}
    (hexpression : Reads expression (IsExpression room) (Halts 1)) :
    Reads (rangeOrExpression expression) (IsIterable room)
      fun kind => Halts 1 kind ∧ kind ≠ .mark .colon := by
  intro ts e rest h hrest
  have hhalts : Next (Halts 1) rest := hrest.imp fun _ h => h.1
  have hcolon : Next (· ≠ .mark .colon) rest := hrest.imp fun _ h => h.2
  cases h with
  | expression h =>
    refine bind_eq_ok.mpr ⟨e, rest, hexpression h hhalts, ?_⟩
    cases rest with
    | nil => rfl
    | cons token tail =>
      simp only [peek_bind, List.head?_cons, next_cons.mp hcolon, if_false]
      rfl
  | @range colon us vs start stop hstart hsign hstop =>
    rw [List.append_assoc, List.cons_append]
    refine bind_eq_ok.mpr ⟨start, _, hexpression hstart (next_halts hsign (by decide)), ?_⟩
    simp only [peek_bind, List.head?_cons, hsign, if_true, skip_bind, List.tail_cons]
    refine bind_eq_ok.mpr ⟨stop, rest, hexpression hstop hhalts, ?_⟩
    exact bind_eq_ok.mpr ⟨none, rest, optional_of_next hcolon, rfl⟩
  | @steppedRange colon colon' us vs ws start stop step hstart hsign hstop hsign' hstep =>
    rw [List.append_assoc, List.append_assoc, List.cons_append, List.cons_append]
    refine bind_eq_ok.mpr ⟨start, _, hexpression hstart (next_halts hsign (by decide)), ?_⟩
    simp only [peek_bind, List.head?_cons, hsign, if_true, skip_bind, List.tail_cons]
    refine bind_eq_ok.mpr ⟨stop, _, hexpression hstop (next_halts hsign' (by decide)), ?_⟩
    exact bind_eq_ok.mpr
      ⟨some step, rest, optional_cons hsign' (hexpression hstep hhalts), rfl⟩

/-! ## Declarations -/

theorem declaredType_reads : Reads declaredType IsDeclaredType fun _ => True := by
  intro ts declared rest h _
  cases h with
  | @named word paren name close type hword hparen hname hclose =>
    refine bind_eq_ok.mpr ⟨word, _, keyword_cons hword, ?_⟩
    refine bind_eq_ok.mpr ⟨paren, _, mark_cons hparen, ?_⟩
    refine bind_eq_ok.mpr ⟨⟨type, name⟩, _, typeName_eq_ok.mpr ⟨rfl, hname⟩, ?_⟩
    exact bind_eq_ok.mpr ⟨close, rest, mark_cons hclose, rfl⟩

theorem declaredResult_reads : Reads declaredResult IsDeclaredResult fun _ => True := by
  intro ts declared rest h _
  cases h with
  | @named word paren name close type hword hparen hname hclose =>
    have hvoid : name.kind ≠ .keyword .kwVoid := by
      intro hvoid
      rw [hvoid] at hname
      cases hname
    simp only [List.cons_append, List.nil_append]
    refine bind_eq_ok.mpr ⟨word, _, keyword_cons hword, ?_⟩
    refine bind_eq_ok.mpr ⟨paren, _, mark_cons hparen, ?_⟩
    simp only [peek_bind, List.head?_cons, hvoid, if_false]
    refine bind_eq_ok.mpr ⟨⟨type, name⟩, _, typeName_eq_ok.mpr ⟨rfl, hname⟩, ?_⟩
    refine bind_eq_ok.mpr ⟨_, _, rfl, ?_⟩
    exact bind_eq_ok.mpr ⟨close, rest, mark_cons hclose, rfl⟩
  | @void word paren name close hword hparen hname hclose =>
    simp only [List.cons_append, List.nil_append]
    refine bind_eq_ok.mpr ⟨word, _, keyword_cons hword, ?_⟩
    refine bind_eq_ok.mpr ⟨paren, _, mark_cons hparen, ?_⟩
    simp only [peek_bind, List.head?_cons, hname, if_true, skip_bind, List.tail_cons]
    refine bind_eq_ok.mpr ⟨_, _, rfl, ?_⟩
    exact bind_eq_ok.mpr ⟨close, rest, mark_cons hclose, rfl⟩

/-- A token behind a declared name or its value: it goes on with neither. -/
def Settles (kind : TokenKind) : Prop := Halts 1 kind ∧ kind ≠ .mark .assign

section Declarations

variable {expression : Parser Expr} {room : Nat}

theorem initializer_reads (hexpression : Reads expression (IsExpression room) (Halts 1)) :
    Reads (optional (.mark .assign) expression) (IsInitializer room) Settles := by
  intro ts value rest h hrest
  cases h with
  | absent => exact optional_of_next (hrest.imp fun _ h => h.2)
  | given hsign h => exact optional_cons hsign (hexpression h (hrest.imp fun _ h => h.1))

theorem declarator_reads (hexpression : Reads expression (IsExpression room) (Halts 1)) :
    Reads (declarator expression) (IsDeclarator room) Settles := by
  intro ts d rest h hrest
  cases h with
  | @named token us name value hname h =>
    refine bind_eq_ok.mpr ⟨(name, token), _, identifier_cons hname, ?_⟩
    exact bind_eq_ok.mpr ⟨value, rest, initializer_reads hexpression h hrest, rfl⟩

theorem declaratorTail_reads (hexpression : Reads expression (IsExpression room) (Halts 1))
    {ts rest ahead : List Token} {ds : List Declarator} (h : IsMore (IsDeclarator room) ts ds)
    (hrest : Next (fun kind => Settles kind ∧ kind ≠ .mark .comma) rest)
    (hahead : ts.length ≤ ahead.length) :
    declaratorTail expression ahead (ts ++ rest) = .ok (ds, rest) := by
  have hcomma : Next (· ≠ .mark .comma) rest := hrest.imp fun _ h => h.2
  induction h generalizing ahead with
  | nil =>
    cases ahead with
    | nil => rfl
    | cons _ ahead => exact bind_eq_ok.mpr ⟨false, rest, eat_of_next hcomma, rfl⟩
  | @cons comma us vs d ds hsign h hmore ih =>
    cases ahead with
    | nil => simp at hahead
    | cons _ ahead =>
      have hnext : Next Settles (vs ++ rest) := by
        cases hmore with
        | nil => exact hrest.imp fun _ h => h.1
        | cons hsign _ _ =>
          rw [List.cons_append, List.cons_append, next_cons, hsign]
          exact ⟨halts_of_mem (by decide), nofun⟩
      have hlength : vs.length ≤ ahead.length := by
        simp only [List.length_append, List.length_cons] at hahead
        omega
      rw [List.cons_append, List.cons_append, List.append_assoc]
      refine bind_eq_ok.mpr ⟨true, _, eat_cons hsign, ?_⟩
      refine bind_eq_ok.mpr ⟨d, _, declarator_reads hexpression h hnext, ?_⟩
      exact bind_eq_ok.mpr ⟨ds, rest, ih hlength, rfl⟩

theorem varDecl_reads (hexpression : Reads expression (IsExpression room) (Halts 1)) :
    Reads (varDecl expression) (IsVarDecl room)
      fun kind => Settles kind ∧ kind ≠ .mark .comma := by
  intro ts decl rest h hrest
  cases h with
  | @typed us vs ws declared d ds htype h hmore =>
    have hnext : Next Settles (ws ++ rest) := by
      cases hmore with
      | nil => exact hrest.imp fun _ h => h.1
      | cons hsign _ _ =>
        rw [List.cons_append, List.cons_append, next_cons, hsign]
        exact ⟨halts_of_mem (by decide), nofun⟩
    rw [List.append_assoc, List.append_assoc]
    refine bind_eq_ok.mpr ⟨declared, _, declaredType_reads htype fun _ _ => trivial, ?_⟩
    refine bind_eq_ok.mpr ⟨d, _, declarator_reads hexpression h hnext, ?_⟩
    rw [get_bind]
    refine bind_eq_ok.mpr ⟨ds, rest, ?_, rfl⟩
    exact declaratorTail_reads hexpression hmore hrest (by simp)

theorem parameter_reads (hexpression : Reads expression (IsExpression room) (Halts 1)) :
    Reads (parameter expression) (IsParameter room) Settles := by
  intro ts param rest h hrest
  cases h with
  | @typed token us vs declared name value htype hname h =>
    rw [List.append_assoc]
    refine bind_eq_ok.mpr ⟨declared, _, declaredType_reads htype fun _ _ => trivial, ?_⟩
    refine bind_eq_ok.mpr ⟨(name, token), _, identifier_cons hname, ?_⟩
    exact bind_eq_ok.mpr ⟨value, rest, initializer_reads hexpression h hrest, rfl⟩

theorem parameters_reads (hexpression : Reads expression (IsExpression room) (Halts 1)) :
    Reads (commaSeparated (parameter expression) .rightParen)
      (IsList (IsParameter room) .rightParen) fun _ => True := by
  refine commaSeparated_reads (parameter_reads hexpression) ⟨halts_of_mem (by decide), nofun⟩
    ⟨halts_of_mem (by decide), nofun⟩ (by decide) ?_
  intro ts param h
  cases h with
  | typed htype _ _ =>
    cases htype with
    | named hword _ _ _ => exact ⟨_, _, rfl, by simp [hword]⟩

end Declarations

/-! ## Statements -/

/-- A token behind a statement: it is no further branch of a conditional. -/
def Concludes (kind : TokenKind) : Prop :=
  kind ≠ .keyword .kwElseif ∧ kind ≠ .keyword .kwElse

theorem concludes_of_opens {kind : TokenKind} (h : opensStatement kind) : Concludes kind := by
  constructor <;> (rintro rfl; cases h)

section Nested

variable {expression : Parser Expr} {block : Parser (List Statement)} {room : Nat}

theorem next_halts_block {level : Nat} {ts rest : List Token} {body : List Statement}
    (h : IsBlock room ts body) : Next (Halts level) (ts ++ rest) := by
  cases h with
  | nested hbrace _ _ => exact next_halts hbrace (by decide)

theorem alternatives_reads (hexpression : Reads expression (IsExpression room) (Halts 1))
    (hblock : Reads block (IsBlock room) fun _ => True) {rest : List Token}
    (hrest : Next Concludes rest) :
    ∀ {ts ahead : List Token} {otherwise : Alternative}, IsAlternative room ts otherwise →
      ts.length ≤ ahead.length →
        alternatives expression block ahead (ts ++ rest) = .ok (otherwise, rest)
  | _, [], _, .absent, _ => rfl
  | _, _ :: _, _, .absent, _ => by
    have helseif : Next (· ≠ .keyword .kwElseif) rest := hrest.imp fun _ h => h.1
    have helse : Next (· ≠ .keyword .kwElse) rest := hrest.imp fun _ h => h.2
    refine bind_eq_ok.mpr ⟨false, rest, eat_of_next helseif, ?_⟩
    exact bind_eq_ok.mpr ⟨false, rest, eat_of_next helse, rfl⟩
  | _, _ :: ahead, _, @IsAlternative.elseif _ word us vs ws condition body last hword hcondition hbody
      hlast, hahead => by
    have hlength : ws.length ≤ ahead.length := by
      simp only [List.length_append, List.length_cons] at hahead
      omega
    simp only [List.cons_append, List.append_assoc]
    refine bind_eq_ok.mpr ⟨true, _, eat_cons hword, ?_⟩
    refine bind_eq_ok.mpr ⟨condition, _, hexpression hcondition (next_halts_block hbody), ?_⟩
    refine bind_eq_ok.mpr ⟨body, _, hblock hbody fun _ _ => trivial, ?_⟩
    refine bind_eq_ok.mpr ⟨last, rest, ?_, rfl⟩
    exact alternatives_reads hexpression hblock hrest hlast hlength
  | _, _ :: _, _, @IsAlternative.otherwise _ word us body hword hbody, _ => by
    have hne : Next (· ≠ .keyword .kwElseif) (word :: (us ++ rest)) :=
      next_cons.mpr (by simp [hword])
    refine bind_eq_ok.mpr ⟨false, _, eat_of_next hne, ?_⟩
    refine bind_eq_ok.mpr ⟨true, _, eat_cons hword, ?_⟩
    exact bind_eq_ok.mpr ⟨body, rest, hblock hbody fun _ _ => trivial, rfl⟩

theorem conditional_reads (hexpression : Reads expression (IsExpression room) (Halts 1))
    (hblock : Reads block (IsBlock room) fun _ => True) {word : Token} {us vs ws rest : List Token}
    {condition : Expr} {body : List Statement} {otherwise : Alternative}
    (hword : word.kind = .keyword .kwIf) (hcondition : IsExpression room us condition)
    (hbody : IsBlock room vs body) (hotherwise : IsAlternative room ws otherwise)
    (hrest : Next Concludes rest) :
    conditional expression block (word :: (us ++ (vs ++ (ws ++ rest)))) =
      .ok (.conditional condition body otherwise word, rest) := by
  refine bind_eq_ok.mpr ⟨word, _, keyword_cons hword, ?_⟩
  refine bind_eq_ok.mpr ⟨condition, _, hexpression hcondition (next_halts_block hbody), ?_⟩
  refine bind_eq_ok.mpr ⟨body, _, hblock hbody fun _ _ => trivial, ?_⟩
  rw [get_bind]
  refine bind_eq_ok.mpr ⟨otherwise, rest, ?_, rfl⟩
  exact alternatives_reads hexpression hblock hrest hotherwise (by simp)

theorem forLoop_reads (hexpression : Reads expression (IsExpression room) (Halts 1))
    (hblock : Reads block (IsBlock room) fun _ => True) {word token within : Token}
    {us vs ws rest : List Token} {declared : DeclaredType} {name : String} {iterable : Expr}
    {body : List Statement} (hword : word.kind = .keyword .kwFor)
    (htype : IsDeclaredType us declared) (hname : token.kind = .identifier name)
    (hwithin : within.kind = .keyword .kwIn) (hiterable : IsIterable room vs iterable)
    (hbody : IsBlock room ws body) :
    forLoop expression block (word :: (us ++ token :: within :: (vs ++ (ws ++ rest)))) =
      .ok (.forLoop ⟨declared, [⟨name, none, token⟩]⟩ iterable body word, rest) := by
  have hdecl : IsVarDecl room (us ++ [token] ++ []) ⟨declared, [⟨name, none, token⟩]⟩ :=
    .typed htype (.named hname .absent) .nil
  have hin : Next (fun kind => Settles kind ∧ kind ≠ .mark .comma)
      (within :: (vs ++ (ws ++ rest))) := by
    rw [next_cons, hwithin]
    exact ⟨⟨⟨nofun, nofun, nofun⟩, nofun⟩, nofun⟩
  have hbrace : Next (fun kind => Halts 1 kind ∧ kind ≠ .mark .colon) (ws ++ rest) := by
    cases hbody with
    | nested hbrace _ _ => exact next_cons.mpr ⟨hbrace ▸ halts_of_mem (by decide), by simp [hbrace]⟩
  have hread := varDecl_reads hexpression hdecl hin
  simp only [List.append_nil, List.append_assoc, List.singleton_append] at hread
  refine bind_eq_ok.mpr ⟨word, _, keyword_cons hword, ?_⟩
  refine bind_eq_ok.mpr ⟨_, _, hread, ?_⟩
  refine bind_eq_ok.mpr ⟨within, _, keyword_cons hwithin, ?_⟩
  refine bind_eq_ok.mpr ⟨iterable, _, rangeOrExpression_reads hexpression hiterable hbrace, ?_⟩
  exact bind_eq_ok.mpr ⟨body, rest, hblock hbody fun _ _ => trivial, rfl⟩

theorem function_reads (hexpression : Reads expression (IsExpression room) (Halts 1))
    (hblock : Reads block (IsBlock room) fun _ => True) {token paren : Token}
    {us vs ws rest : List Token} {returns : DeclaredResult} {name : String} {params : List Param}
    {body : List Statement} (hreturns : IsDeclaredResult us returns)
    (hname : token.kind = .identifier name) (hparen : paren.kind = .mark .leftParen)
    (hparams : IsList (IsParameter room) .rightParen vs params) (hbody : IsBlock room ws body) :
    function expression block (us ++ token :: paren :: (vs ++ (ws ++ rest))) =
      .ok (.function ⟨returns, name, params, body, token⟩, rest) := by
  refine bind_eq_ok.mpr ⟨returns, _, declaredResult_reads hreturns fun _ _ => trivial, ?_⟩
  refine bind_eq_ok.mpr ⟨(name, token), _, identifier_cons hname, ?_⟩
  refine bind_eq_ok.mpr ⟨paren, _, mark_cons hparen, ?_⟩
  refine bind_eq_ok.mpr ⟨params, _, parameters_reads hexpression hparams fun _ _ => trivial, ?_⟩
  exact bind_eq_ok.mpr ⟨body, rest, hblock hbody fun _ _ => trivial, rfl⟩

theorem expressionStatement_reads (hexpression : Reads expression (IsExpression room) (Halts 1))
    {semicolon : Token} {ts rest : List Token} {e : Expr} (h : IsExpression room ts e)
    (hend : semicolon.kind = .mark .semicolon) :
    expressionStatement expression (ts ++ semicolon :: rest) =
      .ok (.expression e.asStatement, rest) := by
  refine bind_eq_ok.mpr ⟨e, _, hexpression h (next_halts hend (by decide)), ?_⟩
  simp only [peek_bind, List.head?_cons, hend]
  exact bind_eq_ok.mpr ⟨semicolon, rest, mark_cons hend, rfl⟩

/-- The second token tells an assignment from an expression. -/
theorem assignmentOrExpression_of_second {token second : Token} {tail : List Token}
    (h : AssignOp.ofKind? second.kind = none) :
    assignmentOrExpression expression (token :: second :: tail) =
      expressionStatement expression (token :: second :: tail) := by
  simp only [assignmentOrExpression, get_bind, h]
  cases token.kind <;> rfl

theorem assignmentOrExpression_reads (hexpression : Reads expression (IsExpression room) (Halts 1))
    {semicolon : Token} {ts rest : List Token} {e : Expr} (h : IsExpression room ts e)
    (hend : semicolon.kind = .mark .semicolon) :
    assignmentOrExpression expression (ts ++ semicolon :: rest) =
      .ok (.expression e.asStatement, rest) := by
  rw [← expressionStatement_reads hexpression h hend]
  obtain ⟨token, tail, rfl, _⟩ := h.opens
  cases tail with
  | nil => exact assignmentOrExpression_of_second (by rw [hend]; rfl)
  | cons second tail =>
    have hsecond := h.inner second (by simp)
    exact assignmentOrExpression_of_second hsecond.1

theorem statementWith_of_opens {token : Token} {tail : List Token}
    (h : opensExpression token.kind) : statementWith expression block (token :: tail) =
      assignmentOrExpression expression (token :: tail) := by
  simp only [statementWith, peek_bind, List.head?_cons]
  cases hkind : token.kind with
  | keyword word =>
    rw [hkind] at h
    cases word <;> first | rfl | cases h
  | mark sign =>
    rw [hkind] at h
    cases sign <;> first | rfl | cases h
  | _ => rfl

theorem statementWith_reads (hexpression : Reads expression (IsExpression room) (Halts 1))
    (hblock : Reads block (IsBlock room) fun _ => True) :
    Reads (statementWith expression block) (IsStatement room) Concludes := by
  intro ts s rest h hrest
  cases h with
  | empty h =>
    simp only [statementWith, List.singleton_append, peek_bind, List.head?_cons, h]
    rfl
  | @declaration _ semicolon us decl h hend =>
    have hnext : Next (fun kind => Settles kind ∧ kind ≠ .mark .comma) (semicolon :: rest) := by
      rw [next_cons, hend]
      exact ⟨⟨halts_of_mem (by decide), by decide⟩, by decide⟩
    have hread := varDecl_reads hexpression h hnext
    rw [List.append_assoc, List.singleton_append]
    cases h with
    | typed htype _ _ =>
      cases htype with
      | named hword _ _ _ =>
        simp only [statementWith, List.cons_append, peek_bind, List.head?_cons, hword]
        refine bind_eq_ok.mpr ⟨_, _, hread, ?_⟩
        exact bind_eq_ok.mpr ⟨semicolon, rest, mark_cons hend, rfl⟩
  | @assignment _ target sign semicolon us name op e htarget hop h hend =>
    simp only [List.cons_append, List.append_assoc, List.nil_append]
    rw [statementWith_of_opens (by rw [htarget]; rfl)]
    simp only [assignmentOrExpression, get_bind, htarget, hop, set_bind]
    refine bind_eq_ok.mpr ⟨e, _, hexpression h (next_halts hend (by decide)), ?_⟩
    exact bind_eq_ok.mpr ⟨semicolon, rest, mark_cons hend, rfl⟩
  | conditional hword hcondition hbody hotherwise =>
    simp only [statementWith, List.cons_append, List.append_assoc, peek_bind, List.head?_cons,
      hword]
    exact conditional_reads hexpression hblock hword hcondition hbody hotherwise hrest
  | @whileLoop _ word us vs condition body hword hcondition hbody =>
    simp only [statementWith, List.cons_append, List.append_assoc, peek_bind, List.head?_cons,
      hword]
    refine bind_eq_ok.mpr ⟨word, _, keyword_cons hword, ?_⟩
    refine bind_eq_ok.mpr ⟨condition, _, hexpression hcondition (next_halts_block hbody), ?_⟩
    exact bind_eq_ok.mpr ⟨body, rest, hblock hbody fun _ _ => trivial, rfl⟩
  | forLoop hword htype hname hwithin hiterable hbody =>
    simp only [statementWith, List.cons_append, List.append_assoc, peek_bind, List.head?_cons,
      hword]
    exact forLoop_reads hexpression hblock hword htype hname hwithin hiterable hbody
  | @breakLoop _ word semicolon hword hend =>
    simp only [statementWith, List.cons_append, List.nil_append, peek_bind, List.head?_cons, hword,
      skip_bind, List.tail_cons]
    exact bind_eq_ok.mpr ⟨semicolon, rest, mark_cons hend, rfl⟩
  | @continueLoop _ word semicolon hword hend =>
    simp only [statementWith, List.cons_append, List.nil_append, peek_bind, List.head?_cons, hword,
      skip_bind, List.tail_cons]
    exact bind_eq_ok.mpr ⟨semicolon, rest, mark_cons hend, rfl⟩
  | @returnNothing _ word semicolon hword hend =>
    simp only [statementWith, List.cons_append, List.nil_append, peek_bind, List.head?_cons, hword]
    refine bind_eq_ok.mpr ⟨word, _, keyword_cons hword, ?_⟩
    exact bind_eq_ok.mpr ⟨true, rest, eat_cons hend, rfl⟩
  | @returnValue _ word semicolon us e hword h hend =>
    have hne : Next (· ≠ .mark .semicolon) (us ++ semicolon :: rest) := by
      obtain ⟨token, tail, rfl, htoken⟩ := h.opens
      refine next_cons.mpr ?_
      intro heq
      rw [heq] at htoken
      cases htoken
    simp only [statementWith, List.cons_append, List.append_assoc, List.nil_append, peek_bind,
      List.head?_cons, hword]
    refine bind_eq_ok.mpr ⟨word, _, keyword_cons hword, ?_⟩
    refine bind_eq_ok.mpr ⟨false, _, eat_of_next hne, ?_⟩
    refine bind_eq_ok.mpr ⟨e, _, hexpression h (next_halts hend (by decide)), ?_⟩
    exact bind_eq_ok.mpr ⟨semicolon, rest, mark_cons hend, rfl⟩
  | @function _ token paren us vs ws returns name params body hreturns hname hparen hparams hbody =>
    have hread : function expression block (us ++ token :: paren :: (vs ++ (ws ++ rest))) = _ :=
      function_reads hexpression hblock hreturns hname hparen hparams hbody
    have hword : ∃ word tail, us = word :: tail ∧ word.kind = .keyword .kwFunc := by
      cases hreturns with
      | named hword _ _ _ => exact ⟨_, _, rfl, hword⟩
      | void hword _ _ _ => exact ⟨_, _, rfl, hword⟩
    obtain ⟨word, tail, rfl, hword⟩ := hword
    simp only [statementWith, List.cons_append, List.append_assoc, peek_bind, List.head?_cons,
      hword]
    exact hread
  | @expression _ semicolon us e h hend =>
    have hread : assignmentOrExpression expression (us ++ semicolon :: rest) = _ :=
      assignmentOrExpression_reads hexpression h hend
    obtain ⟨token, tail, rfl, hopens⟩ := h.opens
    rw [List.append_assoc, List.singleton_append, List.cons_append, statementWith_of_opens hopens]
    exact hread

end Nested

section Bodies

variable {statement : Parser Statement} {room : Nat}

theorem next_concludes {closing : TokenKind} (hclosing : Concludes closing) {ts rest : List Token}
    {body : List Statement} {stop : Token} (h : IsStatements room ts body)
    (hstop : stop.kind = closing) : Next Concludes (ts ++ stop :: rest) := by
  cases h with
  | nil => exact next_cons.mpr (hstop ▸ hclosing)
  | cons h _ =>
    obtain ⟨token, tail, rfl, hopens⟩ := h.opens
    exact next_cons.mpr (concludes_of_opens hopens)

theorem statementItems_reads (hstatement : Reads statement (IsStatement room) Concludes)
    {closing : TokenKind} (hconcludes : Concludes closing) (hopens : opensStatement closing = false)
    {rest : List Token} {stop : Token} (hstop : stop.kind = closing) :
    ∀ {ts ahead : List Token} {body : List Statement}, IsStatements room ts body →
      ts.length ≤ ahead.length →
        statementItems statement closing ahead (ts ++ stop :: rest) = .ok (body, stop :: rest)
  | _, [], _, .nil, _ => rfl
  | _, _ :: _, _, .nil, _ => by
    simp only [statementItems, List.nil_append, peek_bind, List.head?_cons, hstop, true_or, if_true]
    rfl
  | _, [], _, .cons h _, hahead => by
    obtain ⟨token, tail, rfl, _⟩ := h.opens
    simp at hahead
  | _, _ :: ahead, _, @IsStatements.cons _ us vs s body h hbody, hahead => by
    have hfirst : statement (us ++ (vs ++ stop :: rest)) = .ok (s, vs ++ stop :: rest) :=
      hstatement h (next_concludes hconcludes hbody hstop)
    obtain ⟨token, tail, rfl, hopen⟩ := h.opens
    have hlength : vs.length ≤ ahead.length := by
      simp only [List.length_append, List.length_cons] at hahead
      omega
    have hgo : ¬(token.kind = closing ∨ token.kind = .endOfInput) := by
      rintro (heq | heq)
      · rw [heq, hopens] at hopen
        cases hopen
      · rw [heq] at hopen
        cases hopen
    rw [List.append_assoc]
    simp only [statementItems, List.cons_append, peek_bind, List.head?_cons, hgo, if_false]
    refine bind_eq_ok.mpr ⟨s, _, hfirst, ?_⟩
    refine bind_eq_ok.mpr ⟨body, _, ?_, rfl⟩
    exact statementItems_reads hstatement hconcludes hopens hstop hbody hlength

theorem statements_reads (hstatement : Reads statement (IsStatement room) Concludes)
    {closing : TokenKind} (hconcludes : Concludes closing) (hopens : opensStatement closing = false)
    {ts rest : List Token} {body : List Statement} {stop : Token} (h : IsStatements room ts body)
    (hstop : stop.kind = closing) :
    statements statement closing (ts ++ stop :: rest) = .ok (body, stop :: rest) :=
  statementItems_reads hstatement hconcludes hopens hstop h (by simp)

theorem blockOf_reads (hstatement : Reads statement (IsStatement room) Concludes) :
    Reads (blockOf statement) (IsBlock (room + 1)) fun _ => True := by
  intro ts body rest h _
  cases h with
  | @nested _ brace close us _ hbrace h hclose =>
    simp only [List.cons_append, List.append_assoc, List.nil_append]
    refine bind_eq_ok.mpr ⟨brace, _, mark_cons hbrace, ?_⟩
    have hconcludes : Concludes (.mark .rightBrace) := ⟨nofun, nofun⟩
    have hbody : statements statement (.mark .rightBrace) (us ++ close :: rest) = .ok (body, _) :=
      statements_reads hstatement hconcludes rfl h hclose
    refine bind_eq_ok.mpr ⟨body, _, hbody, ?_⟩
    exact bind_eq_ok.mpr ⟨close, rest, mark_cons hclose, rfl⟩

end Bodies

/-- Every statement is read for which there is room. -/
theorem statement_reads (room : Nat) :
    Reads (statement room) (IsStatement room) Concludes := by
  induction room with
  | zero =>
    refine statementWith_reads (expression_reads 0) ?_
    intro ts body rest h
    cases h
  | succ room ih => exact statementWith_reads (expression_reads (room + 1)) (blockOf_reads ih)


/-- A program is read up to and with the first end of the source. -/
theorem program_eq_ok_iff {ts rest : List Token} {p : Program} :
    program ts = .ok (p, rest) ↔ ∃ before stop, ts = before ++ stop :: rest ∧
      stop.kind = .endOfInput ∧ IsStatements nestingLimit before p := by
  constructor
  · intro h
    simp only [program, bind_eq_ok, expect_eq_ok, pure_apply, Except.ok.injEq, Prod.mk.injEq] at h
    obtain ⟨body, _, hbody, stop, _, ⟨rfl, hstop⟩, rfl, rfl⟩ := h
    obtain ⟨before, rfl, hbefore⟩ := statements_yields (statement_yields _) _ hbody
    exact ⟨before, stop, rfl, hstop, hbefore⟩
  · rintro ⟨before, stop, rfl, hstop, h⟩
    have hconcludes : Concludes .endOfInput := ⟨nofun, nofun⟩
    have hbody : statements (statement nestingLimit) .endOfInput (before ++ stop :: rest) =
        .ok (p, stop :: rest) :=
      statements_reads (statement_reads _) hconcludes rfl h hstop
    refine bind_eq_ok.mpr ⟨p, _, hbody, ?_⟩
    exact bind_eq_ok.mpr ⟨stop, rest, expect_eq_ok.mpr ⟨rfl, hstop⟩, rfl⟩

end ScopedScript.Parser

namespace ScopedScript

open Grammar ScopedScript.Parser

theorem parse_eq_ok {ts : List Token} {p : Program} :
    parse ts = .ok p ↔ ∃ rest, program ts = .ok (p, rest) := by
  unfold parse
  cases program ts with
  | error fault => simp [Except.map]
  | ok found => simp [Except.map, Prod.ext_iff]

/-- Two programs derived from the same tokens are the same. -/
theorem isStatements_unique {before : List Token} {p q : Program}
    (hp : IsStatements nestingLimit before p) (hq : IsStatements nestingLimit before q) :
    p = q := by
  -- Both are what is read from these tokens with an end of the source behind them.
  let stop : Token := ⟨.endOfInput, "", .nowhere⟩
  have hreadp : program (before ++ [stop]) = .ok (p, []) :=
    program_eq_ok_iff.mpr ⟨before, stop, rfl, rfl, hp⟩
  have hreadq : program (before ++ [stop]) = .ok (q, []) :=
    program_eq_ok_iff.mpr ⟨before, stop, rfl, rfl, hq⟩
  rw [hreadp] at hreadq
  cases hreadq
  rfl

/-- Tokens are read as a program exactly if an end of the source is among them and the tokens before
the first one are derived as that program, with no more constructs open at a time than the limit.
The grammar is unambiguous: no other program is derived from the same tokens. -/
theorem parse_iff_derivable (ts : List Token) (p : Program) :
    (parse ts = .ok p ↔ ∃ before stop after, ts = before ++ stop :: after ∧
      stop.kind = .endOfInput ∧ (∀ token ∈ before, token.kind ≠ .endOfInput) ∧
      IsStatements nestingLimit before p) ∧
    ∀ before q r, IsStatements nestingLimit before q → IsStatements nestingLimit before r →
      q = r := by
  constructor
  · rw [parse_eq_ok]
    constructor
    · rintro ⟨after, h⟩
      obtain ⟨before, stop, hts, hstop, hbefore⟩ := program_eq_ok_iff.mp h
      exact ⟨before, stop, after, hts, hstop, hbefore.no_end, hbefore⟩
    · rintro ⟨before, stop, after, hts, hstop, _, hbefore⟩
      exact ⟨after, program_eq_ok_iff.mpr ⟨before, stop, hts, hstop, hbefore⟩⟩
  · intro before q r hq hr
    exact isStatements_unique hq hr

end ScopedScript
