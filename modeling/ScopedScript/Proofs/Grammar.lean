import ScopedScript.Tree.Parser.Statement

/-!
# The grammar

Which lists of tokens stand for which trees. The rules say what a phrase is made of and nothing
about how it is found: there is no order among them and no token is looked at ahead of its turn.

Expressions, prefix operators and blocks can be open only so deep. Every phrase is derived with
some `room`, the number of further ones that can be open inside it, so that a derivation with room
`n` is one on no path of which more than `n` of them are open.

Binary operators bind on levels from one, the loosest, to six. Seven is the level of operands, which
are prefix operators before an atom, and the left-recursive rule makes each level associate to the
left.
-/

namespace ScopedScript.Grammar

/-! ## Lists -/

/-- Items, each of them behind a comma. -/
inductive IsMore {α : Type} (item : List Token → α → Prop) : List Token → List α → Prop where
  | nil : IsMore item [] []
  | cons {comma : Token} {ts us : List Token} {a : α} {rest : List α}
      (hcomma : comma.kind = .mark .comma) (hitem : item ts a) (hrest : IsMore item us rest) :
      IsMore item (comma :: ts ++ us) (a :: rest)

/-- Items with commas between them and a closing sign behind. -/
inductive IsList {α : Type} (item : List Token → α → Prop) (closing : Mark) :
    List Token → List α → Prop where
  | empty {close : Token} (hclose : close.kind = .mark closing) : IsList item closing [close] []
  | items {close : Token} {ts us : List Token} {a : α} {rest : List α} (hitem : item ts a)
      (hrest : IsMore item us rest) (hclose : close.kind = .mark closing) :
      IsList item closing (ts ++ us ++ [close]) (a :: rest)

theorem IsMore.exists_item {α : Type} {item : List Token → α → Prop} {ts : List Token}
    {items : List α} (h : IsMore item ts items) : ∀ a ∈ items, ∃ us, us ⊆ ts ∧ item us a := by
  induction h with
  | nil => exact nofun
  | cons _ h _ ih =>
    rw [List.forall_mem_cons]
    refine ⟨⟨_, ?_, h⟩, fun a ha => ?_⟩
    · exact List.subset_append_of_subset_left _ (List.subset_cons_self _ _)
    · obtain ⟨us, hus, hitem⟩ := ih a ha
      exact ⟨us, List.subset_append_of_subset_right _ hus, hitem⟩

theorem IsList.exists_item {α : Type} {item : List Token → α → Prop} {closing : Mark}
    {ts : List Token} {items : List α} (h : IsList item closing ts items) :
    ∀ a ∈ items, ∃ us, us ⊆ ts ∧ item us a := by
  cases h with
  | empty _ => exact nofun
  | items h hrest _ =>
    rw [List.forall_mem_cons]
    refine ⟨⟨_, ?_, h⟩, fun a ha => ?_⟩
    · exact List.subset_append_of_subset_left _ (List.subset_append_left _ _)
    · obtain ⟨us, hus, hitem⟩ := hrest.exists_item a ha
      refine ⟨us, ?_, hitem⟩
      exact List.subset_append_of_subset_left _ (List.subset_append_of_subset_right _ hus)

/-! ## Expressions -/

/-- What is called: an identifier, or a type that values are converted to. -/
inductive IsCallee : TokenKind → String → Prop where
  | identifier (name : String) : IsCallee (.identifier name) name
  | conversion {word : Keyword} (h : word.type?.isSome) : IsCallee (.keyword word) word.spelling

mutual

/-- An expression. -/
inductive IsExpression : Nat → List Token → Expr → Prop where
  /-- An expression takes one place, which is free again behind it. -/
  | nested {room : Nat} {ts : List Token} {e : Expr} (h : IsLevel 1 room ts e) :
      IsExpression (room + 1) ts e

/-- Operands with operators of a level and tighter ones between them. -/
inductive IsLevel : Nat → Nat → List Token → Expr → Prop where
  | operand {room : Nat} {ts : List Token} {e : Expr} (h : IsOperand room ts e) :
      IsLevel 7 room ts e
  | tighter {level room : Nat} {ts : List Token} {e : Expr} (hlevel : level < 7)
      (h : IsLevel (level + 1) room ts e) : IsLevel level room ts e
  /-- An operator of the level. To its left stand others of the same level. -/
  | binary {level room : Nat} {left right : List Token} {sign : Token} {l r : Expr} {op : BinaryOp}
      (hop : BinaryOp.ofKind? sign.kind = some op) (hlevel : op.precedence = level)
      (hleft : IsLevel level room left l) (hright : IsLevel (level + 1) room right r) :
      IsLevel level room (left ++ sign :: right) (.binary l op r sign)

/-- Prefix operators before an atom. -/
inductive IsOperand : Nat → List Token → Expr → Prop where
  | atom {room : Nat} {ts : List Token} {e : Expr} (h : IsAtom room ts e) : IsOperand room ts e
  /-- A prefix operator, which takes one place. -/
  | unary {room : Nat} {ts : List Token} {sign : Token} {e : Expr} {op : UnaryOp}
      (hop : UnaryOp.ofKind? sign.kind = some op) (h : IsOperand room ts e) :
      IsOperand (room + 1) (sign :: ts) (.unary op e sign)

/-- What nothing can split, with the accesses behind it. -/
inductive IsAtom : Nat → List Token → Expr → Prop where
  | literal {room : Nat} {token : Token} {v : Value} (h : token.kind = .literal v) :
      IsAtom room [token] (.literal v token)
  | var {room : Nat} {token : Token} {name : String} (h : token.kind = .identifier name) :
      IsAtom room [token] (.var name token)
  | call {room : Nat} {token paren : Token} {ts : List Token} {name : String} {es : List Expr}
      (hname : IsCallee token.kind name) (hparen : paren.kind = .mark .leftParen)
      (h : IsArguments room ts es) : IsAtom room (token :: paren :: ts) (.call name es false token)
  /-- An expression in parentheses, which leave no trace in the tree. -/
  | group {room : Nat} {paren close : Token} {ts : List Token} {e : Expr}
      (hparen : paren.kind = .mark .leftParen) (h : IsExpression room ts e)
      (hclose : close.kind = .mark .rightParen) : IsAtom room (paren :: ts ++ [close]) e
  | index {room : Nat} {bracket close : Token} {ts us : List Token} {base position : Expr}
      (hbase : IsAtom room ts base) (hbracket : bracket.kind = .mark .leftBracket)
      (h : IsExpression room us position) (hclose : close.kind = .mark .rightBracket) :
      IsAtom room (ts ++ bracket :: us ++ [close]) (.index base position bracket)
  | slice {room : Nat} {bracket colon close : Token} {ts us vs : List Token}
      {base start stop : Expr} (hbase : IsAtom room ts base)
      (hbracket : bracket.kind = .mark .leftBracket) (hstart : IsExpression room us start)
      (hcolon : colon.kind = .mark .colon) (hstop : IsExpression room vs stop)
      (hclose : close.kind = .mark .rightBracket) :
      IsAtom room (ts ++ bracket :: us ++ colon :: vs ++ [close]) (.slice base start stop bracket)

/-- The arguments of a call, up to and with the closing parenthesis. -/
inductive IsArguments : Nat → List Token → List Expr → Prop where
  | empty {room : Nat} {close : Token} (hclose : close.kind = .mark .rightParen) :
      IsArguments room [close] []
  | items {room : Nat} {close : Token} {ts us : List Token} {e : Expr} {es : List Expr}
      (h : IsExpression room ts e) (hrest : IsMoreArguments room us es)
      (hclose : close.kind = .mark .rightParen) : IsArguments room (ts ++ us ++ [close]) (e :: es)

/-- Arguments, each of them behind a comma. -/
inductive IsMoreArguments : Nat → List Token → List Expr → Prop where
  | nil {room : Nat} : IsMoreArguments room [] []
  | cons {room : Nat} {comma : Token} {ts us : List Token} {e : Expr} {es : List Expr}
      (hcomma : comma.kind = .mark .comma) (h : IsExpression room ts e)
      (hrest : IsMoreArguments room us es) : IsMoreArguments room (comma :: ts ++ us) (e :: es)

end

/-- What is derived with tight operators only is derived with looser ones too. -/
theorem IsLevel.loosen {level tighter room : Nat} {ts : List Token} {e : Expr}
    (h : IsLevel tighter room ts e) (htighter : tighter ≤ 7) (hle : level ≤ tighter) :
    IsLevel level room ts e := by
  induction tighter with
  | zero =>
    obtain rfl : level = 0 := by omega
    exact h
  | succ tighter ih =>
    by_cases heq : level = tighter + 1
    · rw [heq]
      exact h
    · exact ih (.tighter (by omega) h) (by omega) (by omega)

/-! Arguments are a list of expressions like any other. -/

theorem isMoreArguments_iff {room : Nat} {ts : List Token} {es : List Expr} :
    IsMoreArguments room ts es ↔ IsMore (IsExpression room) ts es := by
  constructor
  · intro h
    induction es generalizing ts with
    | nil =>
      cases h
      exact .nil
    | cons e es ih =>
      cases h with
      | cons hcomma h hrest => exact .cons hcomma h (ih hrest)
  · intro h
    induction h with
    | nil => exact .nil
    | cons hcomma h _ ih => exact .cons hcomma h ih

theorem isArguments_iff {room : Nat} {ts : List Token} {es : List Expr} :
    IsArguments room ts es ↔ IsList (IsExpression room) .rightParen ts es := by
  constructor
  · intro h
    cases h with
    | empty hclose => exact .empty hclose
    | items h hrest hclose => exact .items h (isMoreArguments_iff.mp hrest) hclose
  · intro h
    cases h with
    | empty hclose => exact .empty hclose
    | items h hrest hclose => exact .items h (isMoreArguments_iff.mpr hrest) hclose

/-! ## Declarations -/

/-- The declared type of a variable: `var(int)`. -/
inductive IsDeclaredType : List Token → DeclaredType → Prop where
  | named {word paren name close : Token} {type : Ty} (hword : word.kind = .keyword .kwVar)
      (hparen : paren.kind = .mark .leftParen) (hname : name.kind.type? = some type)
      (hclose : close.kind = .mark .rightParen) :
      IsDeclaredType [word, paren, name, close] ⟨type, name⟩

/-- The declared result of a function: `func(int)` or `func(void)`. -/
inductive IsDeclaredResult : List Token → DeclaredResult → Prop where
  | named {word paren name close : Token} {type : Ty} (hword : word.kind = .keyword .kwFunc)
      (hparen : paren.kind = .mark .leftParen) (hname : name.kind.type? = some type)
      (hclose : close.kind = .mark .rightParen) :
      IsDeclaredResult [word, paren, name, close] ⟨some type, name⟩
  | void {word paren name close : Token} (hword : word.kind = .keyword .kwFunc)
      (hparen : paren.kind = .mark .leftParen) (hname : name.kind = .keyword .kwVoid)
      (hclose : close.kind = .mark .rightParen) :
      IsDeclaredResult [word, paren, name, close] ⟨none, name⟩

/-- The value behind a declared name, if there is one. -/
inductive IsInitializer (room : Nat) : List Token → Option Expr → Prop where
  | absent : IsInitializer room [] none
  | given {sign : Token} {ts : List Token} {e : Expr} (hsign : sign.kind = .mark .assign)
      (h : IsExpression room ts e) : IsInitializer room (sign :: ts) (some e)

/-- One variable of a declaration. -/
inductive IsDeclarator (room : Nat) : List Token → Declarator → Prop where
  | named {token : Token} {ts : List Token} {name : String} {value : Option Expr}
      (hname : token.kind = .identifier name) (h : IsInitializer room ts value) :
      IsDeclarator room (token :: ts) ⟨name, value, token⟩

/-- A declaration of variables, without the semicolon behind it. -/
inductive IsVarDecl (room : Nat) : List Token → VarDecl → Prop where
  | typed {ts us vs : List Token} {declared : DeclaredType} {d : Declarator}
      {ds : List Declarator} (htype : IsDeclaredType ts declared) (h : IsDeclarator room us d)
      (hrest : IsMore (IsDeclarator room) vs ds) :
      IsVarDecl room (ts ++ us ++ vs) ⟨declared, d :: ds⟩

/-- A parameter of a function. -/
inductive IsParameter (room : Nat) : List Token → Param → Prop where
  | typed {token : Token} {ts us : List Token} {declared : DeclaredType} {name : String}
      {value : Option Expr} (htype : IsDeclaredType ts declared)
      (hname : token.kind = .identifier name) (h : IsInitializer room us value) :
      IsParameter room (ts ++ token :: us) ⟨declared, name, value, token⟩

/-! ## Statements -/

/-- What a `for` loop runs over. Nowhere else do ranges occur. -/
inductive IsIterable (room : Nat) : List Token → Expr → Prop where
  /-- The characters of a text. -/
  | expression {ts : List Token} {e : Expr} (h : IsExpression room ts e) : IsIterable room ts e
  | range {colon : Token} {ts us : List Token} {start stop : Expr}
      (hstart : IsExpression room ts start) (hcolon : colon.kind = .mark .colon)
      (hstop : IsExpression room us stop) :
      IsIterable room (ts ++ colon :: us) (.range start stop colon)
  | steppedRange {colon colon' : Token} {ts us vs : List Token} {start stop step : Expr}
      (hstart : IsExpression room ts start) (hcolon : colon.kind = .mark .colon)
      (hstop : IsExpression room us stop) (hcolon' : colon'.kind = .mark .colon)
      (hstep : IsExpression room vs step) :
      IsIterable room (ts ++ colon :: us ++ colon' :: vs) (.steppedRange start stop step colon)

mutual

/-- A statement. -/
inductive IsStatement : Nat → List Token → Statement → Prop where
  | empty {room : Nat} {semicolon : Token} (h : semicolon.kind = .mark .semicolon) :
      IsStatement room [semicolon] .empty
  | declaration {room : Nat} {semicolon : Token} {ts : List Token} {decl : VarDecl}
      (h : IsVarDecl room ts decl) (hend : semicolon.kind = .mark .semicolon) :
      IsStatement room (ts ++ [semicolon]) (.declaration decl)
  /-- An assignment, to a plain name only. -/
  | assignment {room : Nat} {target sign semicolon : Token} {ts : List Token} {name : String}
      {op : AssignOp} {e : Expr} (htarget : target.kind = .identifier name)
      (hop : AssignOp.ofKind? sign.kind = some op) (h : IsExpression room ts e)
      (hend : semicolon.kind = .mark .semicolon) :
      IsStatement room (target :: sign :: ts ++ [semicolon]) (.assignment name op e target)
  | conditional {room : Nat} {word : Token} {ts us vs : List Token} {condition : Expr}
      {body : List Statement} {otherwise : Alternative} (hword : word.kind = .keyword .kwIf)
      (hcondition : IsExpression room ts condition) (hbody : IsBlock room us body)
      (hotherwise : IsAlternative room vs otherwise) :
      IsStatement room (word :: ts ++ us ++ vs) (.conditional condition body otherwise word)
  | whileLoop {room : Nat} {word : Token} {ts us : List Token} {condition : Expr}
      {body : List Statement} (hword : word.kind = .keyword .kwWhile)
      (hcondition : IsExpression room ts condition) (hbody : IsBlock room us body) :
      IsStatement room (word :: ts ++ us) (.whileLoop condition body word)
  /-- A loop over a range or a text, with one variable that is given no value. -/
  | forLoop {room : Nat} {word token within : Token} {ts us vs : List Token}
      {declared : DeclaredType} {name : String} {iterable : Expr} {body : List Statement}
      (hword : word.kind = .keyword .kwFor) (htype : IsDeclaredType ts declared)
      (hname : token.kind = .identifier name) (hwithin : within.kind = .keyword .kwIn)
      (hiterable : IsIterable room us iterable) (hbody : IsBlock room vs body) :
      IsStatement room (word :: ts ++ token :: within :: us ++ vs)
        (.forLoop ⟨declared, [⟨name, none, token⟩]⟩ iterable body word)
  | breakLoop {room : Nat} {word semicolon : Token} (hword : word.kind = .keyword .kwBreak)
      (hend : semicolon.kind = .mark .semicolon) :
      IsStatement room [word, semicolon] (.breakLoop word)
  | continueLoop {room : Nat} {word semicolon : Token} (hword : word.kind = .keyword .kwContinue)
      (hend : semicolon.kind = .mark .semicolon) :
      IsStatement room [word, semicolon] (.continueLoop word)
  | returnNothing {room : Nat} {word semicolon : Token} (hword : word.kind = .keyword .kwReturn)
      (hend : semicolon.kind = .mark .semicolon) :
      IsStatement room [word, semicolon] (.returnFrom none word)
  | returnValue {room : Nat} {word semicolon : Token} {ts : List Token} {e : Expr}
      (hword : word.kind = .keyword .kwReturn) (h : IsExpression room ts e)
      (hend : semicolon.kind = .mark .semicolon) :
      IsStatement room (word :: ts ++ [semicolon]) (.returnFrom (some e) word)
  | function {room : Nat} {token paren : Token} {ts us vs : List Token}
      {returns : DeclaredResult} {name : String} {params : List Param} {body : List Statement}
      (hreturns : IsDeclaredResult ts returns) (hname : token.kind = .identifier name)
      (hparen : paren.kind = .mark .leftParen)
      (hparams : IsList (IsParameter room) .rightParen us params) (hbody : IsBlock room vs body) :
      IsStatement room (ts ++ token :: paren :: us ++ vs)
        (.function ⟨returns, name, params, body, token⟩)
  | expression {room : Nat} {semicolon : Token} {ts : List Token} {e : Expr}
      (h : IsExpression room ts e) (hend : semicolon.kind = .mark .semicolon) :
      IsStatement room (ts ++ [semicolon]) (.expression e.asStatement)

/-- What follows a branch of a conditional. -/
inductive IsAlternative : Nat → List Token → Alternative → Prop where
  | absent {room : Nat} : IsAlternative room [] .absent
  | elseif {room : Nat} {word : Token} {ts us vs : List Token} {condition : Expr}
      {body : List Statement} {rest : Alternative} (hword : word.kind = .keyword .kwElseif)
      (hcondition : IsExpression room ts condition) (hbody : IsBlock room us body)
      (hrest : IsAlternative room vs rest) :
      IsAlternative room (word :: ts ++ us ++ vs) (.elseif condition body rest)
  | otherwise {room : Nat} {word : Token} {ts : List Token} {body : List Statement}
      (hword : word.kind = .keyword .kwElse) (hbody : IsBlock room ts body) :
      IsAlternative room (word :: ts) (.otherwise body)

/-- Statements in braces. -/
inductive IsBlock : Nat → List Token → List Statement → Prop where
  /-- A block takes one place, which is free again behind it. -/
  | nested {room : Nat} {brace close : Token} {ts : List Token} {body : List Statement}
      (hbrace : brace.kind = .mark .leftBrace) (h : IsStatements room ts body)
      (hclose : close.kind = .mark .rightBrace) :
      IsBlock (room + 1) (brace :: ts ++ [close]) body

/-- Statements, one after the other. -/
inductive IsStatements : Nat → List Token → List Statement → Prop where
  | nil {room : Nat} : IsStatements room [] []
  | cons {room : Nat} {ts us : List Token} {s : Statement} {rest : List Statement}
      (h : IsStatement room ts s) (hrest : IsStatements room us rest) :
      IsStatements room (ts ++ us) (s :: rest)

end

end ScopedScript.Grammar
