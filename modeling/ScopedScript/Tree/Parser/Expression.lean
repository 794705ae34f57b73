import ScopedScript.Tree.Parser

/-!
# Reading expressions

Binary operators associate to the left, on six levels of precedence. Below them are the prefix
operators, then the accesses behind an atom, then the atoms: literals, names, calls and whatever
stands in parentheses.

The readers are given how many more constructs can be open. Each nested expression and each prefix
operator takes one, so the recursion is on that number.
-/

namespace ScopedScript.Parser

/-! ## Binary operators -/

/-- Takes the next token if it is a binary operator of the given precedence. -/
def operator? (precedence : Nat) : Parser (Option (BinaryOp × Token)) := do
  match ← peek with
  | none => return none
  | some token =>
    match BinaryOp.ofKind? token.kind with
    | some op =>
      if op.precedence = precedence then
        skip
        return some (op, token)
      else return none
    | none => return none

/-- The operators of a precedence that follow, with their right operands, joined to what stands to
their left. There are no more of them than tokens ahead. -/
def operatorTail (operand : Parser Expr) (precedence : Nat) : List Token → Expr → Parser Expr
  | [], left => return left
  | _ :: ahead, left => do
    match ← operator? precedence with
    | none => return left
    | some (op, token) =>
      let right ← operand
      operatorTail operand precedence ahead (.binary left op right token)

/-- Operands with operators of one precedence between them. -/
def leftAssociative (operand : Parser Expr) (precedence : Nat) : Parser Expr := do
  let first ← operand
  operatorTail operand precedence (← get) first

/-- Operands with operators of all precedences between them, the strongest innermost. -/
def levels (operand : Parser Expr) : Parser Expr :=
  [6, 5, 4, 3, 2, 1].foldl leftAssociative operand

/-! ## Atoms -/

/-- The accesses that follow an expression. There are no more of them than tokens ahead. -/
def accesses (nested : Parser Expr) : List Token → Expr → Parser Expr
  | [], base => return base
  | _ :: ahead, base => do
    match ← peek with
    | none => return base
    | some token =>
      if token.kind = .mark .leftBracket then
        skip
        let start ← nested
        let stop ← optional (.mark .colon) nested
        let _ ← mark .rightBracket
        accesses nested ahead <| match stop with
          | none => .index base start token
          | some stop => .slice base start stop token
      else return base

/-- A literal, a name, a call, or an expression in parentheses. The nested expressions are read by
the given reader. -/
def primary (nested : Parser Expr) : Parser Expr := do
  match ← peek with
  | none => exhausted .expression
  | some token =>
    match token.kind with
    | .literal value =>
      skip
      return .literal value token
    | .identifier name =>
      skip
      if ← eat (.mark .leftParen) then
        return .call name (← commaSeparated nested .rightParen) false token
      else return .var name token
    | .keyword word =>
      if word.type?.isSome then
        skip
        let _ ← expect (.mark .leftParen) .parenAfterType
        return .call word.spelling (← commaSeparated nested .rightParen) false token
      else unexpected token .expression
    | .mark .leftParen =>
      skip
      let inside ← nested
      let _ ← mark .rightParen
      return inside
    | _ => unexpected token .expression

/-- An atom and the accesses behind it. -/
def atom (nested : Parser Expr) : Parser Expr := do
  let base ← primary nested
  accesses nested (← get) base

/-! ## Prefix operators and whole expressions -/

/-- A prefix operator before an operand, or an atom. One more construct than can be open is a
fault at its own token, so the reader for what stands behind a prefix operator is only asked for
when there is one. -/
def prefixed (below : Option (Parser Expr)) (atom : Parser Expr) : Parser Expr := do
  match ← peek with
  | none => atom
  | some token =>
    match UnaryOp.ofKind? token.kind with
    | none => atom
    | some op =>
      match below with
      | none => tooDeep
      | some operand =>
        skip
        return .unary op (← operand) token

/-- An operand, with room for the given number of further constructs. -/
def operand : Nat → Parser Expr
  | 0 => prefixed none (atom tooDeep)
  | room + 1 => prefixed (some (operand room)) (atom (levels (operand room)))

/-- An expression, with room for the given number of constructs, itself included. -/
def expression : Nat → Parser Expr
  | 0 => tooDeep
  | room + 1 => levels (operand room)

/-- An expression, or the bounds and the step of a range with colons between them. -/
def rangeOrExpression (expression : Parser Expr) : Parser Expr := do
  let start ← expression
  match ← peek with
  | none => return start
  | some token =>
    if token.kind = .mark .colon then
      skip
      let stop ← expression
      match ← optional (.mark .colon) expression with
      | none => return .range start stop token
      | some step => return .steppedRange start stop step token
    else return start

theorem operand_zero : operand 0 = prefixed none (atom (expression 0)) := rfl

theorem operand_succ (room : Nat) :
    operand (room + 1) = prefixed (some (operand room)) (atom (expression (room + 1))) := rfl

end ScopedScript.Parser
