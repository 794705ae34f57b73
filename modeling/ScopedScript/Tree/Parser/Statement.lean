import ScopedScript.Tree.Parser.Expression

/-!
# Reading statements

The first token tells the form of a statement, except that an assignment and an expression both
start with a name: there the second token tells.
-/

namespace ScopedScript.Parser

/-! ## Declarations -/

/-- Takes the name of a type. -/
def typeName : Parser DeclaredType := do
  match ← peek with
  | none => exhausted .typeName
  | some token =>
    match token.kind.type? with
    | some type =>
      skip
      return ⟨type, token⟩
    | none => unexpected token .typeName

/-- The declared type of a variable: `var(int)`. -/
def declaredType : Parser DeclaredType := do
  let _ ← keyword .kwVar
  let _ ← mark .leftParen
  let declared ← typeName
  let _ ← mark .rightParen
  return declared

/-- The declared result of a function: `func(int)` or `func(void)`. -/
def declaredResult : Parser DeclaredResult := do
  let _ ← keyword .kwFunc
  let _ ← mark .leftParen
  let declared ← match ← peek with
    | some token =>
      if token.kind = .keyword .kwVoid then do
        skip
        pure ⟨none, token⟩
      else do
        let ⟨type, token⟩ ← typeName
        pure ⟨some type, token⟩
    | none => exhausted .typeName
  let _ ← mark .rightParen
  return declared

/-- A name and the value it is given, if any. -/
def declarator (expression : Parser Expr) : Parser Declarator := do
  let (name, token) ← identifier
  return ⟨name, ← optional (.mark .assign) expression, token⟩

/-- The names behind the first one. There are no more of them than tokens ahead. -/
def declaratorTail (expression : Parser Expr) : List Token → Parser (List Declarator)
  | [] => return []
  | _ :: ahead => do
    if ← eat (.mark .comma) then
      let next ← declarator expression
      return next :: (← declaratorTail expression ahead)
    else return []

/-- A declaration of variables, without the semicolon behind it. -/
def varDecl (expression : Parser Expr) : Parser VarDecl := do
  let declared ← declaredType
  let first ← declarator expression
  let rest ← declaratorTail expression (← get)
  return ⟨declared, first :: rest⟩

/-- A parameter of a function. -/
def parameter (expression : Parser Expr) : Parser Param := do
  let declared ← declaredType
  let (name, token) ← identifier
  return ⟨declared, name, ← optional (.mark .assign) expression, token⟩

/-! ## Statements around blocks

The readers below are given the readers for nested expressions and blocks. -/

section Nested

variable (expression : Parser Expr) (block : Parser (List Statement))

/-- The further branches of a conditional. There are no more of them than tokens ahead. -/
def alternatives : List Token → Parser Alternative
  | [] => return .absent
  | _ :: ahead => do
    if ← eat (.keyword .kwElseif) then
      let condition ← expression
      let body ← block
      return .elseif condition body (← alternatives ahead)
    else if ← eat (.keyword .kwElse) then return .otherwise (← block)
    else return .absent

/-- A conditional. -/
def conditional : Parser Statement := do
  let token ← keyword .kwIf
  let condition ← expression
  let body ← block
  let otherwise ← alternatives expression block (← get)
  return .conditional condition body otherwise token

/-- A loop that runs as long as a condition holds. -/
def whileLoop : Parser Statement := do
  let token ← keyword .kwWhile
  let condition ← expression
  return .whileLoop condition (← block) token

/-- A loop over a range or a text. Its header declares one variable without a value; the fault
points at the variable that has one, or at the loop if the number is wrong. -/
def forLoop : Parser Statement := do
  let token ← keyword .kwFor
  let decl ← varDecl expression
  match decl.declarators with
  | [only] =>
    if only.initializer.isSome then throw ⟨.invalidLoopVariable, only.token.position⟩
  | _ => throw ⟨.invalidLoopVariable, token.position⟩
  let _ ← keyword .kwIn
  let iterable ← rangeOrExpression expression
  return .forLoop decl iterable (← block) token

/-- A declaration of a function. -/
def function : Parser Statement := do
  let returns ← declaredResult
  let (name, token) ← identifier
  let _ ← mark .leftParen
  let params ← commaSeparated (parameter expression) .rightParen
  return .function ⟨returns, name, params, ← block, token⟩

/-- Leaving a function, with a value or without. -/
def returnFrom : Parser Statement := do
  let token ← keyword .kwReturn
  if ← eat (.mark .semicolon) then return .returnFrom none token
  else
    let value ← expression
    let _ ← mark .semicolon
    return .returnFrom (some value) token

/-- An expression that stands alone. An assignment operator behind it shows that it was meant as
the target of an assignment. -/
def expressionStatement : Parser Statement := do
  let expr ← expression
  if let some token ← peek then
    if (AssignOp.ofKind? token.kind).isSome then
      throw ⟨.invalidAssignmentTarget, expr.position⟩
  let _ ← mark .semicolon
  return .expression expr.asStatement

/-- A name with an assignment operator behind it starts an assignment, and anything else an
expression. -/
def assignmentOrExpression : Parser Statement := do
  match ← get with
  | target :: sign :: rest =>
    match target.kind, AssignOp.ofKind? sign.kind with
    | .identifier name, some op =>
      set rest
      let value ← expression
      let _ ← mark .semicolon
      return .assignment name op value target
    | _, _ => expressionStatement expression
  | _ => expressionStatement expression

/-- A statement, given the readers for the expressions and blocks in it. -/
def statementWith : Parser Statement := do
  match ← peek with
  | none => exhausted .statement
  | some token =>
    match token.kind with
    | .mark .semicolon =>
      skip
      return .empty
    | .keyword .kwVar =>
      let decl ← varDecl expression
      let _ ← mark .semicolon
      return .declaration decl
    | .keyword .kwIf => conditional expression block
    | .keyword .kwWhile => whileLoop expression block
    | .keyword .kwFor => forLoop expression block
    | .keyword .kwBreak =>
      skip
      let _ ← mark .semicolon
      return .breakLoop token
    | .keyword .kwContinue =>
      skip
      let _ ← mark .semicolon
      return .continueLoop token
    | .keyword .kwReturn => returnFrom expression
    | .keyword .kwFunc => function expression block
    | _ => assignmentOrExpression expression

end Nested

/-! ## Lists of statements and blocks -/

/-- Statements up to a closing token or the end of the source, neither of which is taken. There are
no more of them than tokens ahead. -/
def statementItems (statement : Parser Statement) (closing : TokenKind) :
    List Token → Parser (List Statement)
  | [] => return []
  | _ :: ahead => do
    match ← peek with
    | none => return []
    | some token =>
      if token.kind = closing ∨ token.kind = .endOfInput then return []
      else
        let first ← statement
        return first :: (← statementItems statement closing ahead)

/-- Statements up to a closing token or the end of the source. -/
def statements (statement : Parser Statement) (closing : TokenKind) : Parser (List Statement) := do
  statementItems statement closing (← get)

/-- Statements in braces. -/
def blockOf (statement : Parser Statement) : Parser (List Statement) := do
  let _ ← mark .leftBrace
  let body ← statements statement (.mark .rightBrace)
  let _ ← mark .rightBrace
  return body

/-- A statement, with room for the given number of further constructs. -/
def statement : Nat → Parser Statement
  | 0 => statementWith (expression 0) tooDeep
  | room + 1 => statementWith (expression (room + 1)) (blockOf (statement room))

/-- Statements up to the end of the source, which is taken. -/
def program : Parser Program := do
  let body ← statements (statement nestingLimit) .endOfInput
  let _ ← expect .endOfInput .endOfInput
  return body

end ScopedScript.Parser

namespace ScopedScript

/-- The program that tokens stand for, or the first fault. Tokens behind the first end of the
source are not read. -/
def parse (tokens : List Token) : Except (Diagnostic ParseFault) Program :=
  (Parser.program tokens).map (·.1)

end ScopedScript
