import ScopedScript.Tree

/-!
# Reading trees from tokens: the basic readers

A reader takes tokens off the front of a list and yields what they stand for, or a diagnostic that
says what was expected instead. Running out of tokens is reported apart from finding the wrong one.

A reader that repeats itself is given the tokens ahead. Every round takes at least one of them, so
the recursion is on that list.
-/

namespace ScopedScript

/-- How many blocks, expressions and prefix operators can be open at a time. -/
def nestingLimit : Nat := 64

/-! ## Faults -/

/-- What a reader expected. -/
inductive Expectation where
  | statement
  | expression
  | identifier
  | typeName
  | endOfInput
  | keyword (word : Keyword)
  | mark (sign : Mark)
  | commaOr (closing : Mark)
  /-- The parenthesis that a type needs behind it to be a conversion. -/
  | parenAfterType
  deriving DecidableEq

/-- What a reader expected, in words. -/
def Expectation.text : Expectation → String
  | statement => "statement"
  | expression => "expression"
  | identifier => "identifier"
  | typeName => "type name"
  | endOfInput => "end of input"
  | keyword word => "'" ++ word.spelling ++ "'"
  | mark sign => "'" ++ sign.spelling ++ "'"
  | commaOr closing => "',' or '" ++ closing.spelling ++ "'"
  | parenAfterType => "'(' after type name"

/-- Why tokens are no tree. -/
inductive ParseFault where
  | unexpectedToken (expected : Expectation) (found : TokenKind)
  | unexpectedEnd (expected : Expectation)
  | invalidAssignmentTarget
  /-- A `for` loop declares several variables, or one with a value. -/
  | invalidLoopVariable
  | nestingTooDeep
  deriving DecidableEq

/-- The wording of a fault. -/
def ParseFault.wording : ParseFault → String
  | unexpectedToken expected found =>
    "Expected " ++ expected.text ++ ", found " ++ found.describe
  | unexpectedEnd expected => "Unexpected end of input, expected " ++ expected.text
  | invalidAssignmentTarget => "Invalid assignment target"
  | invalidLoopVariable => "A for loop declares exactly one uninitialized variable"
  | nestingTooDeep => s!"Nesting deeper than {nestingLimit} levels"

/-! ## Operators among the tokens -/

/-- The binary operator that a token is. -/
def BinaryOp.ofKind? : TokenKind → Option BinaryOp
  | .mark .plus => some .add
  | .mark .minus => some .sub
  | .mark .star => some .mul
  | .mark .slash => some .div
  | .mark .doubleSlash => some .floorDiv
  | .mark .percent => some .mod
  | .mark .less => some .less
  | .mark .greater => some .greater
  | .mark .lessEqual => some .lessEqual
  | .mark .greaterEqual => some .greaterEqual
  | .mark .equal => some .equal
  | .mark .notEqual => some .notEqual
  | .keyword .kwAnd => some .and
  | .keyword .kwOr => some .or
  | _ => none

/-- The prefix operator that a token is. -/
def UnaryOp.ofKind? : TokenKind → Option UnaryOp
  | .mark .plus => some .plus
  | .mark .minus => some .negate
  | .keyword .kwNot => some .not
  | _ => none

/-- The assignment operator that a token is. -/
def AssignOp.ofKind? : TokenKind → Option AssignOp
  | .mark .assign => some .plain
  | .mark .plusAssign => some (.compound .add)
  | .mark .minusAssign => some (.compound .sub)
  | .mark .starAssign => some (.compound .mul)
  | .mark .slashAssign => some (.compound .div)
  | .mark .doubleSlashAssign => some (.compound .floorDiv)
  | .mark .percentAssign => some (.compound .mod)
  | _ => none

/-! ## Readers -/

/-- Readers of trees: they take tokens off the front of a list, or say why they cannot. -/
abbrev Parser := StateT (List Token) (Except (Diagnostic ParseFault))

namespace Parser

/-- The next token, which is not taken. -/
def peek : Parser (Option Token) := return (← get).head?

/-- Takes the next token. -/
def skip : Parser Unit := modify List.tail

/-- A fault at a token that does not fit; the end of the source counts as running out. -/
def unexpected {α : Type} (token : Token) (expected : Expectation) : Parser α :=
  throw <|
    if token.kind = .endOfInput then ⟨.unexpectedEnd expected, token.position⟩
    else ⟨.unexpectedToken expected token.kind, token.position⟩

/-- A fault behind the last token of a list that has no end-of-source token. -/
def exhausted {α : Type} (expected : Expectation) : Parser α :=
  throw ⟨.unexpectedEnd expected, .nowhere⟩

/-- A fault at the next token: one construct more is open than there can be. -/
def tooDeep {α : Type} : Parser α := do
  let position := match ← peek with
    | some token => token.position
    | none => .nowhere
  throw ⟨.nestingTooDeep, position⟩

/-- Takes a token of the given kind. -/
def expect (kind : TokenKind) (expected : Expectation) : Parser Token := do
  match ← peek with
  | none => exhausted expected
  | some token =>
    if token.kind = kind then
      skip
      return token
    else unexpected token expected

/-- Takes a sign. -/
def mark (sign : Mark) : Parser Token := expect (.mark sign) (.mark sign)

/-- Takes a reserved word. -/
def keyword (word : Keyword) : Parser Token := expect (.keyword word) (.keyword word)

/-- Takes the next token if it is of the given kind, and tells whether it was. -/
def eat (kind : TokenKind) : Parser Bool := do
  match ← peek with
  | none => return false
  | some token =>
    if token.kind = kind then
      skip
      return true
    else return false

/-- Takes a name. -/
def identifier : Parser (String × Token) := do
  match ← peek with
  | none => exhausted .identifier
  | some token =>
    match token.kind with
    | .identifier name =>
      skip
      return (name, token)
    | _ => unexpected token .identifier

/-- Reads with the given reader if the next token is of the given kind, which is taken first. -/
def optional {α : Type} (kind : TokenKind) (reader : Parser α) : Parser (Option α) := do
  if ← eat kind then return some (← reader) else return none

/-- The items behind the first one, up to and with the closing sign. Each takes a comma, so there
are no more of them than tokens ahead. -/
def commaTail {α : Type} (item : Parser α) (closing : Mark) : List Token → Parser (List α)
  | [] => exhausted (.commaOr closing)
  | _ :: ahead => do
    match ← peek with
    | none => exhausted (.commaOr closing)
    | some token =>
      if token.kind = .mark .comma then
        skip
        let next ← item
        return next :: (← commaTail item closing ahead)
      else if token.kind = .mark closing then
        skip
        return []
      else unexpected token (.commaOr closing)

/-- Items with commas between them, up to and with the closing sign. -/
def commaSeparated {α : Type} (item : Parser α) (closing : Mark) : Parser (List α) := do
  if ← eat (.mark closing) then return []
  else
    let first ← item
    return first :: (← commaTail item closing (← get))

end Parser

end ScopedScript
