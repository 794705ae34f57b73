import ScopedScript.Token.Lexer
import ScopedScript.Proofs.Grammar
import ScopedScript.Tree.Printer

/-!
# What a written tree is made of

The token kinds that the text of a tree stands for, and which trees are written so that they can be
read: their names and values have a spelling, ranges stand in loops only, and not too many
constructs are open at a time once the written parentheses count among them.

Two trees are the same up to where they were read from if they agree when the text and the position
of every token in them is forgotten.
-/

namespace ScopedScript

/-! ## Trees without places -/

/-- A token without its text and its position. -/
def Token.bare (token : Token) : Token := ⟨token.kind, "", .nowhere⟩

mutual

/-- An expression without the places it was read from. -/
def Expr.bare : Expr → Expr
  | .literal value token => .literal value token.bare
  | .var name token => .var name token.bare
  | .unary op operand token => .unary op operand.bare token.bare
  | .binary left op right token => .binary left.bare op right.bare token.bare
  | .call name arguments isStatement token =>
    .call name (Expr.bareList arguments) isStatement token.bare
  | .index base position token => .index base.bare position.bare token.bare
  | .slice base start stop token => .slice base.bare start.bare stop.bare token.bare
  | .range start stop token => .range start.bare stop.bare token.bare
  | .steppedRange start stop step token =>
    .steppedRange start.bare stop.bare step.bare token.bare

/-- Expressions without the places they were read from. -/
def Expr.bareList : List Expr → List Expr
  | [] => []
  | e :: rest => e.bare :: Expr.bareList rest

end

/-- A declared type without the place it was read from. -/
def DeclaredType.bare (declared : DeclaredType) : DeclaredType :=
  ⟨declared.type, declared.token.bare⟩

/-- A declared result without the place it was read from. -/
def DeclaredResult.bare (declared : DeclaredResult) : DeclaredResult :=
  ⟨declared.type, declared.token.bare⟩

/-- A declared variable without the places it was read from. -/
def Declarator.bare (d : Declarator) : Declarator :=
  ⟨d.name, d.initializer.map Expr.bare, d.token.bare⟩

/-- A declaration without the places it was read from. -/
def VarDecl.bare (decl : VarDecl) : VarDecl :=
  ⟨decl.declared.bare, decl.declarators.map Declarator.bare⟩

/-- A parameter without the places it was read from. -/
def Param.bare (param : Param) : Param :=
  ⟨param.declared.bare, param.name, param.fallback.map Expr.bare, param.token.bare⟩

mutual

/-- A statement without the places it was read from. -/
def Statement.bare : Statement → Statement
  | .empty => .empty
  | .declaration decl => .declaration decl.bare
  | .assignment target op value token => .assignment target op value.bare token.bare
  | .conditional condition body otherwise token =>
    .conditional condition.bare (Statement.bareList body) otherwise.bare token.bare
  | .whileLoop condition body token =>
    .whileLoop condition.bare (Statement.bareList body) token.bare
  | .forLoop loopVariable iterable body token =>
    .forLoop loopVariable.bare iterable.bare (Statement.bareList body) token.bare
  | .breakLoop token => .breakLoop token.bare
  | .continueLoop token => .continueLoop token.bare
  | .returnFrom value token => .returnFrom (value.map Expr.bare) token.bare
  | .function decl => .function decl.bare
  | .expression expr => .expression expr.bare

/-- Further branches without the places they were read from. -/
def Alternative.bare : Alternative → Alternative
  | .absent => .absent
  | .elseif condition body rest =>
    .elseif condition.bare (Statement.bareList body) rest.bare
  | .otherwise body => .otherwise (Statement.bareList body)

/-- A function without the places it was read from. -/
def FunctionDecl.bare : FunctionDecl → FunctionDecl
  | ⟨returns, name, params, body, token⟩ =>
    ⟨returns.bare, name, params.map Param.bare, Statement.bareList body, token.bare⟩

/-- Statements without the places they were read from. -/
def Statement.bareList : List Statement → List Statement
  | [] => []
  | statement :: rest => statement.bare :: Statement.bareList rest

end

/-- A program without the places it was read from. -/
def Program.bare (program : Program) : Program := Statement.bareList program

/-! ## Token kinds of written trees -/

/-- The token kind of a binary operator. -/
def BinaryOp.kind : BinaryOp → TokenKind
  | .add => .mark .plus
  | .sub => .mark .minus
  | .mul => .mark .star
  | .div => .mark .slash
  | .floorDiv => .mark .doubleSlash
  | .mod => .mark .percent
  | .less => .mark .less
  | .greater => .mark .greater
  | .lessEqual => .mark .lessEqual
  | .greaterEqual => .mark .greaterEqual
  | .equal => .mark .equal
  | .notEqual => .mark .notEqual
  | .and => .keyword .kwAnd
  | .or => .keyword .kwOr

/-- The token kind of a prefix operator. -/
def UnaryOp.kind : UnaryOp → TokenKind
  | .plus => .mark .plus
  | .negate => .mark .minus
  | .not => .keyword .kwNot

/-- The sign of an assignment operator, if it has one: only arithmetic is joined with assignment. -/
def AssignOp.mark? : AssignOp → Option Mark
  | .plain => some .assign
  | .compound .add => some .plusAssign
  | .compound .sub => some .minusAssign
  | .compound .mul => some .starAssign
  | .compound .div => some .slashAssign
  | .compound .floorDiv => some .doubleSlashAssign
  | .compound .mod => some .percentAssign
  | .compound _ => none

/-- The reserved word that names a type. -/
def Ty.word : Ty → Keyword
  | .int => .kwInt
  | .float => .kwFloat
  | .bool => .kwBool
  | .str => .kwStr

/-- Token kinds, in parentheses if asked for. -/
def enclose (needed : Bool) (kinds : List TokenKind) : List TokenKind :=
  if needed then .mark .leftParen :: kinds ++ [.mark .rightParen] else kinds

/-- Token kinds with commas between them. -/
def commaKinds : List (List TokenKind) → List TokenKind
  | [] => []
  | [kinds] => kinds
  | kinds :: rest => kinds ++ .mark .comma :: commaKinds rest

mutual

/-- The token kinds of a written expression. -/
def Expr.kinds : Expr → List TokenKind
  | .literal value _ => [.literal value]
  | .var name _ => [.identifier name]
  | .unary op operand _ => op.kind :: enclose (operand.strength < unaryStrength) operand.kinds
  | .binary left op right _ =>
    enclose (left.strength < op.precedence) left.kinds ++
      op.kind :: enclose (right.strength ≤ op.precedence) right.kinds
  | .call name arguments _ _ =>
    Lexer.wordKind name :: .mark .leftParen ::
      (commaKinds (Expr.kindsList arguments) ++ [.mark .rightParen])
  | .index base position _ =>
    enclose (base.strength < atomStrength) base.kinds ++
      .mark .leftBracket :: (position.kinds ++ [.mark .rightBracket])
  | .slice base start stop _ =>
    enclose (base.strength < atomStrength) base.kinds ++
      .mark .leftBracket :: (start.kinds ++ .mark .colon :: (stop.kinds ++ [.mark .rightBracket]))
  | .range start stop _ => start.kinds ++ .mark .colon :: stop.kinds
  | .steppedRange start stop step _ =>
    start.kinds ++ .mark .colon :: (stop.kinds ++ .mark .colon :: step.kinds)

/-- The token kinds of written expressions, each for itself. -/
def Expr.kindsList : List Expr → List (List TokenKind)
  | [] => []
  | e :: rest => e.kinds :: Expr.kindsList rest

end

/-- The token kinds of a name, and of the value it is given if there is one. -/
def declaredKinds (name : String) : Option Expr → List TokenKind
  | none => [.identifier name]
  | some value => .identifier name :: .mark .assign :: value.kinds

/-- The token kinds of a declared type. -/
def DeclaredType.kinds (declared : DeclaredType) : List TokenKind :=
  [.keyword .kwVar, .mark .leftParen, .keyword declared.type.word, .mark .rightParen]

/-- The reserved word of a declared result. -/
def DeclaredResult.word (declared : DeclaredResult) : Keyword :=
  match declared.type with
  | some type => type.word
  | none => .kwVoid

/-- The token kinds of a declared result. -/
def DeclaredResult.kinds (declared : DeclaredResult) : List TokenKind :=
  [.keyword .kwFunc, .mark .leftParen, .keyword declared.word, .mark .rightParen]

/-- The token kinds of a declaration. -/
def VarDecl.kinds (decl : VarDecl) : List TokenKind :=
  decl.declared.kinds ++
    commaKinds (decl.declarators.map fun d => declaredKinds d.name d.initializer)

/-- The token kinds of a parameter. -/
def Param.kinds (param : Param) : List TokenKind :=
  param.declared.kinds ++ declaredKinds param.name param.fallback

/-- The token kinds of a block around others. -/
def blockKinds (kinds : List TokenKind) : List TokenKind :=
  .mark .leftBrace :: (kinds ++ [.mark .rightBrace])

mutual

/-- The token kinds of a written statement. -/
def Statement.kinds : Statement → List TokenKind
  | .empty => [.mark .semicolon]
  | .declaration decl => decl.kinds ++ [.mark .semicolon]
  | .assignment target op value _ =>
    .identifier target :: ((op.mark?.map TokenKind.mark).toList ++
      (value.kinds ++ [.mark .semicolon]))
  | .conditional condition body otherwise _ =>
    .keyword .kwIf :: (condition.kinds ++ (blockKinds (Statement.kindsList body) ++
      otherwise.kinds))
  | .whileLoop condition body _ =>
    .keyword .kwWhile :: (condition.kinds ++ blockKinds (Statement.kindsList body))
  | .forLoop loopVariable iterable body _ =>
    .keyword .kwFor :: (loopVariable.kinds ++ .keyword .kwIn :: (iterable.kinds ++
      blockKinds (Statement.kindsList body)))
  | .breakLoop _ => [.keyword .kwBreak, .mark .semicolon]
  | .continueLoop _ => [.keyword .kwContinue, .mark .semicolon]
  | .returnFrom (some value) _ => .keyword .kwReturn :: (value.kinds ++ [.mark .semicolon])
  | .returnFrom none _ => [.keyword .kwReturn, .mark .semicolon]
  | .function decl => decl.kinds
  | .expression expr => expr.kinds ++ [.mark .semicolon]

/-- The token kinds of written further branches. -/
def Alternative.kinds : Alternative → List TokenKind
  | .absent => []
  | .elseif condition body rest =>
    .keyword .kwElseif :: (condition.kinds ++ (blockKinds (Statement.kindsList body) ++ rest.kinds))
  | .otherwise body => .keyword .kwElse :: blockKinds (Statement.kindsList body)

/-- The token kinds of a written function. -/
def FunctionDecl.kinds : FunctionDecl → List TokenKind
  | ⟨returns, name, params, body, _⟩ =>
    returns.kinds ++ .identifier name :: .mark .leftParen ::
      (commaKinds (params.map Param.kinds) ++ .mark .rightParen ::
        blockKinds (Statement.kindsList body))

/-- The token kinds of written statements. -/
def Statement.kindsList : List Statement → List TokenKind
  | [] => []
  | statement :: rest => statement.kinds ++ Statement.kindsList rest

end

/-! ## Trees that are read from tokens -/

/-- A name that is read as one word. -/
def IsWord (name : String) : Prop :=
  ∃ first rest, name.toList = first :: rest ∧ Text.isNameStart first ∧ rest.all Text.isNamePart

/-- A value that has a literal: a number with a minus sign is none. -/
def Value.HasLiteral : Value → Prop
  | .int n => 0 ≤ n.toInt
  | .float x => ∃ pattern < Binary.infinity, x = Binary.ofMagnitude false pattern
  | .bool _ | .str _ => True

/-- A token kind that is read from a text. -/
def TokenKind.Readable : TokenKind → Prop
  | .literal value => value.HasLiteral
  | .identifier name => IsWord name ∧ Lexer.wordKind name = .identifier name
  | _ => True

/-- One construct more if asked for. -/
def deepen (needed : Bool) (depth : Nat) : Nat := if needed then depth + 1 else depth

mutual

/-- How many constructs are open at a time in a written expression, not counting itself. -/
def Expr.depth : Expr → Nat
  | .literal .. | .var .. => 0
  | .unary _ operand _ => deepen (operand.strength < unaryStrength) operand.depth + 1
  | .binary left op right _ =>
    max (deepen (left.strength < op.precedence) left.depth)
      (deepen (right.strength ≤ op.precedence) right.depth)
  | .call _ arguments _ _ => Expr.depthList arguments
  | .index base position _ =>
    max (deepen (base.strength < atomStrength) base.depth) (position.depth + 1)
  | .slice base start stop _ =>
    max (deepen (base.strength < atomStrength) base.depth) (max (start.depth + 1) (stop.depth + 1))
  | .range start stop _ => max start.depth stop.depth
  | .steppedRange start stop step _ => max start.depth (max stop.depth step.depth)

/-- How many constructs are open at a time in written expressions. -/
def Expr.depthList : List Expr → Nat
  | [] => 0
  | e :: rest => max (e.depth + 1) (Expr.depthList rest)

end

mutual

/-- An expression that is read from tokens: names and values have a spelling, every node keeps a
token of the kind it is read from, and there is no range in it. -/
def Expr.Sound : Expr → Prop
  | .literal value token => value.HasLiteral ∧ token.kind = .literal value
  | .var name token => (TokenKind.identifier name).Readable ∧ token.kind = .identifier name
  | .unary op operand token => operand.Sound ∧ token.kind = op.kind
  | .binary left op right token => left.Sound ∧ right.Sound ∧ token.kind = op.kind
  | .call name arguments isStatement token =>
    Expr.SoundList arguments ∧ isStatement = false ∧ IsWord name ∧
      token.kind = Lexer.wordKind name ∧ Grammar.IsCallee token.kind name
  | .index base position token =>
    base.Sound ∧ position.Sound ∧ token.kind = .mark .leftBracket
  | .slice base start stop token =>
    base.Sound ∧ start.Sound ∧ stop.Sound ∧ token.kind = .mark .leftBracket
  | .range .. | .steppedRange .. => False

/-- Expressions that are read from tokens. -/
def Expr.SoundList : List Expr → Prop
  | [] => True
  | e :: rest => e.Sound ∧ Expr.SoundList rest

end

/-- An expression that is read with some room. -/
def Expr.Fits (e : Expr) (room : Nat) : Prop := e.Sound ∧ e.depth < room

/-- What a loop runs over, read with some room. -/
def Expr.FitsIterable (e : Expr) (room : Nat) : Prop :=
  match e with
  | .range start stop token => start.Fits room ∧ stop.Fits room ∧ token.kind = .mark .colon
  | .steppedRange start stop step token =>
    start.Fits room ∧ stop.Fits room ∧ step.Fits room ∧ token.kind = .mark .colon
  | e => e.Fits room

/-- A declared type that is read from tokens. -/
def DeclaredType.Sound (declared : DeclaredType) : Prop :=
  declared.token.kind = .keyword declared.type.word

/-- A declared result that is read from tokens. -/
def DeclaredResult.Sound (declared : DeclaredResult) : Prop :=
  declared.token.kind = .keyword declared.word

/-- A name and its value, read with some room. -/
def FitsDeclared (name : String) (value : Option Expr) (token : Token) (room : Nat) : Prop :=
  (TokenKind.identifier name).Readable ∧ token.kind = .identifier name ∧
    ∀ e ∈ value, e.Fits room

/-- A declared variable that is read with some room. -/
def Declarator.Fits (d : Declarator) (room : Nat) : Prop :=
  FitsDeclared d.name d.initializer d.token room

/-- A declaration that is read with some room. -/
def VarDecl.Fits (decl : VarDecl) (room : Nat) : Prop :=
  decl.declared.Sound ∧ decl.declarators ≠ [] ∧ ∀ d ∈ decl.declarators, d.Fits room

/-- A parameter that is read with some room. -/
def Param.Fits (param : Param) (room : Nat) : Prop :=
  param.declared.Sound ∧ FitsDeclared param.name param.fallback param.token room

mutual

/-- A statement that is read with some room. -/
def Statement.Fits : Statement → Nat → Prop
  | .empty, _ => True
  | .declaration decl, room => decl.Fits room
  | .assignment target op value token, room =>
    (TokenKind.identifier target).Readable ∧ token.kind = .identifier target ∧
      op.mark?.isSome ∧ value.Fits room
  | .conditional condition body otherwise token, room =>
    token.kind = .keyword .kwIf ∧ condition.Fits room ∧
      (0 < room ∧ Statement.FitsList body (room - 1)) ∧ otherwise.Fits room
  | .whileLoop condition body token, room =>
    token.kind = .keyword .kwWhile ∧ condition.Fits room ∧
      (0 < room ∧ Statement.FitsList body (room - 1))
  | .forLoop loopVariable iterable body token, room =>
    token.kind = .keyword .kwFor ∧ loopVariable.Fits room ∧
      (∃ d, loopVariable.declarators = [d] ∧ d.initializer = none) ∧ iterable.FitsIterable room ∧
      (0 < room ∧ Statement.FitsList body (room - 1))
  | .breakLoop token, _ => token.kind = .keyword .kwBreak
  | .continueLoop token, _ => token.kind = .keyword .kwContinue
  | .returnFrom value token, room => token.kind = .keyword .kwReturn ∧ ∀ e ∈ value, e.Fits room
  | .function decl, room => decl.Fits room
  | .expression expr, room => ∃ e : Expr, e.Fits room ∧ expr = e.asStatement

/-- Further branches that are read with some room. -/
def Alternative.Fits : Alternative → Nat → Prop
  | .absent, _ => True
  | .elseif condition body rest, room =>
    condition.Fits room ∧ (0 < room ∧ Statement.FitsList body (room - 1)) ∧ rest.Fits room
  | .otherwise body, room => 0 < room ∧ Statement.FitsList body (room - 1)

/-- A function that is read with some room. -/
def FunctionDecl.Fits : FunctionDecl → Nat → Prop
  | ⟨returns, name, params, body, token⟩, room =>
    returns.Sound ∧ (TokenKind.identifier name).Readable ∧ token.kind = .identifier name ∧
      (∀ param ∈ params, param.Fits room) ∧ (0 < room ∧ Statement.FitsList body (room - 1))

/-- Statements that are read with some room. -/
def Statement.FitsList : List Statement → Nat → Prop
  | [], _ => True
  | statement :: rest, room => statement.Fits room ∧ Statement.FitsList rest room

end

end ScopedScript
