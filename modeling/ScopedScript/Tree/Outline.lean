import ScopedScript.Outline
import ScopedScript.Tree

/-!
# Programs as outlines

The tree of a program with all its tokens, laid out over lines. Every kind of node has a name, and
every part of it a label.
-/

namespace ScopedScript

open Outline (word labelled record variant list pair optional)

/-! ## Names of tokens and operators -/

/-- The name of a reserved word. -/
def Keyword.label : Keyword → String
  | kwVar => "Var"
  | kwFunc => "Func"
  | kwInt => "IntType"
  | kwFloat => "FloatType"
  | kwBool => "BoolType"
  | kwStr => "StrType"
  | kwVoid => "Void"
  | kwIf => "If"
  | kwElseif => "Elseif"
  | kwElse => "Else"
  | kwWhile => "While"
  | kwFor => "For"
  | kwIn => "In"
  | kwBreak => "Break"
  | kwContinue => "Continue"
  | kwReturn => "Return"
  | kwAnd => "And"
  | kwOr => "Or"
  | kwNot => "Not"

/-- The name of a mark. -/
def Mark.label : Mark → String
  | plus => "Plus"
  | plusAssign => "PlusAssign"
  | minus => "Minus"
  | minusAssign => "MinusAssign"
  | star => "Star"
  | starAssign => "StarAssign"
  | slash => "Slash"
  | slashAssign => "SlashAssign"
  | doubleSlash => "DoubleSlash"
  | doubleSlashAssign => "DoubleSlashAssign"
  | percent => "Percent"
  | percentAssign => "PercentAssign"
  | assign => "Assign"
  | equal => "EqualEqual"
  | notEqual => "BangEqual"
  | less => "Less"
  | lessEqual => "LessEqual"
  | greater => "Greater"
  | greaterEqual => "GreaterEqual"
  | colon => "Colon"
  | semicolon => "Semicolon"
  | comma => "Comma"
  | leftBrace => "LBrace"
  | rightBrace => "RBrace"
  | leftParen => "LParen"
  | rightParen => "RParen"
  | leftBracket => "LBracket"
  | rightBracket => "RBracket"

/-- The name of the kind of a value. -/
def Value.label : Value → String
  | int _ => "Integer"
  | float _ => "Float"
  | bool _ => "Bool"
  | str _ => "Str"

/-- The name of a kind of token. -/
def TokenKind.label : TokenKind → String
  | literal v => v.label
  | identifier _ => "Identifier"
  | keyword w => w.label
  | mark m => m.label
  | comment => "Comment"
  | newLine => "NewLine"
  | openComment => "UnterminatedComment"
  | openString => "UnterminatedString"
  | endOfInput => "Eof"

/-- The name of an operator between two operands. -/
def BinaryOp.label : BinaryOp → String
  | add => "Add"
  | sub => "Sub"
  | mul => "Mul"
  | div => "Div"
  | floorDiv => "FloorDiv"
  | mod => "Mod"
  | less => "Less"
  | greater => "Greater"
  | lessEqual => "LessEqual"
  | greaterEqual => "GreaterEqual"
  | equal => "Equal"
  | notEqual => "NotEqual"
  | and => "And"
  | or => "Or"

/-- The name of a prefix operator. -/
def UnaryOp.label : UnaryOp → String
  | plus => "Plus"
  | negate => "Negate"
  | not => "Not"

/-- The name of a type. -/
def Ty.label : Ty → String
  | int => "Int"
  | float => "Float"
  | bool => "Bool"
  | str => "Str"

/-! ## Leaves -/

/-- A text in quotes. -/
def quoted (text : String) : Outline := word (Text.shown text)

/-- A number. -/
def numeral (n : Nat) : Outline := word (toString n)

/-- A value under the name of its kind. -/
def Value.outline (v : Value) : Outline := variant v.label [word v.shown]

/-- A kind of token, with the value or the name it carries. -/
def TokenKind.outline : TokenKind → Outline
  | literal v => v.outline
  | identifier name => variant "Identifier" [quoted name]
  | kind => word kind.label

/-- A token. -/
def Token.outline (t : Token) : Outline :=
  record "Token"
    [labelled "kind" t.kind.outline, labelled "literal" (quoted t.literal),
     labelled "line" (numeral t.position.line), labelled "column" (numeral t.position.column)]

/-- An assignment operator. -/
def AssignOp.outline : AssignOp → Outline
  | plain => word "Assign"
  | compound op => variant "Compound" [word op.label]

/-! ## Expressions -/

mutual

/-- An expression. -/
def Expr.outline : Expr → Outline
  | .literal v token =>
    record "Literal" [labelled "value" v.outline, labelled "token" token.outline]
  | .var name token =>
    record "Variable" [labelled "name" (quoted name), labelled "token" token.outline]
  | .unary op operand token =>
    record "UnaryOp"
      [labelled "op" (word op.label), labelled "expr" operand.outline,
       labelled "token" token.outline]
  | .binary left op right token =>
    record "BinaryOp"
      [labelled "left" left.outline, labelled "op" (word op.label),
       labelled "right" right.outline, labelled "token" token.outline]
  | .call name arguments isStatement token =>
    record "FunctionCall"
      [labelled "name" (quoted name), labelled "arguments" (list (Expr.outlines arguments)),
       labelled "is_statement" (word (boolText isStatement)), labelled "token" token.outline]
  | .index base position token =>
    record "Access"
      [labelled "accessor" base.outline, labelled "start" position.outline,
       labelled "end" (optional none), labelled "token" token.outline]
  | .slice base start stop token =>
    record "Access"
      [labelled "accessor" base.outline, labelled "start" start.outline,
       labelled "end" (optional (some stop.outline)), labelled "token" token.outline]
  | .range start stop token =>
    record "Range"
      [labelled "start" start.outline, labelled "end" stop.outline,
       labelled "step" (optional none), labelled "token" token.outline]
  | .steppedRange start stop step token =>
    record "Range"
      [labelled "start" start.outline, labelled "end" stop.outline,
       labelled "step" (optional (some step.outline)), labelled "token" token.outline]

/-- Expressions in order. -/
def Expr.outlines : List Expr → List Outline
  | [] => []
  | e :: rest => e.outline :: Expr.outlines rest

end

/-! ## Declarations -/

/-- The declared type of a variable. -/
def DeclaredType.outline (d : DeclaredType) : Outline :=
  record "VarType" [labelled "name" (word d.type.label), labelled "token" d.token.outline]

/-- The declared result of a function. -/
def DeclaredResult.outline (d : DeclaredResult) : Outline :=
  record "ReturnType"
    [labelled "name" (optional (d.type.map fun type => word type.label)),
     labelled "token" d.token.outline]

/-- One variable of a declaration. -/
def Declarator.outline (d : Declarator) : Outline :=
  record "Declarator"
    [labelled "name" (quoted d.name),
     labelled "initializer" (optional (d.initializer.map (·.outline))),
     labelled "token" d.token.outline]

/-- A declaration of variables. -/
def VarDecl.outline (d : VarDecl) : Outline :=
  record "VarDecl"
    [labelled "var_type" d.declared.outline,
     labelled "variables" (list (d.declarators.map (·.outline)))]

/-- A parameter of a function. -/
def Param.outline (p : Param) : Outline :=
  record "FunctionParam"
    [labelled "var_type" p.declared.outline, labelled "name" (quoted p.name),
     labelled "default" (optional (p.fallback.map (·.outline))), labelled "token" p.token.outline]

/-! ## Statements -/

/-- The statements of a body, given their outlines. -/
def bodyOutline (statements : List Outline) : Outline :=
  record "StatementList" [labelled "statements" (list statements)]

mutual

/-- A statement. -/
def Statement.outline : Statement → Outline
  | .empty => word "Empty"
  | .declaration decl => variant "VariableDeclaration" [decl.outline]
  | .assignment target op value token =>
    record "Assignment"
      [labelled "target" (quoted target), labelled "op" op.outline,
       labelled "value" value.outline, labelled "token" token.outline]
  | .conditional condition body otherwise token =>
    let first := pair condition.outline (bodyOutline (Statement.outlines body))
    record "Conditional"
      [labelled "branches" (list (first :: Alternative.branchOutlines otherwise)),
       labelled "else_body" (optional (Alternative.lastOutline? otherwise)),
       labelled "token" token.outline]
  | .whileLoop condition body token =>
    record "While"
      [labelled "condition" condition.outline,
       labelled "body" (bodyOutline (Statement.outlines body)), labelled "token" token.outline]
  | .forLoop loopVariable iterable body token =>
    record "For"
      [labelled "variable" loopVariable.outline, labelled "iterable" iterable.outline,
       labelled "body" (bodyOutline (Statement.outlines body)), labelled "token" token.outline]
  | .breakLoop token => record "Break" [labelled "token" token.outline]
  | .continueLoop token => record "Continue" [labelled "token" token.outline]
  | .returnFrom value token =>
    record "Return"
      [labelled "value" (optional (value.map (·.outline))), labelled "token" token.outline]
  | .function decl => variant "Function" [FunctionDecl.outline decl]
  | .expression expr => variant "Expression" [expr.outline]

/-- The further branches of a conditional, each as a pair of a condition and a body. -/
def Alternative.branchOutlines : Alternative → List Outline
  | .absent | .otherwise _ => []
  | .elseif condition body rest =>
    pair condition.outline (bodyOutline (Statement.outlines body)) ::
      Alternative.branchOutlines rest

/-- The branch taken when no condition holds. -/
def Alternative.lastOutline? : Alternative → Option Outline
  | .absent => none
  | .elseif _ _ rest => Alternative.lastOutline? rest
  | .otherwise body => some (bodyOutline (Statement.outlines body))

/-- A function. -/
def FunctionDecl.outline : FunctionDecl → Outline
  | ⟨returns, name, params, body, token⟩ =>
    record "FunctionDecl"
      [labelled "return_type" returns.outline, labelled "name" (quoted name),
       labelled "params" (list (params.map (·.outline))),
       labelled "body" (bodyOutline (Statement.outlines body)), labelled "token" token.outline]

/-- Statements in order. -/
def Statement.outlines : List Statement → List Outline
  | [] => []
  | s :: rest => Statement.outline s :: Statement.outlines rest

end

/-- A whole program. -/
def Program.outline (p : Program) : Outline :=
  record "Program" [labelled "body" (bodyOutline (Statement.outlines p))]

end ScopedScript
