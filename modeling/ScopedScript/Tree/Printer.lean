import ScopedScript.Tree

/-!
# Trees written as source text

An operand stands in parentheses exactly where it would be read differently without them.
Statements stand on lines of their own, indented by four spaces for each block around them.
-/

namespace ScopedScript

/-! ## Expressions -/

/-- A text, in parentheses if asked for. -/
def parenthesize (needed : Bool) (text : String) : String :=
  if needed then "(" ++ text ++ ")" else text

mutual

/-- An expression as source text. -/
def Expr.text : Expr → String
  | .literal value _ => value.literal
  | .var name _ => name
  | .unary op operand _ =>
    op.lead ++ parenthesize (operand.strength < unaryStrength) operand.text
  | .binary left op right _ =>
    parenthesize (left.strength < op.precedence) left.text ++ " " ++ op.spelling ++ " " ++
      parenthesize (right.strength ≤ op.precedence) right.text
  | .call name arguments _ _ => name ++ "(" ++ Expr.listText arguments ++ ")"
  | .index base position _ =>
    parenthesize (base.strength < atomStrength) base.text ++ "[" ++ position.text ++ "]"
  | .slice base start stop _ =>
    parenthesize (base.strength < atomStrength) base.text ++ "[" ++ start.text ++ ":" ++
      stop.text ++ "]"
  | .range start stop _ => start.text ++ ":" ++ stop.text
  | .steppedRange start stop step _ => start.text ++ ":" ++ stop.text ++ ":" ++ step.text

/-- Expressions between commas. -/
def Expr.listText : List Expr → String
  | [] => ""
  | [e] => e.text
  | e :: rest => e.text ++ ", " ++ Expr.listText rest

end

/-! ## Declarations -/

/-- A name, with the value it is given if there is one. -/
def declaredText (name : String) : Option Expr → String
  | none => name
  | some value => name ++ " = " ++ value.text

/-- The declared type of a variable. -/
def DeclaredType.text (declared : DeclaredType) : String :=
  "var(" ++ declared.type.name ++ ")"

/-- The declared result of a function. -/
def DeclaredResult.text (declared : DeclaredResult) : String :=
  match declared.type with
  | some type => "func(" ++ type.name ++ ")"
  | none => "func(void)"

/-- A declaration of variables, without the semicolon behind it. -/
def VarDecl.text (decl : VarDecl) : String :=
  decl.declared.text ++ " " ++
    ", ".intercalate (decl.declarators.map fun d => declaredText d.name d.initializer)

/-- A parameter. -/
def Param.text (param : Param) : String :=
  param.declared.text ++ " " ++ declaredText param.name param.fallback

/-! ## Statements -/

/-- The blanks before a line at a depth. -/
def indentation (depth : Nat) : String :=
  String.ofList (List.replicate (4 * depth) ' ')

/-- What closes a block at a depth. -/
def blockEnd (depth : Nat) : String := indentation depth ++ "\x7d"

mutual

/-- A statement at a depth as source text; the first line has no indentation. -/
def Statement.textAt (depth : Nat) : Statement → String
  | .empty => ";"
  | .declaration decl => decl.text ++ ";"
  | .assignment target op value _ =>
    target ++ " " ++ op.spelling ++ " " ++ value.text ++ ";"
  | .conditional condition body otherwise _ =>
    "if " ++ condition.text ++ " \x7b\n" ++ Statement.linesAt (depth + 1) body ++
      blockEnd depth ++ otherwise.textAt depth
  | .whileLoop condition body _ =>
    "while " ++ condition.text ++ " \x7b\n" ++ Statement.linesAt (depth + 1) body ++
      blockEnd depth
  | .forLoop loopVariable iterable body _ =>
    "for " ++ loopVariable.text ++ " in " ++ iterable.text ++ " \x7b\n" ++
      Statement.linesAt (depth + 1) body ++ blockEnd depth
  | .breakLoop _ => "break;"
  | .continueLoop _ => "continue;"
  | .returnFrom (some value) _ => "return " ++ value.text ++ ";"
  | .returnFrom none _ => "return;"
  | .function decl => decl.textAt depth
  | .expression expr => expr.text ++ ";"

/-- The further branches of a conditional. -/
def Alternative.textAt (depth : Nat) : Alternative → String
  | .absent => ""
  | .elseif condition body rest =>
    " elseif " ++ condition.text ++ " \x7b\n" ++ Statement.linesAt (depth + 1) body ++
      blockEnd depth ++ rest.textAt depth
  | .otherwise body =>
    " else \x7b\n" ++ Statement.linesAt (depth + 1) body ++ blockEnd depth

/-- A function at a depth as source text. -/
def FunctionDecl.textAt (depth : Nat) : FunctionDecl → String
  | ⟨returns, name, params, body, _⟩ =>
    returns.text ++ " " ++ name ++ "(" ++ ", ".intercalate (params.map Param.text) ++
      ") \x7b\n" ++ Statement.linesAt (depth + 1) body ++ blockEnd depth

/-- Statements at a depth, each on lines of its own. -/
def Statement.linesAt (depth : Nat) : List Statement → String
  | [] => ""
  | statement :: rest =>
    indentation depth ++ statement.textAt depth ++ "\n" ++ Statement.linesAt depth rest

end

/-- A statement as source text. -/
def Statement.text (statement : Statement) : String := statement.textAt 0

/-- A function as source text. -/
def FunctionDecl.text (decl : FunctionDecl) : String := decl.textAt 0

/-- A whole program as source text. -/
def Program.text (program : Program) : String := Statement.linesAt 0 program

end ScopedScript
