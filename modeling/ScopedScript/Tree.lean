import ScopedScript.Operator
import ScopedScript.Token

/-!
# Programs as trees

Expressions and statements. Every node keeps the token it was read from, so that later stages can
point at the source.
-/

namespace ScopedScript

/-! ## Expressions -/

/-- An expression. -/
inductive Expr where
  | literal (value : Value) (token : Token)
  | var (name : String) (token : Token)
  | unary (op : UnaryOp) (operand : Expr) (token : Token)
  | binary (left : Expr) (op : BinaryOp) (right : Expr) (token : Token)
  | call (name : String) (arguments : List Expr) (isStatement : Bool) (token : Token)
  | index (base position : Expr) (token : Token)
  | slice (base start stop : Expr) (token : Token)
  | range (start stop : Expr) (token : Token)
  | steppedRange (start stop step : Expr) (token : Token)

namespace Expr

/-- The token an expression was read from: that of its operator, if it has one. -/
def token : Expr → Token
  | literal _ token
  | var _ token
  | unary _ _ token
  | binary _ _ _ token
  | call _ _ _ token
  | index _ _ token
  | slice _ _ _ token
  | range _ _ token
  | steppedRange _ _ _ token => token

/-- The position an expression is reported at. -/
def position (e : Expr) : Position := e.token.position

/-- Marks a call as a statement of its own. -/
def asStatement : Expr → Expr
  | call name arguments _ token => call name arguments true token
  | e => e

/-- How tightly an expression holds together as an operand. -/
def strength : Expr → Nat
  | range .. | steppedRange .. => 0
  | binary _ op _ _ => op.precedence
  | unary .. => unaryStrength
  | literal .. | var .. | call .. | index .. | slice .. => atomStrength

end Expr

/-! ## Declarations -/

/-- The declared type of a variable, with its token. -/
structure DeclaredType where
  type : Ty
  token : Token

/-- The declared result of a function, with its token; none for `void`. -/
structure DeclaredResult where
  /-- The type of the result, if there is a result. -/
  type : Option Ty
  token : Token

/-- One variable of a declaration. -/
structure Declarator where
  name : String
  initializer : Option Expr
  token : Token

/-- A declaration of variables of one type. -/
structure VarDecl where
  declared : DeclaredType
  declarators : List Declarator

/-- A parameter of a function. -/
structure Param where
  declared : DeclaredType
  name : String
  /-- What stands in for an argument that is left out. -/
  fallback : Option Expr
  token : Token

/-! ## Statements -/

mutual

/-- A statement. -/
inductive Statement where
  | empty
  | declaration (decl : VarDecl)
  | assignment (target : String) (op : AssignOp) (value : Expr) (token : Token)
  | conditional (condition : Expr) (body : List Statement) (otherwise : Alternative)
      (token : Token)
  | whileLoop (condition : Expr) (body : List Statement) (token : Token)
  | forLoop (loopVariable : VarDecl) (iterable : Expr) (body : List Statement) (token : Token)
  | breakLoop (token : Token)
  | continueLoop (token : Token)
  | returnFrom (value : Option Expr) (token : Token)
  | function (decl : FunctionDecl)
  | expression (expr : Expr)

/-- What follows a branch of a conditional. -/
inductive Alternative where
  | absent
  | elseif (condition : Expr) (body : List Statement) (rest : Alternative)
  | otherwise (body : List Statement)

/-- A function declared by a script. -/
structure FunctionDecl where
  returns : DeclaredResult
  name : String
  params : List Param
  body : List Statement
  token : Token

end

/-- The statements of a whole source. -/
abbrev Program := List Statement

/-- How many arguments calls of a function pass: parameters with a default can be left out. -/
def FunctionDecl.arity (decl : FunctionDecl) : Arity :=
  ⟨(decl.params.filter (·.fallback.isNone)).length, some decl.params.length⟩

/-- The further branches with a condition, in source order. -/
def Alternative.branches : Alternative → List (Expr × List Statement)
  | .absent | .otherwise _ => []
  | .elseif condition body rest => (condition, body) :: rest.branches

/-- The branch taken when no condition holds, if there is one. -/
def Alternative.last? : Alternative → Option (List Statement)
  | .absent => none
  | .elseif _ _ rest => rest.last?
  | .otherwise body => some body

end ScopedScript
