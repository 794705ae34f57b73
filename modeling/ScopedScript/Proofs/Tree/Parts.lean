import ScopedScript.Tree

/-!
# What lies right inside a tree

A rule of the language asks for the values of the expressions right inside an expression or a
statement, and executes the statements right inside a statement. What is proved of all these is
proved of the whole by the rules alone.

The body of a function does not lie inside its declaration: nothing of it runs before a call.
-/

namespace ScopedScript

/-- The expressions right inside an expression. -/
def Expr.parts : Expr → List Expr
  | .literal _ _ | .var _ _ => []
  | .unary _ operand _ => [operand]
  | .binary left _ right _ => [left, right]
  | .call _ arguments _ _ => arguments
  | .index base position _ => [base, position]
  | .slice base start stop _ => [base, start, stop]
  | .range start stop _ => [start, stop]
  | .steppedRange start stop step _ => [start, stop, step]

/-- Whether an expression is a range, which only a loop has a use for. -/
def Expr.isRange : Expr → Bool
  | .range _ _ _ | .steppedRange _ _ _ _ => true
  | _ => false

/-- The first values of a declaration. -/
def VarDecl.parts (decl : VarDecl) : List Expr := decl.declarators.filterMap (·.initializer)

/-- The defaults of a function. -/
def FunctionDecl.parts (decl : FunctionDecl) : List Expr := decl.params.filterMap (·.fallback)

/-- The conditions of further branches. -/
def Alternative.parts : Alternative → List Expr
  | .absent | .otherwise _ => []
  | .elseif condition _ rest => condition :: rest.parts

/-- The statements in further branches. -/
def Alternative.inner : Alternative → List Statement
  | .absent => []
  | .elseif _ body rest => body ++ rest.inner
  | .otherwise body => body

/-- The expressions right inside a statement. What a loop runs over counts with its parts, since a
range is not evaluated itself. -/
def Statement.parts : Statement → List Expr
  | .declaration decl => decl.parts
  | .assignment _ _ value _ => [value]
  | .conditional condition _ otherwise _ => condition :: otherwise.parts
  | .whileLoop condition _ _ => [condition]
  | .forLoop _ iterable _ _ => iterable :: iterable.parts
  | .returnFrom value _ => value.toList
  | .expression expr => [expr]
  | .empty | .breakLoop _ | .continueLoop _ | .function _ => []

/-- The statements right inside a statement. -/
def Statement.inner : Statement → List Statement
  | .conditional _ body otherwise _ => body ++ otherwise.inner
  | .whileLoop _ body _ | .forLoop _ _ body _ => body
  | .empty | .declaration _ | .assignment _ _ _ _ | .breakLoop _ | .continueLoop _
  | .returnFrom _ _ | .function _ | .expression _ => []

/-- Whether a statement is a conditional or a loop: what it executes runs in frames of its own. -/
def Statement.isCompound : Statement → Bool
  | .conditional _ _ _ _ | .whileLoop _ _ _ | .forLoop _ _ _ _ => true
  | _ => false

theorem VarDecl.mem_parts {decl : VarDecl} {d : Declarator} {e : Expr} (hd : d ∈ decl.declarators)
    (he : d.initializer = some e) : e ∈ decl.parts :=
  List.mem_filterMap.mpr ⟨d, hd, he⟩

theorem FunctionDecl.mem_parts {decl : FunctionDecl} {p : Param} {e : Expr}
    (hp : p ∈ decl.params) (he : p.fallback = some e) : e ∈ decl.parts :=
  List.mem_filterMap.mpr ⟨p, hp, he⟩

end ScopedScript
