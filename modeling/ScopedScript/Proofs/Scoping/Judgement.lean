import ScopedScript.Scope
import ScopedScript.Tree

/-!
# The rules of scoping

Which programs use names, jumps and parameters as they may, said of the text alone. A place in a
program has a list of scopes around it, innermost first, each with the names that it has declared
before that place; what no scope declares can be one of the names that every program can use. A name
stands for what the first of these declares it as.

The rules are given as a judgement. A statement stands in a scope, and the judgement relates what
the scope has declared before the statement to what it has declared behind it.
-/

namespace ScopedScript

/-! ## Names around a place -/

/-- What the scopes around a place have declared before it, the innermost first. -/
abbrev Names := List (Table SymbolKind)

/-- What a name stands for: the nearest declaration, or what every program can use. -/
def Names.find? : Names → String → Option SymbolKind
  | [], name => builtinSymbols.find? name
  | inner :: outer, name => (inner.find? name).or (Names.find? outer name)

/-- What lies around a scope. -/
structure Surroundings where
  outer : Names
  inLoop : Bool
  /-- What the innermost function around it returns, if there is one: nothing, or a type. -/
  function : Option (Option Ty)

namespace Surroundings

/-- What lies around a scope of a program. -/
def program : Surroundings := ⟨[], false, none⟩

/-- What lies around a block in a scope. -/
def block (around : Surroundings) (inner : Table SymbolKind) : Surroundings :=
  { around with outer := inner :: around.outer }

/-- What lies around the body of a loop in a scope. -/
def loop (around : Surroundings) (inner : Table SymbolKind) : Surroundings :=
  { around.block inner with inLoop := true }

/-- What lies around the body of a function in a scope: loops outside do not count. -/
def call (around : Surroundings) (inner : Table SymbolKind) (returns : Option Ty) : Surroundings :=
  ⟨inner :: around.outer, false, some returns⟩

end Surroundings

/-! ## Expressions -/

/-- The names in an expression stand for what they are used as: those that are read for variables,
and those that are called for functions that take as many arguments. -/
inductive Expr.WellScoped (names : Names) : Expr → Prop where
  | literal {value : Value} {token : Token} : WellScoped names (.literal value token)
  | var {name : String} {token : Token} {type : Ty} (hname : names.find? name = some (.var type)) :
      WellScoped names (.var name token)
  | unary {op : UnaryOp} {operand : Expr} {token : Token} (h : WellScoped names operand) :
      WellScoped names (.unary op operand token)
  | binary {left : Expr} {op : BinaryOp} {right : Expr} {token : Token}
      (hleft : WellScoped names left) (hright : WellScoped names right) :
      WellScoped names (.binary left op right token)
  | call {name : String} {arguments : List Expr} {isStatement : Bool} {token : Token}
      {returns : Option Ty} {arity : Arity}
      (hname : names.find? name = some (.function returns arity))
      (hcount : arity.accepts arguments.length)
      (harguments : ∀ e ∈ arguments, WellScoped names e) :
      WellScoped names (.call name arguments isStatement token)
  | index {base position : Expr} {token : Token} (hbase : WellScoped names base)
      (hposition : WellScoped names position) : WellScoped names (.index base position token)
  | slice {base start stop : Expr} {token : Token} (hbase : WellScoped names base)
      (hstart : WellScoped names start) (hstop : WellScoped names stop) :
      WellScoped names (.slice base start stop token)
  | range {start stop : Expr} {token : Token} (hstart : WellScoped names start)
      (hstop : WellScoped names stop) : WellScoped names (.range start stop token)
  | steppedRange {start stop step : Expr} {token : Token} (hstart : WellScoped names start)
      (hstop : WellScoped names stop) (hstep : WellScoped names step) :
      WellScoped names (.steppedRange start stop step token)

/-! ## Declarations -/

/-- A variable as it is declared, by a statement, a parameter or a loop. -/
structure NewVariable where
  name : String
  type : Ty
  value : Option Expr

/-- The variables that a declaration declares. -/
def VarDecl.variables (decl : VarDecl) : List NewVariable :=
  decl.declarators.map fun d => ⟨d.name, decl.declared.type, d.initializer⟩

/-- The variable that a parameter declares. -/
def Param.variable (p : Param) : NewVariable := ⟨p.name, p.declared.type, p.fallback⟩

/-- A scope declares variables one after the other: none of them is declared in it before, and each
is declared behind its value. -/
inductive Declares (outer : Names) :
    Table SymbolKind → List NewVariable → Table SymbolKind → Prop where
  | nil {inner : Table SymbolKind} : Declares outer inner [] inner
  | cons {inner last : Table SymbolKind} {v : NewVariable} {vs : List NewVariable}
      (hvalue : ∀ e ∈ v.value, e.WellScoped (inner :: outer)) (hnew : inner.find? v.name = none)
      (hrest : Declares outer (inner.insert v.name (.var v.type)) vs last) :
      Declares outer inner (v :: vs) last

/-- What a function's name stands for. -/
def FunctionDecl.kind (decl : FunctionDecl) : SymbolKind :=
  .function decl.returns.type decl.arity

/-- Behind a parameter with a default there is none without. -/
def FunctionDecl.DefaultsLast (decl : FunctionDecl) : Prop :=
  decl.params.Pairwise fun p q => p.fallback.isSome → q.fallback.isSome

/-! ## Statements -/

mutual

/-- A statement of a scope follows the rules. The tables hold what the scope has declared before the
statement and behind it. -/
inductive Statement.WellScoped : Surroundings → Table SymbolKind → Statement →
    Table SymbolKind → Prop where
  | empty {around : Surroundings} {inner : Table SymbolKind} :
      Statement.WellScoped around inner .empty inner
  | declaration {around : Surroundings} {inner last : Table SymbolKind} {decl : VarDecl}
      (h : Declares around.outer inner decl.variables last) :
      Statement.WellScoped around inner (.declaration decl) last
  | assignment {around : Surroundings} {inner : Table SymbolKind} {target : String} {op : AssignOp}
      {value : Expr} {token : Token} {type : Ty}
      (hvalue : value.WellScoped (inner :: around.outer))
      (htarget : Names.find? (inner :: around.outer) target = some (.var type)) :
      Statement.WellScoped around inner (.assignment target op value token) inner
  | conditional {around : Surroundings} {inner last : Table SymbolKind} {condition : Expr}
      {body : List Statement} {otherwise : Alternative} {token : Token}
      (hcondition : condition.WellScoped (inner :: around.outer))
      (hbody : Statement.WellScopedList (around.block inner) .empty body last)
      (hotherwise : Alternative.WellScoped around inner otherwise) :
      Statement.WellScoped around inner (.conditional condition body otherwise token) inner
  | whileLoop {around : Surroundings} {inner last : Table SymbolKind} {condition : Expr}
      {body : List Statement} {token : Token}
      (hcondition : condition.WellScoped (inner :: around.outer))
      (hbody : Statement.WellScopedList (around.loop inner) .empty body last) :
      Statement.WellScoped around inner (.whileLoop condition body token) inner
  | forLoop {around : Surroundings} {inner first last : Table SymbolKind} {loopVariable : VarDecl}
      {iterable : Expr} {body : List Statement} {token : Token}
      (hiterable : iterable.WellScoped (inner :: around.outer))
      (hvariable : Declares (inner :: around.outer) .empty loopVariable.variables first)
      (hbody : Statement.WellScopedList (around.loop inner) first body last) :
      Statement.WellScoped around inner (.forLoop loopVariable iterable body token) inner
  | breakLoop {around : Surroundings} {inner : Table SymbolKind} {token : Token}
      (h : around.inLoop) : Statement.WellScoped around inner (.breakLoop token) inner
  | continueLoop {around : Surroundings} {inner : Table SymbolKind} {token : Token}
      (h : around.inLoop) : Statement.WellScoped around inner (.continueLoop token) inner
  | returnNothing {around : Surroundings} {inner : Table SymbolKind} {token : Token}
      (h : around.function = some none) :
      Statement.WellScoped around inner (.returnFrom none token) inner
  | returnValue {around : Surroundings} {inner : Table SymbolKind} {value : Expr} {token : Token}
      {type : Ty} (h : around.function = some (some type))
      (hvalue : value.WellScoped (inner :: around.outer)) :
      Statement.WellScoped around inner (.returnFrom (some value) token) inner
  | function {around : Surroundings} {inner first last : Table SymbolKind} {decl : FunctionDecl}
      (hdefaults : decl.DefaultsLast) (hnew : inner.find? decl.name = none)
      (hparams : Declares (inner.insert decl.name decl.kind :: around.outer) .empty
        (decl.params.map Param.variable) first)
      (hbody : Statement.WellScopedList
        (around.call (inner.insert decl.name decl.kind) decl.returns.type) first decl.body last) :
      Statement.WellScoped around inner (.function decl) (inner.insert decl.name decl.kind)
  | expression {around : Surroundings} {inner : Table SymbolKind} {expr : Expr}
      (h : expr.WellScoped (inner :: around.outer)) :
      Statement.WellScoped around inner (.expression expr) inner

/-- The further branches of a conditional in a scope follow the rules. -/
inductive Alternative.WellScoped : Surroundings → Table SymbolKind → Alternative → Prop where
  | absent {around : Surroundings} {inner : Table SymbolKind} :
      Alternative.WellScoped around inner .absent
  | elseif {around : Surroundings} {inner last : Table SymbolKind} {condition : Expr}
      {body : List Statement} {rest : Alternative}
      (hcondition : condition.WellScoped (inner :: around.outer))
      (hbody : Statement.WellScopedList (around.block inner) .empty body last)
      (hrest : Alternative.WellScoped around inner rest) :
      Alternative.WellScoped around inner (.elseif condition body rest)
  | otherwise {around : Surroundings} {inner last : Table SymbolKind} {body : List Statement}
      (hbody : Statement.WellScopedList (around.block inner) .empty body last) :
      Alternative.WellScoped around inner (.otherwise body)

/-- Statements of a scope follow the rules, one after the other. -/
inductive Statement.WellScopedList : Surroundings → Table SymbolKind → List Statement →
    Table SymbolKind → Prop where
  | nil {around : Surroundings} {inner : Table SymbolKind} :
      Statement.WellScopedList around inner [] inner
  | cons {around : Surroundings} {inner middle last : Table SymbolKind} {s : Statement}
      {rest : List Statement} (h : Statement.WellScoped around inner s middle)
      (hrest : Statement.WellScopedList around middle rest last) :
      Statement.WellScopedList around inner (s :: rest) last

end

/-- A program follows the rules of scoping. -/
def Program.WellScoped (p : Program) : Prop :=
  ∃ last, Statement.WellScopedList .program .empty p last

end ScopedScript
