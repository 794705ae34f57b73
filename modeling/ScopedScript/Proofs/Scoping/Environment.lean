import ScopedScript.Scope
import ScopedScript.Tree

/-!
# What names can stand for

A zone describes one piece of a program's text while it is being executed: the names it has declared
so far, the functions that its frame can hold at that moment, and the functions that its text
declares at all. An environment is the list of zones around a place, innermost first.

The two views differ. A name *stands for* what the nearest zone has declared before. A call *can
find* more: a function that is declared further down, once its frame has come past that declaration.
That happens inside a function, which can be called later than it is declared, and in the body of a
`for` loop, whose rounds share a frame.

Rules ask something of every use of a name in a program, in the environment of the use.
-/

namespace ScopedScript

/-! ## Zones -/

/-- The functions declared by statements themselves, not by blocks inside them. -/
def functionsOf (body : List Statement) : List (String × Arity) :=
  body.filterMap fun
    | .function decl => some (decl.name, decl.arity)
    | _ => none

theorem functionsOf_cons (s : Statement) (body : List Statement) :
    functionsOf (s :: body) = functionsOf [s] ++ functionsOf body := by
  cases s <;> rfl

/-- One piece of a program's text at a moment of its execution. -/
structure Zone where
  symbols : Table SymbolKind
  /-- The functions that its frame can hold. -/
  held : List (String × Arity)
  /-- The functions that its text declares. -/
  all : List (String × Arity)

namespace Zone

/-- A piece of text whose frame is new. -/
def start (body : List Statement) : Zone := ⟨.empty, [], functionsOf body⟩

/-- The body of a `for` loop, before its variable is bound: earlier rounds have left functions. -/
def round (body : List Statement) : Zone := ⟨.empty, functionsOf body, functionsOf body⟩

/-- The zone with a variable declared. -/
def declare (zone : Zone) (name : String) (type : Ty) : Zone :=
  { zone with symbols := zone.symbols.insert name (.var type) }

/-- The zone with a function declared. -/
def declareFunction (zone : Zone) (decl : FunctionDecl) : Zone :=
  { zone with
    symbols := zone.symbols.insert decl.name (.function decl.returns.type decl.arity)
    held := (decl.name, decl.arity) :: zone.held }

/-- The zone at any later moment. -/
def later (zone : Zone) : Zone := { zone with held := zone.all }

/-- The zone with variables of one type declared. -/
def declareAll (zone : Zone) (type : Ty) : List Declarator → Zone
  | [] => zone
  | d :: rest => (zone.declare d.name type).declareAll type rest

/-- The zone with parameters declared. -/
def declareParams (zone : Zone) : List Param → Zone
  | [] => zone
  | p :: rest => (zone.declare p.name p.declared.type).declareParams rest

/-- The zone behind a statement. -/
def after (zone : Zone) : Statement → Zone
  | .declaration decl => zone.declareAll decl.declared.type decl.declarators
  | .function decl => zone.declareFunction decl
  | _ => zone

theorem declareAll_all (zone : Zone) (type : Ty) (ds : List Declarator) :
    (zone.declareAll type ds).all = zone.all := by
  induction ds generalizing zone with
  | nil => rfl
  | cons d ds ih => exact ih _

theorem declareParams_all (zone : Zone) (params : List Param) :
    (zone.declareParams params).all = zone.all := by
  induction params generalizing zone with
  | nil => rfl
  | cons p params ih => exact ih _

theorem after_all (zone : Zone) (s : Statement) : (zone.after s).all = zone.all := by
  cases s with
  | declaration decl => exact zone.declareAll_all _ _
  | _ => rfl

/-- The arities of the functions of a name that the frame can hold. -/
def heldArities (zone : Zone) (name : String) : List Arity :=
  (zone.held.filter (·.1 = name)).map (·.2)

end Zone

/-! ## Environments -/

/-- Whether a name stands for a variable. -/
def SymbolKind.isVariable : SymbolKind → Bool
  | .var _ => true
  | _ => false

/-- Whether a name stands for a function. -/
def SymbolKind.isFunction : SymbolKind → Bool
  | .function _ _ => true
  | _ => false

/-- Whether a name stands for a function that takes so many arguments. -/
def SymbolKind.takes (count : Nat) : SymbolKind → Bool
  | .function _ arity => arity.accepts count
  | _ => false

/-- The zones around a place, innermost first. -/
abbrev Env := List Zone

namespace Env

/-- What a name stands for: the nearest declaration, or what every program can use. -/
def lookup? : Env → String → Option SymbolKind
  | [], name => builtinSymbols.find? name
  | zone :: env, name => (zone.symbols.find? name).or (lookup? env name)

/-- The arities of the functions of the program that a call of a name can find. A zone that has
declared a function of the name hides what lies outside. -/
def callable : Env → String → List Arity
  | [], _ => []
  | zone :: env, name =>
    zone.heldArities name ++
      if (zone.symbols.find? name).any SymbolKind.isFunction then [] else callable env name

end Env

/-! ## Rules -/

/-- What is asked of the uses of names. -/
structure Rules where
  use : Env → String → Bool
  call : Env → String → Nat → Bool
  declarator : Declarator → Bool
  loop : VarDecl → Bool

mutual

/-- Every use of a name in an expression follows the rules. -/
def Expr.follows (rules : Rules) (env : Env) : Expr → Bool
  | .literal _ _ => true
  | .var name _ => rules.use env name
  | .unary _ operand _ => operand.follows rules env
  | .binary left _ right _ => left.follows rules env && right.follows rules env
  | .call name arguments _ _ =>
    rules.call env name arguments.length && Expr.followsList rules env arguments
  | .index base position _ => base.follows rules env && position.follows rules env
  | .slice base start stop _ =>
    base.follows rules env && (start.follows rules env && stop.follows rules env)
  | .range start stop _ => start.follows rules env && stop.follows rules env
  | .steppedRange start stop step _ =>
    start.follows rules env && (stop.follows rules env && step.follows rules env)

/-- Every use of a name in expressions follows the rules. -/
def Expr.followsList (rules : Rules) (env : Env) : List Expr → Bool
  | [] => true
  | e :: rest => e.follows rules env && Expr.followsList rules env rest

end

/-- Every use of a name in an expression that can be missing follows the rules. -/
def Expr.followsOption (rules : Rules) (env : Env) : Option Expr → Bool
  | none => true
  | some e => e.follows rules env

/-- Every use of a name in a declaration follows the rules; a variable is declared behind its
first value. -/
def VarDecl.followsFrom (rules : Rules) (env : Env) (type : Ty) : Zone → List Declarator → Bool
  | _, [] => true
  | zone, d :: rest =>
    rules.declarator d && (Expr.followsOption rules (zone :: env) d.initializer &&
      VarDecl.followsFrom rules env type (zone.declare d.name type) rest)

/-- Every use of a name in parameters follows the rules; a parameter is declared behind its
default. -/
def Param.followsFrom (rules : Rules) (env : Env) : Zone → List Param → Bool
  | _, [] => true
  | zone, p :: rest =>
    Expr.followsOption rules (zone :: env) p.fallback &&
      Param.followsFrom rules env (zone.declare p.name p.declared.type) rest

mutual

/-- Every use of a name in a statement of a zone follows the rules. -/
def Statement.follows (rules : Rules) (env : Env) (zone : Zone) : Statement → Bool
  | .empty => true
  | .declaration decl =>
    VarDecl.followsFrom rules env decl.declared.type zone decl.declarators
  | .assignment target _ value _ =>
    value.follows rules (zone :: env) && rules.use (zone :: env) target
  | .conditional condition body otherwise _ =>
    condition.follows rules (zone :: env) &&
      (Statement.followsList rules (zone :: env) (.start body) body &&
        otherwise.follows rules (zone :: env))
  | .whileLoop condition body _ =>
    condition.follows rules (zone :: env) &&
      Statement.followsList rules (zone :: env) (.start body) body
  | .forLoop loopVariable iterable body _ =>
    iterable.follows rules (zone :: env) && (rules.loop loopVariable &&
      Statement.followsList rules (zone :: env)
        ((Zone.round body).declareAll loopVariable.declared.type loopVariable.declarators) body)
  | .breakLoop _ => true
  | .continueLoop _ => true
  | .returnFrom value _ => Expr.followsOption rules (zone :: env) value
  | .function decl => decl.follows rules ((zone.declareFunction decl).later :: env)
  | .expression expr => expr.follows rules (zone :: env)

/-- Every use of a name in further branches follows the rules. -/
def Alternative.follows (rules : Rules) (env : Env) : Alternative → Bool
  | .absent => true
  | .elseif condition body rest =>
    condition.follows rules env &&
      (Statement.followsList rules env (.start body) body && rest.follows rules env)
  | .otherwise body => Statement.followsList rules env (.start body) body

/-- Every use of a name inside a function follows the rules, whenever it is called. -/
def FunctionDecl.follows (rules : Rules) (env : Env) : FunctionDecl → Bool
  | ⟨_, _, params, body, _⟩ =>
    Param.followsFrom rules env (.start body) params &&
      Statement.followsList rules env ((Zone.start body).declareParams params) body

/-- Every use of a name in the statements of a zone follows the rules. -/
def Statement.followsList (rules : Rules) (env : Env) (zone : Zone) : List Statement → Bool
  | [] => true
  | s :: rest => s.follows rules env zone && Statement.followsList rules env (zone.after s) rest

end

/-- Every use of a name in a program follows the rules. -/
def Program.follows (rules : Rules) (p : Program) : Bool :=
  Statement.followsList rules [] (.start p) p

/-! ## The rules of interest -/

namespace Rules

/-- Nothing is asked. -/
def free : Rules := ⟨fun _ _ => true, fun _ _ _ => true, fun _ => true, fun _ => true⟩

/-- A name that is read or assigned stands for a variable, and one that is called stands for a
function that takes the arguments. -/
def named : Rules :=
  { free with
    use := fun env name => (env.lookup? name).any SymbolKind.isVariable
    call := fun env name count => (env.lookup? name).any (SymbolKind.takes count) }

/-- Every function of the program that a call can find takes as many arguments as it passes. -/
def fitting : Rules :=
  { free with call := fun env name count => (env.callable name).all (·.accepts count) }

/-- Every variable that is declared by a statement has a value from the start. -/
def initialized : Rules := { free with declarator := fun d => d.initializer.isSome }

/-- Every `for` loop declares one variable. -/
def single : Rules := { free with loop := fun decl => decl.declarators.length = 1 }

/-- Both sets of rules. -/
def and (first second : Rules) : Rules where
  use env name := first.use env name && second.use env name
  call env name count := first.call env name count && second.call env name count
  declarator d := first.declarator d && second.declarator d
  loop decl := first.loop decl && second.loop decl

@[simp] theorem and_use (first second : Rules) (env : Env) (name : String) :
    (first.and second).use env name = (first.use env name && second.use env name) := rfl

@[simp] theorem and_call (first second : Rules) (env : Env) (name : String) (count : Nat) :
    (first.and second).call env name count =
      (first.call env name count && second.call env name count) := rfl

@[simp] theorem and_declarator (first second : Rules) (d : Declarator) :
    (first.and second).declarator d = (first.declarator d && second.declarator d) := rfl

@[simp] theorem and_loop (first second : Rules) (decl : VarDecl) :
    (first.and second).loop decl = (first.loop decl && second.loop decl) := rfl

/-- The rules ask for names that stand for what they are used as, and for one variable a loop. -/
structure Naming (rules : Rules) : Prop where
  use : ∀ env name, rules.use env name → named.use env name
  call : ∀ env name count, rules.call env name count → named.call env name count
  loop : ∀ decl, rules.loop decl → single.loop decl

theorem naming : (named.and single).Naming where
  use _ _ h := (Bool.and_eq_true_iff.mp h).1
  call _ _ _ h := (Bool.and_eq_true_iff.mp h).1
  loop decl h := by
    rw [and_loop, Bool.and_eq_true_iff] at h
    exact h.2

theorem Naming.and {rules : Rules} (h : rules.Naming) (other : Rules) :
    (rules.and other).Naming where
  use env name huse := h.use env name (Bool.and_eq_true_iff.mp huse).1
  call env name count hcall := h.call env name count (Bool.and_eq_true_iff.mp hcall).1
  loop decl hloop := h.loop decl (Bool.and_eq_true_iff.mp hloop).1

/-- The rules ask of every variable that is declared by a statement that it has a value. -/
def Valued (rules : Rules) : Prop := ∀ d, rules.declarator d → d.initializer.isSome

end Rules

section And

variable (first second : Rules)

mutual

theorem Expr.follows_and (env : Env) : (e : Expr) →
    e.follows (first.and second) env = (e.follows first env && e.follows second env)
  | .literal _ _ => rfl
  | .var _ _ => rfl
  | .unary _ operand _ => Expr.follows_and env operand
  | .binary left _ right _ => by
    simp only [Expr.follows, Expr.follows_and env left, Expr.follows_and env right]
    ac_rfl
  | .call name arguments _ _ => by
    simp only [Expr.follows, Expr.followsList_and env arguments, Rules.and_call]
    ac_rfl
  | .index base position _ => by
    simp only [Expr.follows, Expr.follows_and env base, Expr.follows_and env position]
    ac_rfl
  | .slice base start stop _ => by
    simp only [Expr.follows, Expr.follows_and env base, Expr.follows_and env start,
      Expr.follows_and env stop]
    ac_rfl
  | .range start stop _ => by
    simp only [Expr.follows, Expr.follows_and env start, Expr.follows_and env stop]
    ac_rfl
  | .steppedRange start stop step _ => by
    simp only [Expr.follows, Expr.follows_and env start, Expr.follows_and env stop,
      Expr.follows_and env step]
    ac_rfl

theorem Expr.followsList_and (env : Env) : (es : List Expr) →
    Expr.followsList (first.and second) env es =
      (Expr.followsList first env es && Expr.followsList second env es)
  | [] => rfl
  | e :: es => by
    simp only [Expr.followsList, Expr.follows_and env e, Expr.followsList_and env es]
    ac_rfl

end

theorem Expr.followsOption_and (env : Env) (value : Option Expr) :
    Expr.followsOption (first.and second) env value =
      (Expr.followsOption first env value && Expr.followsOption second env value) := by
  cases value with
  | none => rfl
  | some e => exact Expr.follows_and first second env e

theorem VarDecl.followsFrom_and (env : Env) (type : Ty) (zone : Zone) (ds : List Declarator) :
    VarDecl.followsFrom (first.and second) env type zone ds =
      (VarDecl.followsFrom first env type zone ds &&
        VarDecl.followsFrom second env type zone ds) := by
  induction ds generalizing zone with
  | nil => rfl
  | cons d ds ih =>
    simp only [VarDecl.followsFrom, Expr.followsOption_and, ih, Rules.and_declarator]
    ac_rfl

theorem Param.followsFrom_and (env : Env) (zone : Zone) (params : List Param) :
    Param.followsFrom (first.and second) env zone params =
      (Param.followsFrom first env zone params && Param.followsFrom second env zone params) := by
  induction params generalizing zone with
  | nil => rfl
  | cons p params ih =>
    simp only [Param.followsFrom, Expr.followsOption_and, ih]
    ac_rfl

mutual

theorem Statement.follows_and (env : Env) (zone : Zone) : (s : Statement) →
    s.follows (first.and second) env zone =
      (s.follows first env zone && s.follows second env zone)
  | .empty => rfl
  | .declaration decl => VarDecl.followsFrom_and first second env _ zone decl.declarators
  | .assignment target _ value _ => by
    simp only [Statement.follows, Expr.follows_and, Rules.and_use]
    ac_rfl
  | .conditional condition body otherwise _ => by
    simp only [Statement.follows, Expr.follows_and, Statement.followsList_and _ _ body,
      Alternative.follows_and _ otherwise]
    ac_rfl
  | .whileLoop condition body _ => by
    simp only [Statement.follows, Expr.follows_and, Statement.followsList_and _ _ body]
    ac_rfl
  | .forLoop loopVariable iterable body _ => by
    simp only [Statement.follows, Expr.follows_and, Statement.followsList_and _ _ body,
      Rules.and_loop]
    ac_rfl
  | .breakLoop _ => rfl
  | .continueLoop _ => rfl
  | .returnFrom value _ => Expr.followsOption_and first second _ value
  | .function decl => by
    simp only [Statement.follows, FunctionDecl.follows_and _ decl]
  | .expression expr => Expr.follows_and first second _ expr

theorem Alternative.follows_and (env : Env) : (otherwise : Alternative) →
    otherwise.follows (first.and second) env =
      (otherwise.follows first env && otherwise.follows second env)
  | .absent => rfl
  | .elseif condition body rest => by
    simp only [Alternative.follows, Expr.follows_and, Statement.followsList_and _ _ body,
      Alternative.follows_and _ rest]
    ac_rfl
  | .otherwise body => by simp only [Alternative.follows, Statement.followsList_and _ _ body]

theorem FunctionDecl.follows_and (env : Env) : (decl : FunctionDecl) →
    decl.follows (first.and second) env = (decl.follows first env && decl.follows second env)
  | ⟨_, _, _, body, _⟩ => by
    simp only [FunctionDecl.follows, Param.followsFrom_and, Statement.followsList_and _ _ body]
    ac_rfl

theorem Statement.followsList_and (env : Env) (zone : Zone) : (body : List Statement) →
    Statement.followsList (first.and second) env zone body =
      (Statement.followsList first env zone body && Statement.followsList second env zone body)
  | [] => rfl
  | s :: body => by
    simp only [Statement.followsList, Statement.follows_and env zone s,
      Statement.followsList_and env _ body]
    ac_rfl

end

/-- A program follows both sets of rules exactly if it follows each. -/
theorem Program.follows_and (p : Program) :
    p.follows (first.and second) = (p.follows first && p.follows second) :=
  Statement.followsList_and first second [] _ p

end And

end ScopedScript
