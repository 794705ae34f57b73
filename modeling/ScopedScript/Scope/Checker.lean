import ScopedScript.Event
import ScopedScript.Scope

/-!
# Checking the use of names

One walk over a program, in source order, checks that every name is declared before it is used,
once in a scope, and used as what it was declared as; that calls pass as many arguments as the
function takes; and that jumps stand where they have somewhere to go.

Scopes are opened for the program, for every function and for every block, and are closed again
whether or not a fault is found inside.
-/

namespace ScopedScript

/-! ## Faults -/

/-- What a program can do wrong with names. -/
inductive ScopeFault where
  | undeclared (name : String)
  | redeclared (name : String)
  | argumentCount (name : String) (expected : Arity) (found : Nat)
  | notCallable (name : String)
  | notAVariable (name : String)
  /-- A parameter that cannot be left out behind one that can. -/
  | requiredAfterDefault (name : String)
  | outsideLoop (word : Keyword)
  | returnOutsideFunction
  | missingReturnValue (function : String)
  | unexpectedReturnValue (function : String)
  deriving DecidableEq

/-- The wording of a fault. -/
def ScopeFault.wording : ScopeFault → String
  | undeclared name => "Undeclared variable '" ++ name ++ "'"
  | redeclared name => "'" ++ name ++ "' is already declared in this scope"
  | argumentCount name expected found => expected.mismatch name found
  | notCallable name => "'" ++ name ++ "' is not a function"
  | notAVariable name => "Function '" ++ name ++ "' cannot be used as a variable"
  | requiredAfterDefault name =>
    "Parameter '" ++ name ++ "' without a default follows a parameter with a default"
  | outsideLoop word => "'" ++ word.spelling ++ "' outside of a loop"
  | returnOutsideFunction => "'return' outside of a function"
  | missingReturnValue function => "Function '" ++ function ++ "' must return a value"
  | unexpectedReturnValue function => "Void function '" ++ function ++ "' cannot return a value"

/-! ## State -/

/-- The function around a statement. -/
structure Enclosing where
  name : String
  isVoid : Bool
  deriving DecidableEq

/-- The state of a check. -/
structure Checker where
  scopes : ScopeTree
  /-- How many loops of the innermost function lie around the current statement. -/
  loopDepth : Nat
  function : Option Enclosing
  blocks : Nat
  /-- What happened so far, the latest first. -/
  events : List Event

/-- The state before a check. -/
def Checker.initial : Checker := ⟨.initial, 0, none, 0, []⟩

/-- Checks: they go on from state to state, or stop with a fault in the state they reached. -/
abbrev Check := EStateM (Diagnostic ScopeFault) Checker

namespace Check

/-- A fault at a position. -/
def fail {α : Type} (fault : ScopeFault) (position : Position) : Check α :=
  throw ⟨fault, position⟩

/-- A check in changed surroundings. Whatever comes of it, the state behind it is made from the
states before and after. -/
def bracket {α : Type} (enter : Checker → Checker) (leave : Checker → Checker → Checker)
    (body : Check α) : Check α := fun before =>
  match body (enter before) with
  | .ok a after => .ok a (leave before after)
  | .error fault after => .error fault (leave before after)

/-! ## Scopes -/

/-- Opens a scope. -/
def enterScope (name : String) (state : Checker) : Checker :=
  let scopes := state.scopes.enter name
  let event := .scopeEntered scopes.currentIndex name scopes.current.level
  { state with scopes, events := event :: state.events }

/-- Closes the current scope. -/
def leaveScope (state : Checker) : Checker :=
  let scope := state.scopes.current
  let event := .scopeLeft scope.name scope.level scope.symbols.size
  { state with scopes := state.scopes.exit, events := event :: state.events }

/-- A check in a scope of its own. -/
def inScope {α : Type} (name : String) (body : Check α) : Check α :=
  bracket (enterScope name) (fun _ after => leaveScope after) body

/-- The scope's name for the next block: the word that opens it and a number of its own. -/
def blockName (word : Keyword) (state : Checker) : String :=
  word.spelling ++ s!"#{state.blocks + 1}"

/-- Counts a block and marks its name in the current scope. -/
def markBlock (word : Keyword) (state : Checker) : Checker :=
  { state with
    blocks := state.blocks + 1
    scopes := (state.scopes.insert ⟨blockName word state, .block⟩).2 }

/-- A check of a block, in a scope of its own. -/
def inBlock {α : Type} (word : Keyword) (body : Check α) : Check α := fun state =>
  inScope (blockName word state) body (markBlock word state)

/-- A check of the body of a loop, which counts behind it one loop less than it has come to. -/
def inLoop {α : Type} (word : Keyword) (body : Check α) : Check α :=
  inBlock word <|
    bracket (fun state => { state with loopDepth := state.loopDepth + 1 })
      (fun _ after => { after with loopDepth := after.loopDepth - 1 }) body

/-- A check of the body of a function: the loops around it do not count inside. -/
def inFunction {α : Type} (decl : FunctionDecl) (body : Check α) : Check α :=
  bracket
    (fun state =>
      { state with function := some ⟨decl.name, decl.returns.type.isNone⟩, loopDepth := 0 })
    (fun before after =>
      { after with function := before.function, loopDepth := before.loopDepth })
    (inScope decl.name body)

/-! ## Names -/

/-- Declares a name in the current scope. -/
def declare (symbol : Symbol) (position : Position) : Check Unit := do
  let state ← get
  let (inserted, scopes) := state.scopes.insert symbol
  if inserted then set { state with scopes }
  else fail (.redeclared symbol.name) position

/-- A name that stands for a variable. -/
def variableUse (name : String) (position : Position) : Check Unit := do
  match (← get).scopes.lookup? name with
  | none => fail (.undeclared name) position
  | some ⟨_, .var _⟩ => return
  | some _ => fail (.notAVariable name) position

/-- A name that stands for a function that takes so many arguments. -/
def callUse (name : String) (count : Nat) (position : Position) : Check Unit := do
  match (← get).scopes.lookup? name with
  | none => fail (.undeclared name) position
  | some ⟨_, .function _ arity⟩ =>
    if arity.accepts count then return
    else fail (.argumentCount name arity count) position
  | some _ => fail (.notCallable name) position

/-! ## Expressions -/

mutual

/-- The names in an expression, from left to right; a called name before its arguments. -/
def expression : Expr → Check Unit
  | .literal _ _ => return
  | .var name token => variableUse name token.position
  | .unary _ operand _ => expression operand
  | .binary left _ right _ => do
    expression left
    expression right
  | .call name arguments _ token => do
    callUse name arguments.length token.position
    expressions arguments
  | .index base position _ => do
    expression base
    expression position
  | .slice base start stop _ => do
    expression base
    expression start
    expression stop
  | .range start stop _ => do
    expression start
    expression stop
  | .steppedRange start stop step _ => do
    expression start
    expression stop
    expression step

/-- The names in expressions, one expression after the other. -/
def expressions : List Expr → Check Unit
  | [] => return
  | e :: rest => do
    expression e
    expressions rest

end

/-- The names in an expression that can be missing. -/
def optional : Option Expr → Check Unit
  | none => return
  | some e => expression e

/-! ## Declarations -/

/-- Declares variables one after the other, each behind the check of its first value. -/
def declarators (type : Ty) : List Declarator → Check Unit
  | [] => return
  | d :: rest => do
    optional d.initializer
    declare ⟨d.name, .var type⟩ d.token.position
    declarators type rest

/-- A declaration of variables. -/
def varDecl (decl : VarDecl) : Check Unit :=
  declarators decl.declared.type decl.declarators

/-- Declares parameters one after the other, each behind the check of its default. -/
def parameters : List Param → Check Unit
  | [] => return
  | p :: rest => do
    optional p.fallback
    declare ⟨p.name, .var p.declared.type⟩ p.token.position
    parameters rest

/-- The first parameter without a default behind one with a default. -/
def requiredAfterDefault? : List Param → Option Param
  | [] => none
  | p :: rest =>
    if p.fallback.isSome then rest.find? (·.fallback.isNone) else requiredAfterDefault? rest

/-! ## Statements -/

/-- A jump that needs a loop around it. -/
def jump (word : Keyword) (position : Position) : Check Unit := do
  if (← get).loopDepth = 0 then fail (.outsideLoop word) position

/-- A `return`, which carries a value exactly if the function around it has a result. -/
def returnFrom (value : Option Expr) (position : Position) : Check Unit := do
  match (← get).function, value with
  | none, _ => fail .returnOutsideFunction position
  | some ⟨name, false⟩, none => fail (.missingReturnValue name) position
  | some ⟨name, true⟩, some _ => fail (.unexpectedReturnValue name) position
  | some ⟨_, false⟩, some value => expression value
  | some ⟨_, true⟩, none => return

mutual

/-- The rule of a statement. -/
def statement : Statement → Check Unit
  | .empty => return
  | .declaration decl => varDecl decl
  | .assignment target _ value token => do
    expression value
    variableUse target token.position
  | .conditional condition body otherwise _ => do
    expression condition
    inBlock .kwIf (statements body)
    alternative otherwise
  | .whileLoop condition body _ => do
    expression condition
    inLoop .kwWhile (statements body)
  | .forLoop loopVariable iterable body _ => do
    expression iterable
    inLoop .kwFor do
      varDecl loopVariable
      statements body
  | .breakLoop token => jump .kwBreak token.position
  | .continueLoop token => jump .kwContinue token.position
  | .returnFrom value token => returnFrom value token.position
  | .function decl => function decl
  | .expression expr => expression expr

/-- The rule of the further branches of a conditional. -/
def alternative : Alternative → Check Unit
  | .absent => return
  | .elseif condition body rest => do
    expression condition
    inBlock .kwElseif (statements body)
    alternative rest
  | .otherwise body => inBlock .kwElse (statements body)

/-- The rule of a function, which is declared before its body is checked. -/
def function : FunctionDecl → Check Unit
  | ⟨returns, name, params, body, token⟩ => do
    if let some param := requiredAfterDefault? params then
      fail (.requiredAfterDefault param.name) param.token.position
    let decl : FunctionDecl := ⟨returns, name, params, body, token⟩
    declare ⟨name, .function returns.type decl.arity⟩ token.position
    inFunction decl do
      parameters params
      statements body

/-- The rule of statements, one after the other. -/
def statements : List Statement → Check Unit
  | [] => return
  | s :: rest => do
    statement s
    statements rest

end

/-- The rule of a program, which has a scope of its own. -/
def program (p : Program) : Check Unit :=
  inScope "global" (statements p)

end Check

end ScopedScript
