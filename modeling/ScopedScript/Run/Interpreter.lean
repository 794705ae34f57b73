import ScopedScript.Number.Progression
import ScopedScript.Run.Builtin
import ScopedScript.Text.Slice

/-!
# Running programs

Expressions are evaluated from left to right, and every value is checked where it is used. The
rules for one expression and for one statement are given for any way to evaluate and execute their
parts; `eval` and `exec` tie the two together.

A program can run forever, so `eval` and `exec` take a bound on how deeply they nest and on how many
rounds a `while` loop makes. A run that exceeds its bound halts as out of fuel, which is no fault of
the program: `Halt` keeps the two apart.
-/

namespace ScopedScript

/-- How a statement ends. -/
inductive Flow where
  | normal
  | broken
  | continued
  /-- The innermost call is left, with a value or without. -/
  | returned (value : Option Value)
  deriving DecidableEq

/-! ## What a `for` loop visits -/

/-- The values a `for` loop has still to visit. -/
inductive Sequence where
  | integers (values : Progression)
  | characters (values : List Char)

namespace Sequence

/-- The value to visit next, and those behind it. -/
def next? : Sequence → Option (Value × Sequence)
  | integers p => p.next?.map fun (n, rest) => (.int n, integers rest)
  | characters [] => none
  | characters (c :: rest) => some (.str (String.singleton c), characters rest)

/-- How many values are still to visit. -/
def remaining : Sequence → Nat
  | integers p => p.remaining
  | characters cs => cs.length

end Sequence

namespace Exec

/-! ## Expressions -/

section Expressions

variable (eval : Expr → Exec (Option Value))
  (call : String → List Value → Position → Exec (Option Value))

/-- An expression that has to have a value. -/
def value (e : Expr) : Exec Value := do
  match ← eval e with
  | some v => return v
  | none => fail .missingValue e.position

/-- The values of expressions, from left to right. -/
def values : List Expr → Exec (List Value)
  | [] => return []
  | e :: rest => do
    let v ← value eval e
    let vs ← values rest
    return v :: vs

/-- An expression that has to be true or false. -/
def condition (e : Expr) : Exec Bool := do
  located e.position ((← value eval e).asBool "condition")

/-- An expression that has to be an integer. -/
def integer (role : String) (e : Expr) : Exec Int64 := do
  located e.position ((← value eval e).asInteger role)

/-- An expression that has to be a text. -/
def base (e : Expr) (position : Position) : Exec String := do
  match ← value eval e with
  | .str s => return s
  | v => fail (.typeError (.index v.type)) position

/-- Two operands and their operator. The right operand is left alone where the left one decides. -/
def binary (left : Expr) (op : BinaryOp) (right : Expr) (position : Position) : Exec Value := do
  let l ← value eval left
  match op.decisive? with
  | some decisive =>
    let b ← located position (l.asBool ("left operand of '" ++ op.spelling ++ "'"))
    if b = decisive then return .bool decisive
    else located position (op.apply l (← value eval right))
  | none => located position (op.apply l (← value eval right))

/-- One character of a text, whose length has to fit. -/
def character (text : String) (index : Int64) : Outcome Value := do
  let _ ← Outcome.ofInt text.length
  match Text.charAt? text index with
  | some c => return .str (String.singleton c)
  | none => throw (.indexOutOfBounds text.length index)

/-- The rule of an expression. A call yields nothing if its function returns nothing. -/
def evalStep : Expr → Exec (Option Value)
  | .literal v _ => return some v
  | .var name token => return some (← load name token.position)
  | .unary op operand token => do
    let v ← value eval operand
    return some (← located token.position (op.apply v))
  | .binary left op right token => return some (← binary eval left op right token.position)
  | .call name arguments _ token => do
    let vs ← values eval arguments
    call name vs token.position
  | .index e position token => do
    let text ← base eval e token.position
    let i ← integer eval "index" position
    return some (← located token.position (character text i))
  | .slice e start stop token => do
    let text ← base eval e token.position
    let i ← integer eval "index" start
    let j ← integer eval "slice end" stop
    return some (.str (Text.slice text i j))
  | .range _ _ token | .steppedRange _ _ _ token => fail (.typeError .bareRange) token.position

/-! ## What a loop visits -/

/-- The integers of a range. -/
def progression (start stop step : Int64) (position : Position) : Exec Sequence :=
  match Progression.make? start stop step with
  | some p => return .integers p
  | none => fail (.invalidRange .zeroStep) position

/-- The values a `for` loop visits. -/
def sequence : Expr → Exec Sequence
  | .range start stop token => do
    let i ← integer eval "range start" start
    let j ← integer eval "range end" stop
    progression i j 1 token.position
  | .steppedRange start stop step token => do
    let i ← integer eval "range start" start
    let j ← integer eval "range end" stop
    let k ← integer eval "range step" step
    progression i j k token.position
  | e => do
    match ← value eval e with
    | .str s => return .characters s.toList
    | v => fail (.typeError (.iterate v.type)) e.position

end Expressions

/-! ## Statements -/

section Statements

variable (eval : Expr → Exec (Option Value)) (exec : Statement → Exec Flow)

/-- Statements in order, until one does not end normally. -/
def block : List Statement → Exec Flow
  | [] => return .normal
  | s :: rest => do
    match ← exec s with
    | .normal => block rest
    | flow => return flow

/-- Binds variables one after the other; one without a first value has none yet. -/
def declarators (type : Ty) : List Declarator → Exec Unit
  | [] => return
  | d :: rest => do
    match d.initializer with
    | some e => do
      let v ← coerce d.name type (← value eval e) d.token.position
      declare d.name type (some v)
    | none => declare d.name type none
    declarators type rest

/-- An assignment. A compound one joins the old value with the assigned one. -/
def assign (target : String) (op : AssignOp) (e : Expr) (position : Position) : Exec Unit := do
  let assigned ← value eval e
  match op with
  | .plain => store target assigned position
  | .compound op =>
    let old ← load target position
    store target (← located position (op.apply old assigned)) position

/-- The further branches of a conditional. -/
def alternative : Alternative → Exec Flow
  | .absent => return .normal
  | .elseif e body rest => do
    if ← condition eval e then inFrame "elseif" .conditional (block exec body)
    else alternative rest
  | .otherwise body => inFrame "else" .conditional (block exec body)

/-- The rounds of a `while` loop, at most `fuel` of them. Each has a frame of its own. -/
def whileRounds (e : Expr) (body : List Statement) (fuel : Nat) : Exec Flow :=
  match fuel with
  | 0 => exhausted
  | fuel + 1 => do
    if ← condition eval e then
      match ← inFrame "while" .whileRound (block exec body) with
      | .broken => return .normal
      | .returned v => return .returned v
      | .normal | .continued => whileRounds e body fuel
    else return .normal

/-- The rounds of a `for` loop, at most `count` of them. The variable is bound anew in each. -/
def forRounds (loopVar : Declarator) (type : Ty) (body : List Statement) (count : Nat)
    (visited : Sequence) : Exec Flow :=
  match count with
  | 0 => return .normal
  | count + 1 => do
    match visited.next? with
    | none => return .normal
    | some (v, rest) =>
      let v ← coerce loopVar.name type v loopVar.token.position
      declare loopVar.name type (some v)
      match ← block exec body with
      | .broken => return .normal
      | .returned v => return .returned v
      | .normal | .continued => forRounds loopVar type body count rest

/-- A `for` loop. What it visits is evaluated once, before its frame is entered. -/
def forLoop (loopVariable : VarDecl) (iterable : Expr) (body : List Statement)
    (position : Position) : Exec Flow := do
  match loopVariable.declarators with
  | [] => fail (.invalidRange .noVariable) position
  | d :: _ =>
    let visited ← sequence eval iterable
    inFrame "for" .forLoop
      (forRounds exec d loopVariable.declared.type body visited.remaining visited)

/-- The rule of a statement; `fuel` bounds the rounds of a `while` loop. -/
def execStep (fuel : Nat) : Statement → Exec Flow
  | .empty => return .normal
  | .declaration decl => do
    declarators eval decl.declared.type decl.declarators
    return .normal
  | .assignment target op e token => do
    assign eval target op e token.position
    return .normal
  | .conditional e body otherwise _ => do
    if ← condition eval e then inFrame "if" .conditional (block exec body)
    else alternative eval exec otherwise
  | .whileLoop e body _ => whileRounds eval exec e body fuel
  | .forLoop loopVariable iterable body token =>
    forLoop eval exec loopVariable iterable body token.position
  | .breakLoop _ => return .broken
  | .continueLoop _ => return .continued
  | .returnFrom none _ => return .returned none
  | .returnFrom (some e) _ => return .returned (some (← value eval e))
  | .function decl => do
    declareFunction decl
    return .normal
  | .expression e => do
    discard (eval e)
    return .normal

/-! ## Calls -/

/-- Binds parameters one after the other. One whose argument is left out gets its default, which
sees the parameters before it. -/
def parameters (position : Position) : List Param → List Value → Exec Unit
  | [], _ => return
  | p :: rest, arguments => do
    let v ← match arguments, p.fallback with
      | v :: _, _ => pure v
      | [], some e => value eval e
      | [], none => fail .missingValue position
    let v ← coerce p.name p.declared.type v p.token.position
    declare p.name p.declared.type (some v)
    parameters position rest arguments.tail

/-- What a call yields, given how the body of its function ended. -/
def result (decl : FunctionDecl) (position : Position) (flow : Flow) : Exec (Option Value) :=
  match decl.returns.type, flow with
  | none, _ => return none
  | some type, .returned (some v) =>
    return some (← coerce decl.name type v decl.token.position)
  | some _, _ => fail (.missingReturnValue decl.name) position

/-- A call of a function that was declared in the frame at `outer`. -/
def callFunction (decl : FunctionDecl) (outer : Nat) (arguments : List Value)
    (position : Position) : Exec (Option Value) := do
  unless decl.arity.accepts arguments.length do
    fail (.argumentCount decl.name decl.arity arguments.length) position
  let m ← get
  if m.maxCallDepth ≤ m.callDepth then fail (.recursionLimit m.maxCallDepth) position
  inCall decl.name outer do
    parameters eval position decl.params arguments
    let flow ← block exec decl.body
    result decl position flow

/-- A call by name. A function of the program comes before a built-in one of the same name. -/
def call (name : String) (arguments : List Value) (position : Position) :
    Exec (Option Value) := do
  match (← get).stack.findFunction? name with
  | some (outer, decl) => callFunction eval exec decl outer arguments position
  | none =>
    match Builtin.ofName? name with
    | some b => b.call arguments position
    | none => fail (.unknownFunction name) position

end Statements

/-! ## Evaluation and execution -/

mutual

/-- The value of an expression, if it has one, by rules nested at most `fuel` deep. -/
def eval (fuel : Nat) (e : Expr) : Exec (Option Value) :=
  match fuel with
  | 0 => exhausted
  | fuel + 1 => evalStep (eval fuel) (call (eval fuel) (exec fuel)) e

/-- The execution of a statement, by rules nested at most `fuel` deep. -/
def exec (fuel : Nat) (s : Statement) : Exec Flow :=
  match fuel with
  | 0 => exhausted
  | fuel + 1 => execStep (eval fuel) (exec fuel) fuel s

end

@[simp] theorem eval_zero (e : Expr) : eval 0 e = exhausted := rfl

theorem eval_succ (fuel : Nat) (e : Expr) :
    eval (fuel + 1) e = evalStep (eval fuel) (call (eval fuel) (exec fuel)) e := rfl

@[simp] theorem exec_zero (s : Statement) : exec 0 s = exhausted := rfl

theorem exec_succ (fuel : Nat) (s : Statement) :
    exec (fuel + 1) s = execStep (eval fuel) (exec fuel) fuel s := rfl

/-- A whole program, in a frame of its own, by a way to execute its statements. -/
def programBy (exec : Statement → Exec Flow) (p : Program) : Exec Unit := fun m =>
  match block exec p (m.pushFrame "global" .global) with
  | .ok _ after => .ok () (after.finish true)
  | .error halt after => .error halt (after.finish false)

/-- A whole program, by rules nested at most `fuel` deep. -/
def program (fuel : Nat) (p : Program) : Exec Unit := programBy (exec fuel) p

/-- A bound that no run reaches in practice. -/
def ample : Nat := Nat.pow 2 62

end Exec

end ScopedScript
