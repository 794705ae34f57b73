import ScopedScript.Proofs.Tree.Names
import ScopedScript.Proofs.Tree.Relabel
import ScopedScript.Scope.Checker

/-!
# How the rules put checks together

The rule of a statement puts the checks of its parts together in a few ways: in sequence, with a
fault, with a look at a name or at the function around, or in a scope of its own. So a relation
between checks that is kept in these ways is kept by the rules. Of names the relation can ask for
something; then it is related for trees all of whose names are of that kind.

The two checks can be those of trees that were read from different places: faults are related if
their positions are those in each other's place.
-/

namespace ScopedScript.Check

/-- A relation between checks that all rules keep, if names are of some kind. -/
structure Combines (f : Relabeling) (N : String → Prop) (R : Check Unit → Check Unit → Prop) :
    Prop where
  pure : R (pure ()) (pure ())
  fail : ∀ (fault : ScopeFault) (position : Position),
    R (fail fault position) (fail fault (f.position position))
  and_then : ∀ {x y x' y' : Check Unit}, R x y → R x' y' → R (do x; x') (do y; y')
  variableUse : ∀ {name : String}, N name → ∀ position : Position,
    R (variableUse name position) (variableUse name (f.position position))
  callUse : ∀ {name : String}, N name → ∀ (count : Nat) (position : Position),
    R (callUse name count position) (callUse name count (f.position position))
  /-- A name is declared. No rule declares a block. -/
  declare : ∀ symbol : Symbol, N symbol.name → symbol.kind ≠ .block → ∀ position : Position,
    R (declare symbol position) (declare symbol (f.position position))
  jump : ∀ (word : Keyword) (position : Position),
    R (jump word position) (jump word (f.position position))
  inside : ∀ {x y : Option Enclosing → Check Unit}, (∀ around, R (x around) (y around)) →
    R (do x (← get).function) (do y (← get).function)
  inBlock : ∀ {x y : Check Unit} (word : Keyword), R x y → R (inBlock word x) (inBlock word y)
  inLoop : ∀ {x y : Check Unit} (word : Keyword), R x y → R (inLoop word x) (inLoop word y)
  inFunction : ∀ {x y : Check Unit} (decl : FunctionDecl), N decl.name → R x y →
    R (inFunction decl x) (inFunction (decl.relabel f) y)

variable {f : Relabeling} {N : String → Prop} {R : Check Unit → Check Unit → Prop}
  (hR : Combines f N R)

include hR

/-! ## Expressions and declarations -/

mutual

/-- The rule of an expression. -/
theorem expression_along : (e : Expr) → (∀ name ∈ e.names, N name) →
    R (expression e) (expression (e.relabel f))
  | .literal _ _, _ => hR.pure
  | .var name token, hnames => by
    simp only [Expr.relabel, expression, f.position_token]
    exact hR.variableUse (List.forall_mem_singleton.mp hnames) _
  | .unary _ operand _, hnames => expression_along operand hnames
  | .binary left _ right _, hnames =>
    have hparts := List.forall_mem_append.mp hnames
    hR.and_then (expression_along left hparts.1) (expression_along right hparts.2)
  | .call name arguments _ token, hnames => by
    have hparts := List.forall_mem_cons.mp hnames
    simp only [Expr.relabel, expression, f.position_token, Expr.relabelList_eq_map,
      List.length_map]
    rw [← Expr.relabelList_eq_map]
    exact hR.and_then (hR.callUse hparts.1 _ _) (expressions_along arguments hparts.2)
  | .index base position _, hnames =>
    have hparts := List.forall_mem_append.mp hnames
    hR.and_then (expression_along base hparts.1) (expression_along position hparts.2)
  | .slice base start stop _, hnames =>
    have hparts := List.forall_mem_append.mp hnames
    have hbounds := List.forall_mem_append.mp hparts.2
    hR.and_then (expression_along base hparts.1)
      (hR.and_then (expression_along start hbounds.1) (expression_along stop hbounds.2))
  | .range start stop _, hnames =>
    have hparts := List.forall_mem_append.mp hnames
    hR.and_then (expression_along start hparts.1) (expression_along stop hparts.2)
  | .steppedRange start stop step _, hnames =>
    have hparts := List.forall_mem_append.mp hnames
    have hrest := List.forall_mem_append.mp hparts.2
    hR.and_then (expression_along start hparts.1)
      (hR.and_then (expression_along stop hrest.1) (expression_along step hrest.2))

theorem expressions_along : (es : List Expr) → (∀ name ∈ Expr.namesList es, N name) →
    R (expressions es) (expressions (Expr.relabelList f es))
  | [], _ => hR.pure
  | e :: rest, hnames =>
    have hparts := List.forall_mem_append.mp hnames
    hR.and_then (expression_along e hparts.1) (expressions_along rest hparts.2)

end

theorem optional_along (value : Option Expr) (hnames : ∀ name ∈ Expr.namesOption value, N name) :
    R (optional value) (optional (value.map (Expr.relabel f))) := by
  cases value with
  | none => exact hR.pure
  | some e => exact expression_along hR e hnames

/-- A declared name and its value. -/
theorem declared_along {name : String} {value : Option Expr}
    (hnames : ∀ other ∈ name :: Expr.namesOption value, N other) (type : Ty) (position : Position)
    {x y : Check Unit} (hrest : R x y) :
    R (do optional value; declare ⟨name, .var type⟩ position; x)
      (do
        optional (value.map (Expr.relabel f))
        declare ⟨name, .var type⟩ (f.position position)
        y) :=
  have hparts := List.forall_mem_cons.mp hnames
  hR.and_then (optional_along hR value hparts.2)
    (hR.and_then (hR.declare ⟨name, .var type⟩ hparts.1 nofun position) hrest)

theorem declarators_along (type : Ty) (ds : List Declarator)
    (hnames : ∀ name ∈ ds.flatMap Declarator.names, N name) :
    R (declarators type ds) (declarators type (ds.map (Declarator.relabel f))) := by
  induction ds with
  | nil => exact hR.pure
  | cons d ds ih =>
    rw [List.flatMap_cons, List.forall_mem_append] at hnames
    simp only [List.map_cons, declarators, Declarator.relabel, f.position_token]
    exact declared_along hR hnames.1 type _ (ih hnames.2)

theorem parameters_along (params : List Param)
    (hnames : ∀ name ∈ params.flatMap Param.names, N name) :
    R (parameters params) (parameters (params.map (Param.relabel f))) := by
  induction params with
  | nil => exact hR.pure
  | cons p params ih =>
    rw [List.flatMap_cons, List.forall_mem_append] at hnames
    simp only [List.map_cons, parameters, Param.relabel, f.position_token]
    exact declared_along hR hnames.1 _ _ (ih hnames.2)

omit hR in
theorem requiredAfterDefault?_relabel (params : List Param) :
    requiredAfterDefault? (params.map (Param.relabel f)) =
      (requiredAfterDefault? params).map (Param.relabel f) := by
  induction params with
  | nil => rfl
  | cons p params ih =>
    simp only [List.map_cons, requiredAfterDefault?, Param.relabel, Option.isSome_map]
    split
    · rw [List.find?_map]
      congr 2
      funext p
      exact Option.isNone_map
    · exact ih

/-! ## Statements -/

/-- The rule of a `return`, given the function around it. -/
def returnInside (value : Option Expr) (position : Position) (around : Option Enclosing) :
    Check Unit :=
  match around, value with
  | none, _ => fail .returnOutsideFunction position
  | some ⟨name, false⟩, none => fail (.missingReturnValue name) position
  | some ⟨name, true⟩, some _ => fail (.unexpectedReturnValue name) position
  | some ⟨_, false⟩, some value => expression value
  | some ⟨_, true⟩, none => return

omit hR in
theorem returnFrom_eq (value : Option Expr) (position : Position) :
    returnFrom value position = (do returnInside value position (← get).function) := rfl

theorem returnFrom_along (value : Option Expr) (position : Position)
    (hnames : ∀ name ∈ Expr.namesOption value, N name) :
    R (returnFrom value position)
      (returnFrom (value.map (Expr.relabel f)) (f.position position)) := by
  rw [returnFrom_eq, returnFrom_eq]
  refine hR.inside fun around => ?_
  match around, value with
  | none, _ => exact hR.fail _ position
  | some ⟨_, false⟩, none | some ⟨_, true⟩, some _ => exact hR.fail _ position
  | some ⟨_, false⟩, some value => exact expression_along hR value hnames
  | some ⟨_, true⟩, none => exact hR.pure

mutual

/-- The rule of a statement. -/
theorem statement_along : (s : Statement) → (∀ name ∈ s.names, N name) →
    R (statement s) (statement (s.relabel f))
  | .empty, _ => hR.pure
  | .declaration decl, hnames => declarators_along hR _ decl.declarators hnames
  | .assignment target _ value token, hnames => by
    have hparts := List.forall_mem_cons.mp hnames
    simp only [Statement.relabel, statement, f.position_token]
    exact hR.and_then (expression_along hR value hparts.2) (hR.variableUse hparts.1 _)
  | .conditional condition body otherwise _, hnames =>
    have hparts := List.forall_mem_append.mp hnames
    have hbranches := List.forall_mem_append.mp hparts.2
    hR.and_then (expression_along hR condition hparts.1)
      (hR.and_then (hR.inBlock .kwIf (statements_along body hbranches.1))
        (alternative_along otherwise hbranches.2))
  | .whileLoop condition body _, hnames =>
    have hparts := List.forall_mem_append.mp hnames
    hR.and_then (expression_along hR condition hparts.1)
      (hR.inLoop .kwWhile (statements_along body hparts.2))
  | .forLoop loopVariable iterable body _, hnames =>
    have hparts := List.forall_mem_append.mp hnames
    have hinside := List.forall_mem_append.mp hparts.2
    hR.and_then (expression_along hR iterable hparts.1)
      (hR.inLoop .kwFor (hR.and_then (declarators_along hR _ loopVariable.declarators hinside.1)
        (statements_along body hinside.2)))
  | .breakLoop token, _ | .continueLoop token, _ => by
    simp only [Statement.relabel, statement, f.position_token]
    exact hR.jump _ _
  | .returnFrom value token, hnames => by
    simp only [Statement.relabel, statement, f.position_token]
    exact returnFrom_along hR value _ hnames
  | .function decl, hnames => function_along decl hnames
  | .expression expr, hnames => expression_along hR expr hnames

theorem alternative_along : (otherwise : Alternative) → (∀ name ∈ otherwise.names, N name) →
    R (alternative otherwise) (alternative (otherwise.relabel f))
  | .absent, _ => hR.pure
  | .elseif condition body rest, hnames =>
    have hparts := List.forall_mem_append.mp hnames
    have hbranches := List.forall_mem_append.mp hparts.2
    hR.and_then (expression_along hR condition hparts.1)
      (hR.and_then (hR.inBlock .kwElseif (statements_along body hbranches.1))
        (alternative_along rest hbranches.2))
  | .otherwise body, hnames => hR.inBlock .kwElse (statements_along body hnames)

theorem function_along : (decl : FunctionDecl) → (∀ name ∈ decl.names, N name) →
    R (function decl) (function (decl.relabel f))
  | ⟨returns, name, params, body, token⟩, hnames => by
    let decl : FunctionDecl := ⟨returns, name, params, body, token⟩
    obtain ⟨hname, hinside⟩ := List.forall_mem_cons.mp hnames
    obtain ⟨hparams, hbody⟩ := List.forall_mem_append.mp hinside
    have hbody := hR.inFunction decl hname
      (hR.and_then (parameters_along hR params hparams) (statements_along body hbody))
    have hdeclared := hR.and_then
      (hR.declare ⟨name, .function returns.type decl.arity⟩ hname nofun token.position)
      hbody
    have harity : (decl.relabel f).arity = decl.arity := decl.relabel_arity f
    simp only [decl, FunctionDecl.relabel] at harity hdeclared
    simp only [FunctionDecl.relabel, function, requiredAfterDefault?_relabel, harity,
      f.position_token]
    cases requiredAfterDefault? params with
    | none => exact hdeclared
    | some param =>
      simp only [Option.map_some, Param.relabel, f.position_token]
      exact hR.and_then (hR.fail _ _) hdeclared

/-- Statements one after the other. -/
theorem statements_along : (body : List Statement) →
    (∀ name ∈ Statement.namesList body, N name) →
    R (statements body) (statements (Statement.relabelList f body))
  | [], _ => hR.pure
  | s :: rest, hnames =>
    have hparts := List.forall_mem_append.mp hnames
    hR.and_then (statement_along s hparts.1) (statements_along rest hparts.2)

end

end ScopedScript.Check
