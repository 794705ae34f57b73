import ScopedScript.Proofs.State
import ScopedScript.Proofs.Tree.Parts
import ScopedScript.Proofs.Tree.Relabel
import ScopedScript.Run.Interpreter

/-!
# How the rules put runs together

A rule puts the runs of the parts of an expression or a statement together in a few ways: in
sequence, with a fault, with one of the operations of a machine, or in a frame of its own. So a
relation between runs that is kept in these ways is kept by the rules. Of the parts the relation is
asked for one by one, since much that is known of a run depends on what is executed in it.

The two runs can be those of trees that were read from different places: faults are related if their
positions are those in each other's place. For two runs of the same tree the places are the same.

There are up to three relations side by side: one for evaluation, a weaker one for execution, since
a statement can add names to the top frame and an expression cannot, and one for what runs in a
frame inside.

## Main definitions

* `Exec.fit` : a declaration with a value that is made to fit.
* `Exec.inside` : what runs in the frame of a call.
* `Exec.Combines` : a relation between runs that composition and faults keep.
* `Exec.Operates` : relations for evaluation and execution that operations on variables keep.
* `Exec.Encloses` : relations for what runs outside and inside a frame.

## Main statements

* `evalStep_along` : the rule of an expression.
* `plainStep_along`, `compoundStep_along` : the rule of a statement.
* `inside_along` : what runs in the frame of a call.
* `evalStep_keep`, `plainStep_keep`, `compoundStep_keep`, `inside_keep` : the same for two runs of
  one tree.
-/

namespace ScopedScript

namespace Exec

/-! ## Rules in other words -/

theorem discard_eq {α : Type} (x : Exec α) : discard x = (x >>= fun _ => pure ⟨⟩) := by
  funext m
  change EStateM.map _ x m = EStateM.bind x _ m
  unfold EStateM.map EStateM.bind
  cases x m <;> rfl

/-- A variable is declared with a value that is made to fit its type. -/
def fit (name : String) (type : Ty) (v : Value) (position : Position) : Exec Unit := do
  let v ← coerce name type v position
  declare name type (some v)

/-- The value of a parameter: its argument, or its default. -/
def argument (eval : Expr → Exec (Option Value)) (position : Position) (p : Param) :
    List Value → Exec Value
  | v :: _ => pure v
  | [] => match p.fallback with
    | some e => value eval e
    | none => fail .missingValue position

theorem parameters_cons (eval : Expr → Exec (Option Value)) (position : Position) (p : Param)
    (rest : List Param) (arguments : List Value) :
    parameters eval position (p :: rest) arguments = (do
      let v ← argument eval position p arguments
      let v ← coerce p.name p.declared.type v p.token.position
      declare p.name p.declared.type (some v)
      parameters eval position rest arguments.tail) := by
  cases arguments with
  | cons v arguments => rfl
  | nil =>
    simp only [parameters, argument]
    cases p.fallback <;> rfl

/-- What runs in the frame of a call. -/
def inside (eval : Expr → Exec (Option Value)) (exec : Statement → Exec Flow)
    (decl : FunctionDecl) (arguments : List Value) (position : Position) :
    Exec (Option Value) := do
  parameters eval position decl.params arguments
  let flow ← block exec decl.body
  result decl position flow

theorem callFunction_apply (eval : Expr → Exec (Option Value)) (exec : Statement → Exec Flow)
    (decl : FunctionDecl) (outer : Nat) (arguments : List Value) (position : Position)
    (m : Machine) :
    callFunction eval exec decl outer arguments position m =
      if decl.arity.accepts arguments.length then
        if m.maxCallDepth ≤ m.callDepth then fail (.recursionLimit m.maxCallDepth) position m
        else inCall decl.name outer (inside eval exec decl arguments position) m
      else fail (.argumentCount decl.name decl.arity arguments.length) position m := by
  unfold callFunction
  split
  · simp only [bind_apply, get_apply]
    split <;> rfl
  · rfl

/-- A program is run in the same way if its statements are executed in the same way. -/
theorem programBy_congr {exec exec' : Statement → Exec Flow} {p : Program} {m : Machine}
    (h : block exec p (m.pushFrame "global" .global) =
      block exec' p (m.pushFrame "global" .global)) : programBy exec p m = programBy exec' p m := by
  unfold programBy
  rw [h]

section Lookup

variable {eval : Expr → Exec (Option Value)} {exec : Statement → Exec Flow} {name : String}
  {arguments : List Value} {position : Position} {m : Machine}

theorem call_of_function {found : Nat × FunctionDecl}
    (h : m.stack.findFunction? name = some found) :
    call eval exec name arguments position m =
      callFunction eval exec found.2 found.1 arguments position m := by
  unfold call
  simp only [bind_apply, get_apply, h]

theorem call_of_builtin (h : m.stack.findFunction? name = none) {b : Builtin}
    (hb : Builtin.ofName? name = some b) :
    call eval exec name arguments position m = b.call arguments position m := by
  unfold call
  simp only [bind_apply, get_apply, h, hb]

theorem call_of_unknown (h : m.stack.findFunction? name = none)
    (hname : Builtin.ofName? name = none) :
    call eval exec name arguments position m = fail (.unknownFunction name) position m := by
  unfold call
  simp only [bind_apply, get_apply, h, hname]

end Lookup

/-! ## Composition -/

/-- A relation between runs that faults and composition keep. -/
structure Combines (f : Relabeling) (R : ∀ {α : Type}, Exec α → Exec α → Prop) : Prop where
  pure : ∀ {α : Type} (a : α), R (Pure.pure a) (Pure.pure a)
  fail : ∀ {α : Type} (fault : RuntimeFault) (position : Position),
    R (Exec.fail fault position : Exec α) (Exec.fail fault (f.position position))
  bind : ∀ {α β : Type} {x y : Exec α} {g k : α → Exec β}, R x y → (∀ a, R (g a) (k a)) →
    R (x >>= g) (y >>= k)

section Expressions

variable {f : Relabeling} {R : ∀ {α : Type}, Exec α → Exec α → Prop} (hR : Combines f R)

include hR

theorem located_along {α : Type} (position : Position) (outcome : Outcome α) :
    R (located position outcome) (located (f.position position) outcome) := by
  cases outcome with
  | ok a => exact hR.pure a
  | error fault => exact hR.fail fault position

theorem coerce_along (name : String) (type : Ty) (v : Value) (position : Position) :
    R (coerce name type v position) (coerce name type v (f.position position)) := by
  unfold coerce
  split
  · exact hR.pure _
  · exact hR.fail _ position

/-- A relation that minds no declaration minds none with a value that is made to fit. -/
theorem fit_along {name : String} {type : Ty}
    (hdeclare : ∀ v, R (declare name type v) (declare name type v)) (v : Value)
    (position : Position) :
    R (fit name type v position) (fit name type v (f.position position)) :=
  hR.bind (coerce_along hR name type v position) fun v => hdeclare (some v)

theorem progression_along (start stop step : Int64) (position : Position) :
    R (progression start stop step position)
      (progression start stop step (f.position position)) := by
  unfold progression
  split
  · exact hR.pure _
  · exact hR.fail _ position

theorem result_along (decl : FunctionDecl) (position : Position) (flow : Flow) :
    R (result decl position flow) (result (decl.relabel f) (f.position position) flow) := by
  simp only [result, decl.relabel_returns, decl.relabel_name, decl.relabel_token,
    f.position_token, DeclaredResult.relabel]
  split
  · exact hR.pure _
  · exact hR.bind (coerce_along hR _ _ _ _) fun _ => hR.pure _
  · exact hR.fail _ position

/-- All built-in functions but `print` have no effect. -/
theorem silent_along {b : Builtin} (hb : b ≠ .print) (arguments : List Value)
    (position : Position) :
    R (b.call arguments position) (b.call arguments (f.position position)) := by
  match b, arguments with
  | .print, _ => exact absurd rfl hb
  | .assert, [v] | .len, [v] | .int, [v] | .float, [v] =>
    exact hR.bind (located_along hR position _) fun _ => hR.pure _
  | .str, [v] => exact hR.pure _
  | .assert, [] | .len, [] | .str, [] | .int, [] | .float, [] => exact hR.fail _ position
  | .assert, _ :: _ :: _ | .len, _ :: _ :: _ | .str, _ :: _ :: _ | .int, _ :: _ :: _
  | .float, _ :: _ :: _ => exact hR.fail _ position

theorem builtin_along
    (hwrite : ∀ text position, R (write text position) (write text (f.position position)))
    (b : Builtin) (arguments : List Value) (position : Position) :
    R (b.call arguments position) (b.call arguments (f.position position)) := by
  by_cases hb : b = .print
  · rw [hb]
    exact hR.bind (hwrite _ position) fun _ => hR.pure _
  · exact silent_along hR hb arguments position

variable {eval eval' : Expr → Exec (Option Value)}

theorem value_along {e : Expr} (he : R (eval e) (eval' (e.relabel f))) :
    R (value eval e) (value eval' (e.relabel f)) := by
  refine hR.bind he fun v => ?_
  rw [e.position_relabel]
  cases v with
  | some v => exact hR.pure v
  | none => exact hR.fail _ _

theorem values_along {es : List Expr} (hes : ∀ e ∈ es, R (eval e) (eval' (e.relabel f))) :
    R (values eval es) (values eval' (es.map (Expr.relabel f))) := by
  induction es with
  | nil => exact hR.pure _
  | cons e es ih =>
    rw [List.forall_mem_cons] at hes
    exact hR.bind (value_along hR hes.1) fun _ => hR.bind (ih hes.2) fun _ => hR.pure _

theorem condition_along {e : Expr} (he : R (eval e) (eval' (e.relabel f))) :
    R (condition eval e) (condition eval' (e.relabel f)) := by
  refine hR.bind (value_along hR he) fun _ => ?_
  rw [e.position_relabel]
  exact located_along hR _ _

theorem integer_along (role : String) {e : Expr} (he : R (eval e) (eval' (e.relabel f))) :
    R (integer eval role e) (integer eval' role (e.relabel f)) := by
  refine hR.bind (value_along hR he) fun _ => ?_
  rw [e.position_relabel]
  exact located_along hR _ _

theorem base_along {e : Expr} (he : R (eval e) (eval' (e.relabel f))) (position : Position) :
    R (base eval e position) (base eval' (e.relabel f) (f.position position)) := by
  refine hR.bind (value_along hR he) fun v => ?_
  cases v with
  | str s => exact hR.pure s
  | _ => exact hR.fail _ position

theorem binary_along {left right : Expr} (hleft : R (eval left) (eval' (left.relabel f)))
    (hright : R (eval right) (eval' (right.relabel f))) (op : BinaryOp) (position : Position) :
    R (binary eval left op right position)
      (binary eval' (left.relabel f) op (right.relabel f) (f.position position)) := by
  refine hR.bind (value_along hR hleft) fun l => ?_
  have happly : R (value eval right >>= fun r => located position (op.apply l r))
      (value eval' (right.relabel f) >>= fun r => located (f.position position) (op.apply l r)) :=
    hR.bind (value_along hR hright) fun _ => located_along hR position _
  cases op.decisive? with
  | none => exact happly
  | some decisive =>
    refine hR.bind (located_along hR position _) fun b => ?_
    by_cases hb : b = decisive
    · simp only [if_pos hb]
      exact hR.pure _
    · simp only [if_neg hb]
      exact happly

/-- The rule of an expression relates what its parts relate. -/
theorem evalStep_along {call call' : String → List Value → Position → Exec (Option Value)}
    (hload : ∀ name position, R (load name position) (load name (f.position position)))
    (hcall : ∀ name arguments position,
      R (call name arguments position) (call' name arguments (f.position position))) {e : Expr}
    (hparts : ∀ part ∈ e.parts, R (eval part) (eval' (part.relabel f))) :
    R (evalStep eval call e) (evalStep eval' call' (e.relabel f)) := by
  cases e with
  | literal v token => exact hR.pure _
  | var name token =>
    simp only [Expr.relabel, evalStep, f.position_token]
    exact hR.bind (hload name _) fun _ => hR.pure _
  | unary op operand token =>
    have hoperand := hparts operand (by simp [Expr.parts])
    simp only [Expr.relabel, evalStep, f.position_token]
    exact hR.bind (value_along hR hoperand) fun _ => hR.bind (located_along hR _ _) fun _ =>
      hR.pure _
  | binary left op right token =>
    simp only [Expr.parts, List.forall_mem_cons] at hparts
    simp only [Expr.relabel, evalStep, f.position_token]
    exact hR.bind (binary_along hR hparts.1 hparts.2.1 op _) fun _ => hR.pure _
  | call name arguments isStatement token =>
    simp only [Expr.relabel, evalStep, f.position_token, Expr.relabelList_eq_map]
    exact hR.bind (values_along hR hparts) fun vs => hcall name vs _
  | index e position token =>
    simp only [Expr.parts, List.forall_mem_cons] at hparts
    simp only [Expr.relabel, evalStep, f.position_token]
    exact hR.bind (base_along hR hparts.1 _) fun _ => hR.bind (integer_along hR _ hparts.2.1)
      fun _ => hR.bind (located_along hR _ _) fun _ => hR.pure _
  | slice e start stop token =>
    simp only [Expr.parts, List.forall_mem_cons] at hparts
    simp only [Expr.relabel, evalStep, f.position_token]
    exact hR.bind (base_along hR hparts.1 _) fun _ => hR.bind (integer_along hR _ hparts.2.1)
      fun _ => hR.bind (integer_along hR _ hparts.2.2.1) fun _ => hR.pure _
  | range start stop token | steppedRange start stop step token =>
    simp only [Expr.relabel, evalStep, f.position_token]
    exact hR.fail _ _

/-- What a loop runs over is evaluated only if it is no range. -/
theorem sequence_along {e : Expr} (he : e.isRange = false → R (eval e) (eval' (e.relabel f)))
    (hparts : ∀ part ∈ e.parts, R (eval part) (eval' (part.relabel f))) :
    R (sequence eval e) (sequence eval' (e.relabel f)) := by
  cases e with
  | range start stop token =>
    simp only [Expr.parts, List.forall_mem_cons] at hparts
    simp only [Expr.relabel, sequence, f.position_token]
    exact hR.bind (integer_along hR _ hparts.1) fun _ =>
      hR.bind (integer_along hR _ hparts.2.1) fun _ => progression_along hR _ _ _ _
  | steppedRange start stop step token =>
    simp only [Expr.parts, List.forall_mem_cons] at hparts
    simp only [Expr.relabel, sequence, f.position_token]
    exact hR.bind (integer_along hR _ hparts.1) fun _ =>
      hR.bind (integer_along hR _ hparts.2.1) fun _ =>
        hR.bind (integer_along hR _ hparts.2.2.1) fun _ => progression_along hR _ _ _ _
  | _ =>
    refine hR.bind (value_along hR (he rfl)) fun v => ?_
    rw [Expr.position_relabel]
    cases v with
    | str s => exact hR.pure _
    | _ => exact hR.fail _ _

theorem argument_along (position : Position) (p : Param)
    (hfallback : ∀ e, p.fallback = some e → R (eval e) (eval' (e.relabel f)))
    (arguments : List Value) :
    R (argument eval position p arguments)
      (argument eval' (f.position position) (p.relabel f) arguments) := by
  cases arguments with
  | cons v arguments => exact hR.pure v
  | nil =>
    simp only [argument, Param.relabel]
    cases hp : p.fallback with
    | none => exact hR.fail _ position
    | some e => exact value_along hR (hfallback e hp)

end Expressions

/-! ## Statements without frames -/

/-- Relations for evaluation and execution that operations on variables keep. -/
structure Operates (f : Relabeling) (E S : ∀ {α : Type}, Exec α → Exec α → Prop) : Prop where
  evaluation : Combines f E
  execution : Combines f S
  weaken : ∀ {α : Type} {x y : Exec α}, E x y → S x y
  load : ∀ name position, E (load name position) (load name (f.position position))
  store : ∀ name v position, S (store name v position) (store name v (f.position position))
  declare : ∀ name type, S (declare name type none) (declare name type none)
  /-- A variable is declared with a value that is made to fit its type. -/
  fit : ∀ name type v position,
    S (fit name type v position) (fit name type v (f.position position))

theorem fitted_along {f : Relabeling} {S : ∀ {α : Type}, Exec α → Exec α → Prop}
    (hS : Combines f S) {name : String} {type : Ty} {v : Value} {position : Position}
    (hfit : S (fit name type v position) (fit name type v (f.position position))) {α : Type}
    {next next' : Unit → Exec α} (hnext : S (next ()) (next' ())) :
    S (coerce name type v position >>= fun v => declare name type (some v) >>= next)
      (coerce name type v (f.position position) >>= fun v =>
        declare name type (some v) >>= next') := by
  have hall := hS.bind hfit fun _ => hnext
  simpa only [fit, bind_assoc] using hall

theorem block_along {f : Relabeling} {S : ∀ {α : Type}, Exec α → Exec α → Prop}
    (hS : Combines f S) {exec exec' : Statement → Exec Flow} {body : List Statement}
    (hbody : ∀ s ∈ body, S (exec s) (exec' (s.relabel f))) :
    S (block exec body) (block exec' (body.map (Statement.relabel f))) := by
  induction body with
  | nil => exact hS.pure _
  | cons s body ih =>
    rw [List.forall_mem_cons] at hbody
    refine hS.bind hbody.1 fun flow => ?_
    cases flow with
    | normal => exact ih hbody.2
    | _ => exact hS.pure _

section Operates

variable {f : Relabeling} {E S : ∀ {α : Type}, Exec α → Exec α → Prop} (h : Operates f E S)
  {eval eval' : Expr → Exec (Option Value)} {exec exec' : Statement → Exec Flow}

include h

theorem declarators_along (type : Ty) {ds : List Declarator}
    (hds : ∀ d ∈ ds, ∀ e, d.initializer = some e → E (eval e) (eval' (e.relabel f))) :
    S (declarators eval type ds) (declarators eval' type (ds.map (Declarator.relabel f))) := by
  induction ds with
  | nil => exact h.execution.pure _
  | cons d ds ih =>
    rw [List.forall_mem_cons] at hds
    simp only [List.map_cons, declarators, Declarator.relabel, f.position_token]
    cases hd : d.initializer with
    | none => exact h.execution.bind (h.declare _ _) fun _ => ih hds.2
    | some e =>
      have hvalue := value_along h.evaluation (hds.1 e hd)
      exact h.execution.bind (h.weaken hvalue) fun _ =>
        fitted_along h.execution (h.fit _ _ _ _) (ih hds.2)

theorem assign_along (target : String) (op : AssignOp) {e : Expr}
    (he : E (eval e) (eval' (e.relabel f))) (position : Position) :
    S (assign eval target op e position)
      (assign eval' target op (e.relabel f) (f.position position)) := by
  refine h.execution.bind (h.weaken (value_along h.evaluation he)) fun v => ?_
  cases op with
  | plain => exact h.store _ _ _
  | compound op =>
    exact h.execution.bind (h.weaken (h.load _ _)) fun _ =>
      h.execution.bind (located_along h.execution _ _) fun _ => h.store _ _ _

theorem parameters_along (position : Position) {params : List Param}
    (hparams : ∀ p ∈ params, ∀ e, p.fallback = some e → E (eval e) (eval' (e.relabel f)))
    (arguments : List Value) :
    S (parameters eval position params arguments)
      (parameters eval' (f.position position) (params.map (Param.relabel f)) arguments) := by
  induction params generalizing arguments with
  | nil => exact h.execution.pure _
  | cons p params ih =>
    rw [List.forall_mem_cons] at hparams
    rw [List.map_cons, parameters_cons, parameters_cons]
    have hargument := argument_along h.evaluation position p hparams.1 arguments
    refine h.execution.bind (h.weaken hargument) fun _ => ?_
    simp only [Param.relabel, f.position_token]
    exact fitted_along h.execution (h.fit _ _ _ _) (ih hparams.2 _)

/-- What runs in the frame of a call. -/
theorem inside_along {decl : FunctionDecl}
    (hparts : ∀ e ∈ decl.parts, E (eval e) (eval' (e.relabel f)))
    (hbody : ∀ s ∈ decl.body, S (exec s) (exec' (s.relabel f))) (arguments : List Value)
    (position : Position) :
    S (inside eval exec decl arguments position)
      (inside eval' exec' (decl.relabel f) arguments (f.position position)) := by
  unfold inside
  rw [decl.relabel_params, decl.relabel_body]
  have hparams := parameters_along h position
    (fun p hp e he => hparts e (FunctionDecl.mem_parts hp he)) arguments
  exact h.execution.bind hparams fun _ =>
    h.execution.bind (block_along h.execution hbody) fun _ => result_along h.execution _ _ _

/-- The rule of a statement that runs in no frame of its own. -/
theorem plainStep_along (fuel : Nat) {s : Statement} (hs : s.isCompound = false)
    (hparts : ∀ e ∈ s.parts, E (eval e) (eval' (e.relabel f)))
    (hfunction : ∀ decl, s = .function decl →
      S (declareFunction decl) (declareFunction (decl.relabel f))) :
    S (execStep eval exec fuel s) (execStep eval' exec' fuel (s.relabel f)) := by
  cases s with
  | declaration decl =>
    have hdeclarators := declarators_along h decl.declared.type
      fun d hd e he => hparts e (VarDecl.mem_parts hd he)
    exact h.execution.bind hdeclarators fun _ => h.execution.pure _
  | assignment target op e token =>
    have hassign := assign_along h target op (hparts e (by simp [Statement.parts])) token.position
    simp only [Statement.relabel, execStep, f.position_token]
    exact h.execution.bind hassign fun _ => h.execution.pure _
  | returnFrom e token =>
    cases e with
    | none => exact h.execution.pure _
    | some e =>
      have hvalue := value_along h.evaluation (hparts e (by simp [Statement.parts]))
      exact h.execution.bind (h.weaken hvalue) fun _ => h.execution.pure _
  | function decl => exact h.execution.bind (hfunction decl rfl) fun _ => h.execution.pure _
  | expression e =>
    have he := hparts e (by simp [Statement.parts])
    simp only [Statement.relabel, execStep, discard_eq, bind_assoc, pure_bind]
    exact h.execution.bind (h.weaken he) fun _ => h.execution.pure _
  | empty | breakLoop token | continueLoop token => exact h.execution.pure _
  | _ => cases hs

end Operates

/-! ## Statements with frames of their own -/

/-- Relations for what runs outside and inside a frame. -/
structure Encloses (f : Relabeling) (E I : ∀ {α : Type}, Exec α → Exec α → Prop) : Prop where
  outside : Combines f E
  inside : Combines f I
  fit : ∀ name type v position,
    I (fit name type v position) (fit name type v (f.position position))
  /-- What runs inside a frame is run outside. No rule of a statement enters the frame of a call. -/
  inFrame : ∀ {α : Type} {x y : Exec α} name kind, kind ≠ .function → I x y →
    E (inFrame name kind x) (inFrame name kind y)

section Encloses

variable {f : Relabeling} {E I : ∀ {α : Type}, Exec α → Exec α → Prop} (h : Encloses f E I)
  {eval eval' : Expr → Exec (Option Value)} {exec exec' : Statement → Exec Flow}

include h

theorem blockInFrame_along (name : String) {kind : FrameKind} (hkind : kind ≠ .function)
    {body : List Statement} (hbody : ∀ s ∈ body, I (exec s) (exec' (s.relabel f))) :
    E (inFrame name kind (block exec body))
      (inFrame name kind (block exec' (body.map (Statement.relabel f)))) :=
  h.inFrame name kind hkind (block_along h.inside hbody)

theorem alternative_along {otherwise : Alternative}
    (hparts : ∀ e ∈ otherwise.parts, E (eval e) (eval' (e.relabel f)))
    (hinner : ∀ s ∈ otherwise.inner, I (exec s) (exec' (s.relabel f))) :
    E (alternative eval exec otherwise) (alternative eval' exec' (otherwise.relabel f)) := by
  induction otherwise using alternative.induct with
  | case1 => exact h.outside.pure _
  | case2 e body rest ih =>
    simp only [Alternative.parts, List.forall_mem_cons] at hparts
    simp only [Alternative.inner, List.forall_mem_append] at hinner
    simp only [Alternative.relabel, alternative, Statement.relabelList_eq_map]
    refine h.outside.bind (condition_along h.outside hparts.1) fun b => ?_
    cases b with
    | true => exact blockInFrame_along h _ (by decide) hinner.1
    | false => exact ih hparts.2 hinner.2
  | case3 body =>
    simp only [Alternative.relabel, alternative, Statement.relabelList_eq_map]
    exact blockInFrame_along h _ (by decide) hinner

theorem whileRounds_along {e : Expr} {body : List Statement}
    (hexhausted : E (exhausted : Exec Flow) exhausted)
    (he : E (eval e) (eval' (e.relabel f)))
    (hbody : ∀ s ∈ body, I (exec s) (exec' (s.relabel f))) (fuel : Nat) :
    E (whileRounds eval exec e body fuel)
      (whileRounds eval' exec' (e.relabel f) (body.map (Statement.relabel f)) fuel) := by
  induction fuel with
  | zero => exact hexhausted
  | succ fuel ih =>
    refine h.outside.bind (condition_along h.outside he) fun b => ?_
    cases b with
    | false => exact h.outside.pure _
    | true =>
      refine h.outside.bind (blockInFrame_along h _ (by decide) hbody) fun flow => ?_
      cases flow with
      | normal => exact ih
      | continued => exact ih
      | broken => exact h.outside.pure _
      | returned v => exact h.outside.pure _

theorem forRounds_along (loopVar : Declarator) (type : Ty) {body : List Statement}
    (hbody : ∀ s ∈ body, I (exec s) (exec' (s.relabel f))) (count : Nat) (visited : Sequence) :
    I (forRounds exec loopVar type body count visited)
      (forRounds exec' (loopVar.relabel f) type (body.map (Statement.relabel f)) count
        visited) := by
  induction count generalizing visited with
  | zero => exact h.inside.pure _
  | succ count ih =>
    simp only [forRounds, Declarator.relabel, f.position_token]
    cases visited.next? with
    | none => exact h.inside.pure _
    | some found =>
      refine fitted_along h.inside (h.fit _ _ _ _) ?_
      refine h.inside.bind (block_along h.inside hbody) fun flow => ?_
      cases flow with
      | normal => exact ih found.2
      | continued => exact ih found.2
      | broken => exact h.inside.pure _
      | returned v => exact h.inside.pure _

theorem forLoop_along (loopVariable : VarDecl) {iterable : Expr} {body : List Statement}
    (hiterable : iterable.isRange = false → E (eval iterable) (eval' (iterable.relabel f)))
    (hparts : ∀ e ∈ iterable.parts, E (eval e) (eval' (e.relabel f)))
    (hbody : ∀ s ∈ body, I (exec s) (exec' (s.relabel f))) (position : Position) :
    E (forLoop eval exec loopVariable iterable body position)
      (forLoop eval' exec' (loopVariable.relabel f) (iterable.relabel f)
        (body.map (Statement.relabel f)) (f.position position)) := by
  obtain ⟨declared, declarators⟩ := loopVariable
  unfold forLoop
  cases declarators with
  | nil => exact h.outside.fail _ position
  | cons d ds =>
    exact h.outside.bind (sequence_along h.outside hiterable hparts) fun visited =>
      h.inFrame _ _ (by decide) (forRounds_along h d _ hbody _ visited)

/-- The rule of a conditional or a loop. -/
theorem compoundStep_along (fuel : Nat) {s : Statement} (hs : s.isCompound)
    (hparts : ∀ e ∈ s.parts, E (eval e) (eval' (e.relabel f)))
    (hinner : ∀ s' ∈ s.inner, I (exec s') (exec' (s'.relabel f)))
    (hexhausted : ∀ e body token, s = .whileLoop e body token →
      E (exhausted : Exec Flow) exhausted) :
    E (execStep eval exec fuel s) (execStep eval' exec' fuel (s.relabel f)) := by
  cases s with
  | conditional e body otherwise token =>
    simp only [Statement.parts, List.forall_mem_cons] at hparts
    simp only [Statement.inner, List.forall_mem_append] at hinner
    simp only [Statement.relabel, execStep, Statement.relabelList_eq_map]
    refine h.outside.bind (condition_along h.outside hparts.1) fun b => ?_
    cases b with
    | true => exact blockInFrame_along h _ (by decide) hinner.1
    | false => exact alternative_along h hparts.2 hinner.2
  | whileLoop e body token =>
    simp only [Statement.relabel, execStep, Statement.relabelList_eq_map]
    exact whileRounds_along h (hexhausted e body token rfl)
      (hparts e (by simp [Statement.parts])) hinner fuel
  | forLoop loopVariable iterable body token =>
    simp only [Statement.parts, List.forall_mem_cons] at hparts
    simp only [Statement.relabel, execStep, Statement.relabelList_eq_map, f.position_token]
    exact forLoop_along h loopVariable (fun _ => hparts.1) hparts.2 hinner _
  | _ => cases hs

end Encloses

/-! ## Two runs of the same tree -/

section Keep

variable {E S : ∀ {α : Type}, Exec α → Exec α → Prop}
  {eval eval' : Expr → Exec (Option Value)} {exec exec' : Statement → Exec Flow}

theorem relabel_expr {es : List Expr} (hes : ∀ e ∈ es, E (eval e) (eval' e)) :
    ∀ e ∈ es, E (eval e) (eval' (e.relabel .keep)) := by
  simpa only [Expr.relabel_keep] using hes

theorem relabel_statement {body : List Statement} (hbody : ∀ s ∈ body, S (exec s) (exec' s)) :
    ∀ s ∈ body, S (exec s) (exec' (s.relabel .keep)) := by
  simpa only [Statement.relabel_keep] using hbody

theorem evalStep_keep (hE : Combines .keep E)
    {call call' : String → List Value → Position → Exec (Option Value)}
    (hload : ∀ name position, E (load name position) (load name position))
    (hcall : ∀ name arguments position,
      E (call name arguments position) (call' name arguments position)) {e : Expr}
    (hparts : ∀ part ∈ e.parts, E (eval part) (eval' part)) :
    E (evalStep eval call e) (evalStep eval' call' e) := by
  simpa only [Expr.relabel_keep] using evalStep_along hE hload hcall (relabel_expr hparts)

theorem block_keep (hS : Combines .keep S) {body : List Statement}
    (hbody : ∀ s ∈ body, S (exec s) (exec' s)) : S (block exec body) (block exec' body) := by
  simpa only [Statement.map_relabel_keep] using block_along hS (relabel_statement hbody)

theorem inside_keep (h : Operates .keep E S) {decl : FunctionDecl}
    (hparts : ∀ e ∈ decl.parts, E (eval e) (eval' e))
    (hbody : ∀ s ∈ decl.body, S (exec s) (exec' s)) (arguments : List Value)
    (position : Position) :
    S (inside eval exec decl arguments position)
      (inside eval' exec' decl arguments position) := by
  simpa only [FunctionDecl.relabel_keep, Relabeling.keep_position] using
    inside_along h (relabel_expr hparts) (relabel_statement hbody) arguments position

theorem plainStep_keep (h : Operates .keep E S) (fuel : Nat) {s : Statement}
    (hs : s.isCompound = false) (hparts : ∀ e ∈ s.parts, E (eval e) (eval' e))
    (hfunction : ∀ decl, s = .function decl → S (declareFunction decl) (declareFunction decl)) :
    S (execStep eval exec fuel s) (execStep eval' exec' fuel s) := by
  have hrelabeled : ∀ decl, s = .function decl →
      S (declareFunction decl) (declareFunction (decl.relabel .keep)) := by
    simpa only [FunctionDecl.relabel_keep] using hfunction
  simpa only [Statement.relabel_keep] using
    plainStep_along h fuel hs (relabel_expr hparts) hrelabeled

theorem forLoop_keep {I : ∀ {α : Type}, Exec α → Exec α → Prop} (h : Encloses .keep E I)
    (loopVariable : VarDecl) {iterable : Expr} {body : List Statement}
    (hiterable : iterable.isRange = false → E (eval iterable) (eval' iterable))
    (hparts : ∀ e ∈ iterable.parts, E (eval e) (eval' e))
    (hbody : ∀ s ∈ body, I (exec s) (exec' s)) (position : Position) :
    E (forLoop eval exec loopVariable iterable body position)
      (forLoop eval' exec' loopVariable iterable body position) := by
  have hiterable' : iterable.isRange = false →
      E (eval iterable) (eval' (iterable.relabel .keep)) := by
    simpa only [Expr.relabel_keep] using hiterable
  simpa only [VarDecl.relabel_keep, Expr.relabel_keep, Statement.map_relabel_keep,
    Relabeling.keep_position] using
    forLoop_along h loopVariable hiterable' (relabel_expr hparts) (relabel_statement hbody) position

theorem compoundStep_keep {I : ∀ {α : Type}, Exec α → Exec α → Prop} (h : Encloses .keep E I)
    (fuel : Nat) {s : Statement} (hs : s.isCompound)
    (hparts : ∀ e ∈ s.parts, E (eval e) (eval' e))
    (hinner : ∀ s' ∈ s.inner, I (exec s') (exec' s'))
    (hexhausted : ∀ e body token, s = .whileLoop e body token →
      E (exhausted : Exec Flow) exhausted) :
    E (execStep eval exec fuel s) (execStep eval' exec' fuel s) := by
  simpa only [Statement.relabel_keep] using
    compoundStep_along h fuel hs (relabel_expr hparts) (relabel_statement hinner) hexhausted

end Keep

end Exec

end ScopedScript
