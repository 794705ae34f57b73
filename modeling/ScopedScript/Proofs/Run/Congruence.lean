import ScopedScript.Proofs.Run.Rules

/-!
# Relations that the rules keep

Many facts about runs relate two of them: a run and the same run from another state, or a run and
one that is watched. A fact about one run relates it to itself. Such a relation comes to hold of
evaluation and execution if the few ways in which the rules put runs together keep it, whatever is
evaluated or executed. A new fact has to be shown of those few ways alone.

There are two relations side by side, one for evaluation and a weaker one for execution, since a
statement can add names to the top frame and an expression cannot. What runs in a frame of its own
is executed, but from outside it counts as evaluated.
-/

namespace ScopedScript

namespace Exec

/-! ## Composition -/

/-- A relation between runs that their composition keeps. -/
structure Composes (R : ∀ {α : Type}, Exec α → Exec α → Prop) : Prop where
  pure : ∀ {α : Type} (a : α), R (Pure.pure a) (Pure.pure a)
  halt : ∀ {α : Type} (reason : Halt), R (throw reason : Exec α) (throw reason)
  bind : ∀ {α β : Type} {x y : Exec α} {f g : α → Exec β}, R x y → (∀ a, R (f a) (g a)) →
    R (x >>= f) (y >>= g)

section Expressions

variable {R : ∀ {α : Type}, Exec α → Exec α → Prop} (hR : Composes R)

include hR

theorem Composes.combines : Combines .keep R where
  pure := hR.pure
  fail _ _ := hR.halt _
  bind := hR.bind

theorem located_rel {α : Type} (position : Position) (outcome : Outcome α) :
    R (located position outcome) (located position outcome) :=
  located_along hR.combines position outcome

theorem coerce_rel (name : String) (type : Ty) (v : Value) (position : Position) :
    R (coerce name type v position) (coerce name type v position) :=
  coerce_along hR.combines name type v position

/-- A relation that minds no declaration minds none with a value that is made to fit. -/
theorem fit_rel {name : String} {type : Ty}
    (hdeclare : ∀ v, R (declare name type v) (declare name type v)) (v : Value)
    (position : Position) : R (fit name type v position) (fit name type v position) :=
  fit_along hR.combines hdeclare v position

variable {eval eval' : Expr → Exec (Option Value)}

omit hR in
theorem kept_expr {e : Expr} (he : R (eval e) (eval' e)) :
    R (eval e) (eval' (e.relabel .keep)) := by
  rwa [e.relabel_keep]

theorem value_rel {e : Expr} (he : R (eval e) (eval' e)) : R (value eval e) (value eval' e) := by
  simpa only [Expr.relabel_keep] using value_along hR.combines (kept_expr he)

theorem condition_rel {e : Expr} (he : R (eval e) (eval' e)) :
    R (condition eval e) (condition eval' e) := by
  simpa only [Expr.relabel_keep] using condition_along hR.combines (kept_expr he)

/-- The rule of an expression relates what its parts relate. -/
theorem evalStep_rel {call call' : String → List Value → Position → Exec (Option Value)}
    (hload : ∀ name position, R (load name position) (load name position))
    (hcall : ∀ name arguments position,
      R (call name arguments position) (call' name arguments position)) {e : Expr}
    (hparts : ∀ part ∈ e.parts, R (eval part) (eval' part)) :
    R (evalStep eval call e) (evalStep eval' call' e) :=
  evalStep_keep hR.combines hload hcall hparts

theorem sequence_rel {e : Expr} (he : R (eval e) (eval' e))
    (hparts : ∀ part ∈ e.parts, R (eval part) (eval' part)) :
    R (sequence eval e) (sequence eval' e) := by
  simpa only [Expr.relabel_keep] using
    sequence_along hR.combines (fun _ => kept_expr he) (relabel_expr hparts)

theorem argument_rel (position : Position) (p : Param)
    (hfallback : ∀ e, p.fallback = some e → R (eval e) (eval' e)) (arguments : List Value) :
    R (argument eval position p arguments) (argument eval' position p arguments) := by
  simpa only [Param.relabel_keep, Relabeling.keep_position] using
    argument_along hR.combines position p (fun e he => kept_expr (hfallback e he)) arguments

end Expressions

/-! ## Statements -/

/-- Relations for evaluation and execution that the operations of a running program keep. -/
structure Respects (E S : ∀ {α : Type}, Exec α → Exec α → Prop) : Prop where
  evaluation : Composes E
  execution : Composes S
  weaken : ∀ {α : Type} {x y : Exec α}, E x y → S x y
  load : ∀ name position, E (load name position) (load name position)
  write : ∀ text position, E (write text position) (write text position)
  store : ∀ name v position, S (store name v position) (store name v position)
  declare : ∀ name type, S (declare name type none) (declare name type none)
  fit : ∀ name type v position, S (fit name type v position) (fit name type v position)
  declareFunction : ∀ decl, S (declareFunction decl) (declareFunction decl)
  /-- What is executed in a frame of its own is evaluated. -/
  inFrame : ∀ {α : Type} {x y : Exec α} name kind, S x y →
    E (inFrame name kind x) (inFrame name kind y)
  call : ∀ {eval eval' : Expr → Exec (Option Value)} {exec exec' : Statement → Exec Flow} name
    arguments position,
    (∀ decl, S (inside eval exec decl arguments position)
      (inside eval' exec' decl arguments position)) →
    (∀ b : Builtin, E (b.call arguments position) (b.call arguments position)) →
      E (call eval exec name arguments position) (call eval' exec' name arguments position)

section Statements

variable {E S : ∀ {α : Type}, Exec α → Exec α → Prop} (h : Respects E S)
  {eval eval' : Expr → Exec (Option Value)} {exec exec' : Statement → Exec Flow}

include h

theorem Respects.operates : Operates .keep E S where
  evaluation := h.evaluation.combines
  execution := h.execution.combines
  weaken := h.weaken
  load := h.load
  store := h.store
  declare := h.declare
  fit := h.fit

theorem Respects.encloses : Encloses .keep E S where
  outside := h.evaluation.combines
  inside := h.execution.combines
  fit := h.fit
  inFrame name kind _ hbody := h.inFrame name kind hbody

section Rounds

variable (hexec : ∀ s, S (exec s) (exec' s))

include hexec

theorem block_rel (body : List Statement) : S (block exec body) (block exec' body) :=
  block_keep h.execution.combines fun s _ => hexec s

theorem forRounds_rel (loopVar : Declarator) (type : Ty) (body : List Statement) (count : Nat)
    (visited : Sequence) :
    S (forRounds exec loopVar type body count visited)
      (forRounds exec' loopVar type body count visited) := by
  have hbody : ∀ s ∈ body, S (exec s) (exec' s) := fun s _ => hexec s
  simpa only [Declarator.relabel_keep, Statement.map_relabel_keep] using
    forRounds_along h.encloses loopVar type (relabel_statement hbody) count visited

end Rounds

section Steps

variable (heval : ∀ e, E (eval e) (eval' e)) (hexec : ∀ s, S (exec s) (exec' s))

include heval hexec

theorem compoundStep_rel (fuel : Nat) {s : Statement} (hs : s.isCompound) :
    E (execStep eval exec fuel s) (execStep eval' exec' fuel s) :=
  compoundStep_keep h.encloses fuel hs (fun e _ => heval e) (fun s _ => hexec s)
    fun _ _ _ _ => h.evaluation.halt _

/-- The rule of a statement relates what its parts relate. -/
theorem execStep_rel (fuel : Nat) (s : Statement) :
    S (execStep eval exec fuel s) (execStep eval' exec' fuel s) := by
  cases hs : s.isCompound with
  | true => exact h.weaken (compoundStep_rel h heval hexec fuel hs)
  | false =>
    exact plainStep_keep h.operates fuel hs (fun e _ => heval e)
      fun decl _ => h.declareFunction decl

theorem inside_rel (decl : FunctionDecl) (arguments : List Value) (position : Position) :
    S (inside eval exec decl arguments position)
      (inside eval' exec' decl arguments position) :=
  inside_keep h.operates (fun e _ => heval e) (fun s _ => hexec s) arguments position

theorem call_rel (name : String) (arguments : List Value) (position : Position) :
    E (call eval exec name arguments position) (call eval' exec' name arguments position) :=
  h.call name arguments position (fun decl => inside_rel h heval hexec decl arguments position)
    fun b => builtin_along h.evaluation.combines h.write b arguments position

end Steps

/-- Evaluation and execution are related to themselves. -/
theorem run_rel (fuel : Nat) :
    (∀ e, E (Exec.eval fuel e) (Exec.eval fuel e)) ∧
      ∀ s, S (Exec.exec fuel s) (Exec.exec fuel s) := by
  induction fuel with
  | zero => exact ⟨fun _ => h.evaluation.halt _, fun _ => h.execution.halt _⟩
  | succ fuel ih =>
    obtain ⟨heval, hexec⟩ := ih
    constructor
    · intro e
      exact evalStep_rel h.evaluation h.load (call_rel h heval hexec) fun part _ => heval part
    · intro s
      exact execStep_rel h heval hexec fuel s

/-- The execution of a conditional or a loop counts as evaluation. -/
theorem compound_rel (fuel : Nat) {s : Statement} (hs : s.isCompound) :
    E (Exec.exec fuel s) (Exec.exec fuel s) := by
  cases fuel with
  | zero => exact h.evaluation.halt _
  | succ fuel =>
    obtain ⟨heval, hexec⟩ := run_rel h fuel
    exact compoundStep_rel h heval hexec fuel hs

end Statements

end Exec

end ScopedScript
