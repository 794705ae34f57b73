import ScopedScript.Proofs.Run.Invariant
import ScopedScript.Proofs.Run.Outcome
import ScopedScript.Proofs.Run.Rounds

/-!
# Compound assignments

A compound assignment `x op= e` evaluates `e` first and reads `x` then, while `x = x op e` reads `x`
first, as an operator evaluates its operands from left to right. So the two part where the
evaluation of `e` assigns `x`: the one joins the value that `x` has got meanwhile, the other the one
it had before.

Apart from that they do the same. What they do is told by the bindings in every frame, by what was
printed, and by the kind of fault if there is one, wherever it is reported.
-/

namespace ScopedScript

/-! ## What can be told of a run -/

/-- What can be told of a state: the bindings in every frame, and what was printed. -/
structure View where
  bindings : List (String → Option Binding)
  printed : ByteArray

/-- What can be told of a state. -/
def Machine.view (m : Machine) : View :=
  ⟨m.stack.frames.toList.map fun frame => frame.bindings.find?, m.output.bytes⟩

/-- The kind of a fault; none for a run that was given too few steps. -/
def Halt.variant : Halt → Option Nat
  | .fault d => some d.cause.ctorIdx
  | .outOfFuel => none

/-- The kind of fault of a variable without a value. -/
def Halt.unbound : Option Nat := some (RuntimeFault.unboundVariable "").ctorIdx

theorem Halt.variant_ne_unbound {fault : RuntimeFault} (h : fault.isNaming = false)
    (position : Position) : (Halt.fault ⟨fault, position⟩).variant ≠ unbound := by
  cases fault <;> simp_all [variant, unbound, RuntimeFault.isNaming, RuntimeFault.ctorIdx]

namespace Exec

/-- What can be told of the end of a run: how it ended, and in which state. -/
def effect {α : Type} : EStateM.Result Halt Machine α → Except (Option Nat) α × View
  | .ok a after => (.ok a, after.view)
  | .error halt after => (.error halt.variant, after.view)

/-! ## Reading and joining -/

section Assignment

variable (target : String) (op : BinaryOp)

theorem load_apply (position : Position) (m : Machine) :
    load target position m = match valueOf? target m with
      | some v => .ok v m
      | none => .error (.fault ⟨.unboundVariable target, position⟩) m := by
  simp only [load, bind_apply, get_apply, valueOf?]
  cases (m.stack.get? target).bind (·.value) <;> rfl

/-- What is left to do of an assignment once its expression has a value: the old value of the
target, if it has one, joins that. -/
def joined (old : Option Value) (assigned : Value) (position : Position) : Exec Flow :=
  match old with
  | none => fail (.unboundVariable target) position
  | some old => do
    store target (← located position (op.apply old assigned)) position
    return .normal

/-- A compound assignment reads its target behind the evaluation. -/
theorem exec_compound (e : Expr) (token : Token) (fuel : Nat) :
    exec (fuel + 1) (.assignment target (.compound op) e token) = (do
      let assigned ← value (eval fuel) e
      let old ← load target token.position
      let v ← located token.position (op.apply old assigned)
      store target v token.position
      return .normal) := by
  simp only [exec_succ, execStep, assign, bind_assoc]

/-- The assignment of an operator reads the target before it evaluates the other operand. -/
theorem exec_plain {op : BinaryOp} (hop : op.decisive? = none) (e : Expr)
    (left joint token : Token) (fuel : Nat) :
    exec (fuel + 3)
      (.assignment target .plain (.binary (.var target left) op e joint) token) = (do
      let old ← load target left.position
      let assigned ← value (eval (fuel + 1)) e
      let v ← located joint.position (op.apply old assigned)
      store target v token.position
      return .normal) := by
  have hleft : value (eval (fuel + 1)) (.var target left) = load target left.position := by
    simp only [value, eval_succ, evalStep, bind_assoc, pure_bind, bind_pure]
  rw [exec_succ, execStep, assign, value, eval_succ]
  simp only [evalStep, binary, hop, hleft, bind_assoc, pure_bind]

/-- Where a fault is reported cannot be told. -/
theorem effect_joined_some (old assigned : Value) (p q r : Position) (m : Machine) :
    effect ((do
      let v ← located p (op.apply old assigned)
      store target v q
      return Flow.normal : Exec Flow) m) =
      effect (joined target op (some old) assigned r m) := by
  cases happly : op.apply old assigned with
  | error fault =>
    simp only [joined, happly]
    rfl
  | ok v =>
    simp only [joined, happly, located, pure_bind]
    cases htype : (m.stack.get? target).bind (·.type) with
    | none =>
      simp only [store, bind_apply, get_apply, htype]
    | some type =>
      simp only [store, bind_apply, get_apply, htype, coerce]
      cases v.coerce? type <;> rfl

/-- Where there is an old value, no fault is about a variable without one. -/
theorem joined_yields (old assigned : Value) (position : Position) (m : Machine) :
    Yields (·.variant ≠ Halt.unbound) (joined target op (some old) assigned position) m
      fun _ _ => True := by
  have hlenient : Lenient (·.variant ≠ Halt.unbound) :=
    ⟨nofun, fun _ position h => Halt.variant_ne_unbound h position⟩
  have hstore : ∀ v after, Yields (·.variant ≠ Halt.unbound) (store target v position) after
      fun _ _ => True := by
    intro v after
    refine .look ?_
    cases (after.stack.get? target).bind (·.type) with
    | none => exact trivial
    | some type => exact (hlenient.coerce target type v position).bind fun _ _ _ => trivial
  exact (hlenient.located (op.apply_plain old assigned) position).bind fun v after _ =>
    (hstore v after).bind fun _ _ _ => .pure trivial

theorem effect_joined_eq_unbound_iff (old : Option Value) (assigned : Value)
    (position : Position) (m : Machine) (view : View) :
    effect (joined target op old assigned position m) = (.error Halt.unbound, view) ↔
      old = none ∧ m.view = view := by
  cases old with
  | none =>
    change (Except.error Halt.unbound, m.view) = (.error Halt.unbound, view) ↔ _
    simp
  | some old =>
    have hyields := joined_yields target op old assigned position m
    unfold Yields at hyields
    cases hrun : joined target op (some old) assigned position m with
    | ok flow after => simp [effect]
    | error halt after =>
      rw [hrun] at hyields
      simp [effect, hyields]

end Assignment

/-! ## When it makes no difference -/

/-- It makes no difference whether the old value of a target is read before an evaluation or behind
it. If there is a value before, the one behind has to do the same. If there is none before, there
must be none behind either, or the evaluation must itself fail for want of a value; and it must have
done nothing that can be told. -/
def Indifferent (target : String) (op : BinaryOp) (position : Position) (m : Machine) :
    EStateM.Result Halt Machine Value → Prop
  | .ok assigned after => match valueOf? target m with
    | some old => effect (joined target op (valueOf? target after) assigned position after) =
        effect (joined target op (some old) assigned position after)
    | none => valueOf? target after = none ∧ after.view = m.view
  | .error halt after =>
    (valueOf? target m).isSome ∨ halt.variant = Halt.unbound ∧ after.view = m.view

section Forms

variable {op : BinaryOp} (hop : op.decisive? = none) (target : String) (e : Expr)
  (token left joint token' : Token) (fuel : Nat) (m : Machine)

theorem effect_exec_compound : effect
    (exec (fuel + 1) (.assignment target (.compound op) e token) m) =
      match value (eval fuel) e m with
      | .ok assigned after =>
        effect (joined target op (valueOf? target after) assigned token.position after)
      | .error halt after => (.error halt.variant, after.view) := by
  rw [exec_compound, bind_apply]
  cases value (eval fuel) e m with
  | error halt after => rfl
  | ok assigned after =>
    simp only [bind_apply, load_apply]
    cases valueOf? target after with
    | none => rfl
    | some old => simp only [joined, bind_apply]

include hop

theorem effect_exec_plain : effect (exec (fuel + 3)
    (.assignment target .plain (.binary (.var target left) op e joint) token') m) =
      match valueOf? target m with
      | none => (.error Halt.unbound, m.view)
      | some old => match value (eval (fuel + 1)) e m with
        | .ok assigned after =>
          effect (joined target op (some old) assigned token.position after)
        | .error halt after => (.error halt.variant, after.view) := by
  rw [exec_plain target hop, bind_apply, load_apply]
  cases valueOf? target m with
  | none => rfl
  | some old =>
    simp only [bind_apply (value (eval (fuel + 1)) e)]
    cases value (eval (fuel + 1)) e m with
    | error halt after => rfl
    | ok assigned after => exact effect_joined_some target op old assigned _ _ _ after

theorem effect_eq_iff :
    effect (exec (fuel + 2) (.assignment target (.compound op) e token) m) =
      effect (exec (fuel + 3)
        (.assignment target .plain (.binary (.var target left) op e joint) token') m) ↔
      Indifferent target op token.position m (value (eval (fuel + 1)) e m) := by
  rw [effect_exec_compound, effect_exec_plain hop target e token]
  cases value (eval (fuel + 1)) e m with
  | error halt after =>
    cases hold : valueOf? target m with
    | none => simp [Indifferent, hold]
    | some old => simp [Indifferent, hold]
  | ok assigned after =>
    cases hold : valueOf? target m with
    | none => simp [Indifferent, hold, effect_joined_eq_unbound_iff]
    | some old => simp [Indifferent, hold]

end Forms

/-! ## Expressions that assign nothing -/

end Exec

mutual

/-- The functions that an expression calls, by name. -/
def Expr.callees : Expr → List String
  | .literal _ _ | .var _ _ => []
  | .unary _ operand _ => operand.callees
  | .binary left _ right _ => left.callees ++ right.callees
  | .call name arguments _ _ => name :: Expr.calleesList arguments
  | .index base position _ => base.callees ++ position.callees
  | .slice base start stop _ => base.callees ++ start.callees ++ stop.callees
  | .range start stop _ => start.callees ++ stop.callees
  | .steppedRange start stop step _ => start.callees ++ stop.callees ++ step.callees

/-- The functions that expressions call, by name. -/
def Expr.calleesList : List Expr → List String
  | [] => []
  | e :: rest => e.callees ++ Expr.calleesList rest

end

theorem Expr.mem_calleesList {es : List Expr} {e : Expr} (he : e ∈ es) {name : String}
    (h : name ∈ e.callees) : name ∈ Expr.calleesList es := by
  induction he with
  | head => exact List.mem_append_left _ h
  | tail _ _ ih => exact List.mem_append_right _ ih

theorem Expr.mem_callees_of_part {e part : Expr} (hpart : part ∈ e.parts) {name : String}
    (h : name ∈ part.callees) : name ∈ e.callees := by
  cases e with
  | call => exact List.mem_cons_of_mem _ (mem_calleesList hpart h)
  | literal | var => cases hpart
  | unary | binary | index | slice | range | steppedRange =>
    simp only [parts, List.mem_cons, List.not_mem_nil, or_false] at hpart
    simp only [callees, List.mem_append]
    grind

namespace Exec

/-- The rule of an expression does not ask for functions other than the one that it calls. -/
theorem evalStep_congr_call (eval : Expr → Exec (Option Value))
    {call call' : String → List Value → Position → Exec (Option Value)} {e : Expr}
    (h : ∀ name ∈ e.callees, call name = call' name) :
    evalStep eval call e = evalStep eval call' e := by
  cases e with
  | call name arguments isStatement token =>
    simp only [evalStep, h name List.mem_cons_self]
  | _ => rfl

/-- A call assigns nothing if no function of the program is found. -/
theorem stack_of_call {stack : Stack} {name : String} (h : stack.findFunction? name = none)
    (eval : Expr → Exec (Option Value)) (exec : Statement → Exec Flow) (arguments : List Value)
    (position : Position) : Upholds (fun m => m.stack = stack)
      (call eval exec name arguments position) (call eval exec name arguments position) := by
  have hcomposes := upholds_composes fun m => m.stack = stack
  intro m hm
  rw [← hm] at h
  cases hb : Builtin.ofName? name with
  | none =>
    rw [final, call_of_unknown h hb]
    exact ⟨rfl, hm⟩
  | some b =>
    rw [final, call_of_builtin h hb]
    have hwrite := upholds_write (I := fun m => m.stack = stack) fun _ hstack => hstack
    exact builtin_along hcomposes.combines hwrite b arguments position m hm

/-- An expression that calls built-in functions alone assigns nothing. -/
theorem stack_of_builtins {stack : Stack} {e : Expr}
    (h : ∀ name ∈ e.callees, stack.findFunction? name = none) (fuel : Nat) :
    Upholds (fun m => m.stack = stack) (eval fuel e) (eval fuel e) := by
  have hcomposes := upholds_composes fun m => m.stack = stack
  induction fuel generalizing e with
  | zero => exact hcomposes.halt _
  | succ fuel ih =>
    -- Calls of other functions than these are no matter, so they can be left out.
    let called : String → List Value → Position → Exec (Option Value) :=
      fun name arguments position =>
        if stack.findFunction? name = none then call (eval fuel) (exec fuel) name arguments position
        else exhausted
    have hcalled : evalStep (eval fuel) (call (eval fuel) (exec fuel)) e =
        evalStep (eval fuel) called e := by
      refine evalStep_congr_call _ fun name hname => ?_
      funext arguments position
      simp only [called, if_pos (h name hname)]
    rw [eval_succ, hcalled]
    refine evalStep_rel hcomposes upholds_load ?_ ?_
    · intro name arguments position
      simp only [called]
      split
      next hnone => exact stack_of_call hnone _ _ arguments position
      next => exact hcomposes.halt _
    · exact fun part hpart => ih fun name hname => h name (Expr.mem_callees_of_part hpart hname)

end Exec

/-! ## The two forms -/

/-- Arithmetic evaluates both operands. -/
theorem BinaryOp.decisive?_of_isArithmetic (op : BinaryOp) (hop : op.isArithmetic) :
    op.decisive? = none := by
  cases op <;> first | rfl | cases hop

open Exec in
/-- A compound assignment reads its target late, behind the evaluation of its expression. It has the
effect of the assignment that is written out, with the same bindings in every frame, the same output
and the same kind of fault, exactly if that makes no difference. It makes none if the target has a
value and the evaluation leaves it that value or fails; so it makes none if the target has a value
and the expression calls no function of the program. -/
theorem compound_reads_late {op : BinaryOp} (hop : op.isArithmetic) (target : String) (e : Expr)
    (token left joint token' : Token) (fuel : Nat) (m : Machine) :
    let compound := exec (fuel + 2) (.assignment target (.compound op) e token) m
    let plain := exec (fuel + 3)
      (.assignment target .plain (.binary (.var target left) op e joint) token') m
    let evaluated := value (eval (fuel + 1)) e m
    (effect compound = effect plain ↔ Indifferent target op token.position m evaluated) ∧
    ((valueOf? target m).isSome → (∀ v after, evaluated = .ok v after →
      valueOf? target after = valueOf? target m) → effect compound = effect plain) ∧
    ((valueOf? target m).isSome → (∀ name ∈ e.callees, m.stack.findFunction? name = none) →
      effect compound = effect plain) := by
  intro compound plain evaluated
  have hiff := effect_eq_iff (op.decisive?_of_isArithmetic hop) target e token left joint token' fuel m
  have hkept : (valueOf? target m).isSome → (∀ v after, evaluated = .ok v after →
      valueOf? target after = valueOf? target m) → effect compound = effect plain := by
    intro hsome hleft
    refine hiff.mpr ?_
    obtain ⟨old, hold⟩ := Option.isSome_iff_exists.mp hsome
    cases hevaluated : value (eval (fuel + 1)) e m with
    | error halt after => exact .inl hsome
    | ok v after => simp only [Indifferent, hleft v after hevaluated, hold]
  refine ⟨hiff, hkept, fun hsome hcallees => hkept hsome fun v after hevaluated => ?_⟩
  have hupholds := value_rel (upholds_composes fun now => now.stack = m.stack)
    (stack_of_builtins hcallees (fuel + 1))
  have hstack := (hupholds m rfl).2
  rw [final, show value (eval (fuel + 1)) e m = _ from hevaluated] at hstack
  simp only [valueOf?, hstack]

open Exec in
/-- A length can be added whenever the old value is read. -/
theorem compound_reads_late_length : ∃ m : Machine, valueOf? "x" m = some (.int 1) ∧
    ∀ token : Token,
      let length : Expr := .call "len" [.literal (.str "ab") token] false token
      effect (exec 4 (.assignment "x" (.compound .add) length token) m) =
        effect (exec 5 (.assignment "x" .plain
          (.binary (.var "x" token) .add length token) token) m) := by
  let m : Machine := { Machine.initial 1 none with
    stack := (Stack.empty.push "global" .global).declare "x" (some .int) (some (.int 1)) }
  have hvalue : valueOf? "x" m = some (.int 1) := by decide
  refine ⟨m, hvalue, ?_⟩
  intro token length
  have hcallees : ∀ name ∈ length.callees, m.stack.findFunction? name = none := by
    intro name hname
    obtain rfl : name = "len" := by simpa [length, Expr.callees, Expr.calleesList] using hname
    rfl
  have hop : BinaryOp.add.isArithmetic := rfl
  exact (compound_reads_late hop "x" length token token token token 2 m).2.2
    (Option.isSome_iff_exists.mpr ⟨_, hvalue⟩) hcallees

open Exec in
/-- The two forms part where a function assigns the target: behind `x = 1`, with a function `f` that
makes `x` ten and returns one, `x += f()` makes `x` eleven and `x = x + f()` makes it two. -/
theorem compound_reads_late_assigned : ¬ ∀ (p : Program) (fuel : Nat) (m : Machine),
    block (exec fuel) p ((Machine.initial 100 none).pushFrame "global" .global) =
      .ok .normal m →
    ∀ op : BinaryOp, op.isArithmetic → ∀ (target : String) (e : Expr) (token : Token),
      effect (exec (fuel + 2) (.assignment target (.compound op) e token) m) =
        effect (exec (fuel + 3)
          (.assignment target .plain (.binary (.var target token) op e token) token) m) := by
  intro h
  let token : Token := ⟨.mark .colon, ":", .start⟩
  let p : Program := [.declaration ⟨⟨.int, token⟩, [⟨"x", some (.literal (.int 1) token), token⟩]⟩,
    .function ⟨⟨some .int, token⟩, "f", [],
      [.assignment "x" .plain (.literal (.int 10) token) token,
        .returnFrom (some (.literal (.int 1) token)) token], token⟩]
  have hrun : block (exec 10) p ((Machine.initial 100 none).pushFrame "global" .global) =
      .ok .normal (final (block (exec 10) p)
        ((Machine.initial 100 none).pushFrame "global" .global)) := rfl
  have heffect := h p 10 _ hrun .add rfl "x" (.call "f" [] false token) token
  have hbindings := congrArg (fun r => r.2.bindings.map (· "x")) heffect
  revert hbindings
  decide +kernel

end ScopedScript
