import ScopedScript.Proofs.Run.Outcome
import ScopedScript.Proofs.Run.Readiness

/-!
# Expressions on ready stacks

The evaluation of an expression that follows the rules leaves a ready stack as it was, up to new
values: each rule does so, given that its parts do. Names that are used are found, and the only
fault about a name that is left is that of a variable that has no value yet.
-/

namespace ScopedScript

namespace Exec

/-! ## Names -/

section Names

variable {rules : Rules} {allows : Halt → Prop} {env : Env} {zone : Zone} {m : Machine}
  {name : String}

theorem bound_of_named (hready : m.stack.Ready rules env zone)
    (hname : Rules.named.use (zone :: env) name) : (m.stack.get? name).isSome := by
  obtain ⟨kind, hlookup, hkind⟩ := (Option.any_eq_true _ _).mp hname
  cases kind with
  | var type => exact hready.holds.get?_isSome hlookup
  | _ => cases hkind

theorem load_yields (hready : m.stack.Ready rules env zone)
    (hname : Rules.named.use (zone :: env) name) {position : Position}
    (hunbound : ∀ type, m.stack.get? name = some ⟨some type, none⟩ → ¬ rules.Valued →
      allows (.fault ⟨.unboundVariable name, position⟩)) :
    Yields allows (load name position) m fun _ after => after = m := by
  obtain ⟨⟨type, value⟩, hget⟩ := Option.isSome_iff_exists.mp (bound_of_named hready hname)
  obtain ⟨htype, hvalued⟩ := hready.sound.typed.get? hget
  obtain ⟨type, rfl⟩ := Option.isSome_iff_exists.mp htype
  refine Yields.look ?_
  simp only [hget, Option.bind_some]
  cases value with
  | some v => exact .pure rfl
  | none =>
    refine .fail (hunbound type hget ?_)
    intro hrules
    exact Bool.noConfusion (hvalued hrules)

theorem store_yields (hlenient : Lenient allows) (hready : m.stack.Ready rules env zone)
    (hname : Rules.named.use (zone :: env) name) (v : Value) (position : Position) :
    Yields allows (store name v position) m fun _ after => m.stack.Kept rules after.stack := by
  have hbound := bound_of_named hready hname
  obtain ⟨⟨type, value⟩, hget⟩ := Option.isSome_iff_exists.mp hbound
  obtain ⟨htype, _⟩ := hready.sound.typed.get? hget
  obtain ⟨type, rfl⟩ := Option.isSome_iff_exists.mp htype
  refine Yields.look ?_
  simp only [hget, Option.bind_some]
  refine (hlenient.coerce name type v position).bind ?_
  rintro v _ rfl
  exact Stack.Kept.set hready.sound.typed hbound v

theorem declare_yields (hready : m.stack.Ready rules env zone) (name : String) (type : Ty)
    {v : Option Value} (hvalue : rules.Valued → v.isSome) :
    Yields allows (declare name type v) m fun _ after =>
      m.stack.Reached rules env (zone.declare name type) after.stack :=
  ⟨(Stack.declare_keeps name (some type) v).extends, hready.declare name type hvalue⟩

/-- A variable is bound to a value that is made to fit its type, and the run goes on. -/
theorem fitted_yields {α : Type} (hlenient : Lenient allows) (hready : m.stack.Ready rules env zone)
    {type : Ty} {v : Value} {position : Position} {next : Unit → Exec α}
    {post : α → Machine → Prop}
    (hnext : ∀ after, m.stack.Reached rules env (zone.declare name type) after.stack →
      Yields allows (next ()) after post) :
    Yields allows
      (coerce name type v position >>= fun v => declare name type (some v) >>= next) m post := by
  refine (hlenient.coerce name type v position).bind ?_
  rintro v' _ rfl
  refine (declare_yields hready name type fun _ => rfl).bind ?_
  intro _ after hreached
  exact hnext after hreached

end Names

/-! ## Expressions -/

section Expressions

/-- Evaluation of an expression that follows the rules, on a ready stack. -/
def Evaluates (rules : Rules) (allows : Halt → Prop) (eval : Expr → Exec (Option Value)) : Prop :=
  ∀ (e : Expr) (env : Env) (zone : Zone) (m : Machine), m.stack.Ready rules env zone →
    e.follows rules (zone :: env) →
      Yields allows (eval e) m fun _ after => m.stack.Kept rules after.stack

/-- A call that follows the rules, on a ready stack. -/
def Calls (rules : Rules) (allows : Halt → Prop)
    (call : String → List Value → Position → Exec (Option Value)) : Prop :=
  ∀ (name : String) (arguments : List Value) (position : Position) (env : Env) (zone : Zone)
    (m : Machine), m.stack.Ready rules env zone →
    rules.call (zone :: env) name arguments.length →
      Yields allows (call name arguments position) m fun _ after => m.stack.Kept rules after.stack

variable {rules : Rules} {allows : Halt → Prop} {eval : Expr → Exec (Option Value)} {env : Env}
  {zone : Zone} {m : Machine} (hlenient : Lenient allows) (heval : Evaluates rules allows eval)
  (hready : m.stack.Ready rules env zone)

include hlenient heval hready

theorem value_yields {e : Expr} (he : e.follows rules (zone :: env)) :
    Yields allows (value eval e) m fun _ after => m.stack.Kept rules after.stack := by
  refine (heval e env zone m hready he).bind ?_
  intro v after hkept
  cases v with
  | some v => exact .pure hkept
  | none => exact hlenient.fail e.position rfl

theorem values_yields {es : List Expr} (hes : Expr.followsList rules (zone :: env) es) :
    Yields allows (values eval es) m fun vs after =>
      m.stack.Kept rules after.stack ∧ vs.length = es.length := by
  induction es generalizing m with
  | nil => exact .pure ⟨.refl hready.sound.typed, rfl⟩
  | cons e es ih =>
    obtain ⟨he, hes⟩ := Bool.and_eq_true_iff.mp hes
    refine (value_yields hlenient heval hready he).bind ?_
    intro v after hkept
    refine (ih (hready.keep hkept) hes).bind ?_
    rintro vs last ⟨hkept', hlength⟩
    exact .pure ⟨hkept.trans hkept', congrArg (· + 1) hlength⟩

/-- A value that is looked at once more, as an operation without faults about names does. -/
theorem located_yields {α : Type} {e : Expr} (he : e.follows rules (zone :: env))
    {look : Value → Outcome α} (hlook : ∀ v, (look v).Plain) (position : Position) :
    Yields allows (value eval e >>= fun v => located position (look v)) m
      fun _ after => m.stack.Kept rules after.stack := by
  refine (value_yields hlenient heval hready he).bind ?_
  intro v after hkept
  refine (hlenient.located (hlook v) position).imp ?_
  rintro _ _ rfl
  exact hkept

theorem condition_yields {e : Expr} (he : e.follows rules (zone :: env)) :
    Yields allows (condition eval e) m fun _ after => m.stack.Kept rules after.stack :=
  located_yields hlenient heval hready he (Value.asBool_plain _) e.position

theorem integer_yields {e : Expr} (he : e.follows rules (zone :: env)) (role : String) :
    Yields allows (integer eval role e) m fun _ after => m.stack.Kept rules after.stack :=
  located_yields hlenient heval hready he (Value.asInteger_plain role) e.position

theorem base_yields {e : Expr} (he : e.follows rules (zone :: env)) (position : Position) :
    Yields allows (base eval e position) m fun _ after => m.stack.Kept rules after.stack := by
  refine (value_yields hlenient heval hready he).bind ?_
  intro v after hkept
  cases v with
  | str s => exact .pure hkept
  | _ => exact hlenient.fail position rfl

theorem binary_yields {left right : Expr} (hleft : left.follows rules (zone :: env))
    (hright : right.follows rules (zone :: env)) (op : BinaryOp) (position : Position) :
    Yields allows (binary eval left op right position) m
      fun _ after => m.stack.Kept rules after.stack := by
  refine (value_yields hlenient heval hready hleft).bind ?_
  intro l after hkept
  have happly : Yields allows
      (value eval right >>= fun r => located position (op.apply l r)) after
      fun _ last => m.stack.Kept rules last.stack :=
    (located_yields hlenient heval (hready.keep hkept) hright (op.apply_plain l) position).imp
      fun _ _ hkept' => hkept.trans hkept'
  cases op.decisive? with
  | none => exact happly
  | some decisive =>
    refine (hlenient.located (Value.asBool_plain _ l) position).bind ?_
    rintro b _ rfl
    by_cases hb : b = decisive
    · simp only [if_pos hb]
      exact .pure hkept
    · simp only [if_neg hb]
      exact happly

/-- The rule of an expression takes ready stacks to ready stacks. -/
theorem evalStep_yields {call : String → List Value → Position → Exec (Option Value)}
    (hnaming : rules.Naming) (hcall : Calls rules allows call) {e : Expr}
    (he : e.follows rules (zone :: env))
    (hunbound : ∀ name token type, e = .var name token →
      m.stack.get? name = some ⟨some type, none⟩ → ¬ rules.Valued →
        allows (.fault ⟨.unboundVariable name, token.position⟩)) :
    Yields allows (evalStep eval call e) m fun _ after => m.stack.Kept rules after.stack := by
  cases e with
  | literal v token => exact .pure (.refl hready.sound.typed)
  | var name token =>
    have hname := hnaming.use _ name he
    refine (load_yields hready hname fun type => hunbound name token type rfl).bind ?_
    rintro v _ rfl
    exact .pure (.refl hready.sound.typed)
  | unary op operand token =>
    have hoperand : operand.follows rules (zone :: env) := he
    refine (value_yields hlenient heval hready hoperand).bind ?_
    intro v after hkept
    refine (hlenient.located (op.apply_plain v) _).bind ?_
    rintro v' _ rfl
    exact .pure hkept
  | binary left op right token =>
    obtain ⟨hleft, hright⟩ := Bool.and_eq_true_iff.mp he
    refine (binary_yields hlenient heval hready hleft hright op _).bind ?_
    intro v after hkept
    exact .pure hkept
  | call name arguments isStatement token =>
    obtain ⟨hname, harguments⟩ := Bool.and_eq_true_iff.mp he
    refine (values_yields hlenient heval hready harguments).bind ?_
    rintro vs after ⟨hkept, hlength⟩
    rw [← hlength] at hname
    refine (hcall name vs _ env zone after (hready.keep hkept) hname).imp ?_
    intro _ last hkept'
    exact hkept.trans hkept'
  | index e position token =>
    obtain ⟨he, hposition⟩ := Bool.and_eq_true_iff.mp he
    refine (base_yields hlenient heval hready he _).bind ?_
    intro text after hkept
    refine (integer_yields hlenient heval (hready.keep hkept) hposition _).bind ?_
    intro i last hkept'
    refine (hlenient.located (character_plain text i) _).bind ?_
    rintro v _ rfl
    exact .pure (hkept.trans hkept')
  | slice e start stop token =>
    obtain ⟨he, hbounds⟩ := Bool.and_eq_true_iff.mp he
    obtain ⟨hstart, hstop⟩ := Bool.and_eq_true_iff.mp hbounds
    refine (base_yields hlenient heval hready he _).bind ?_
    intro text first hfirst
    refine (integer_yields hlenient heval (hready.keep hfirst) hstart _).bind ?_
    intro i second hsecond
    have hkept := hfirst.trans hsecond
    refine (integer_yields hlenient heval (hready.keep hkept) hstop _).bind ?_
    intro j third hthird
    exact .pure (hkept.trans hthird)
  | range start stop token => exact hlenient.fail _ rfl
  | steppedRange start stop step token => exact hlenient.fail _ rfl

omit heval hready in
theorem progression_yields (start stop step : Int64) (position : Position) :
    Yields allows (progression start stop step position) m fun _ after => after = m := by
  unfold progression
  split
  · exact .pure rfl
  · exact hlenient.fail position rfl

theorem sequence_yields {e : Expr} (he : e.follows rules (zone :: env)) :
    Yields allows (sequence eval e) m fun _ after => m.stack.Kept rules after.stack := by
  cases e with
  | range start stop token =>
    obtain ⟨hstart, hstop⟩ := Bool.and_eq_true_iff.mp he
    refine (integer_yields hlenient heval hready hstart _).bind ?_
    intro i first hfirst
    refine (integer_yields hlenient heval (hready.keep hfirst) hstop _).bind ?_
    intro j second hsecond
    refine (progression_yields hlenient i j 1 _).imp ?_
    rintro _ _ rfl
    exact hfirst.trans hsecond
  | steppedRange start stop step token =>
    obtain ⟨hstart, hbounds⟩ := Bool.and_eq_true_iff.mp he
    obtain ⟨hstop, hstep⟩ := Bool.and_eq_true_iff.mp hbounds
    refine (integer_yields hlenient heval hready hstart _).bind ?_
    intro i first hfirst
    refine (integer_yields hlenient heval (hready.keep hfirst) hstop _).bind ?_
    intro j second hsecond
    have hkept := hfirst.trans hsecond
    refine (integer_yields hlenient heval (hready.keep hkept) hstep _).bind ?_
    intro k third hthird
    refine (progression_yields hlenient i j k _).imp ?_
    rintro _ _ rfl
    exact hkept.trans hthird
  | _ =>
    refine (value_yields hlenient heval hready he).bind ?_
    intro v after hkept
    cases v with
    | str s => exact .pure hkept
    | _ => exact hlenient.fail _ rfl

theorem declarators_yields {type : Ty} {ds : List Declarator}
    (hds : VarDecl.followsFrom rules env type zone ds) :
    Yields allows (declarators eval type ds) m fun _ after =>
      m.stack.Reached rules env (zone.declareAll type ds) after.stack := by
  induction ds generalizing m zone with
  | nil => exact .pure (hready.reach (.refl hready.sound.typed))
  | cons d ds ih =>
    obtain ⟨hd, hds⟩ := Bool.and_eq_true_iff.mp hds
    obtain ⟨hfirst, hds⟩ := Bool.and_eq_true_iff.mp hds
    unfold declarators
    cases hinitializer : d.initializer with
    | none =>
      refine (declare_yields hready d.name type ?_).bind ?_
      · intro hvalued
        have hsome := hvalued d hd
        rw [hinitializer] at hsome
        exact Bool.noConfusion hsome
      · intro _ after hreached
        exact (ih hreached.ready hds).imp fun _ _ => hreached.trans
    | some e =>
      rw [hinitializer] at hfirst
      refine (value_yields hlenient heval hready hfirst).bind ?_
      intro v after hkept
      refine fitted_yields hlenient (hready.keep hkept) ?_
      intro last hreached
      refine (ih hreached.ready hds).imp ?_
      intro _ _ hreached'
      exact ((hready.reach hkept).trans hreached).trans hreached'

theorem assign_yields (hnaming : rules.Naming) {target : String} {e : Expr} {position : Position}
    (he : e.follows rules (zone :: env)) (htarget : rules.use (zone :: env) target)
    {op : AssignOp} (hunbound : ∀ op' v after type, op = .compound op' →
      value eval e m = .ok v after → after.stack.get? target = some ⟨some type, none⟩ →
        ¬ rules.Valued → allows (.fault ⟨.unboundVariable target, position⟩)) :
    Yields allows (assign eval target op e position) m
      fun _ after => m.stack.Kept rules after.stack := by
  have hname := hnaming.use _ target htarget
  refine (value_yields hlenient heval hready he).ended.bind ?_
  rintro v after ⟨hkept, hvalue⟩
  have hready' := hready.keep hkept
  cases op with
  | plain =>
    exact (store_yields hlenient hready' hname v position).imp fun _ _ => hkept.trans
  | compound op' =>
    refine (load_yields hready' hname fun type => hunbound op' v after type rfl hvalue).bind ?_
    rintro old _ rfl
    refine (hlenient.located (op'.apply_plain old v) position).bind ?_
    rintro joined _ rfl
    exact (store_yields hlenient hready' hname joined position).imp fun _ _ => hkept.trans

theorem argument_yields {p : Param} (hp : Expr.followsOption rules (zone :: env) p.fallback)
    (arguments : List Value) (position : Position) :
    Yields allows (argument eval position p arguments) m
      fun _ after => m.stack.Kept rules after.stack := by
  cases arguments with
  | cons v arguments => exact .pure (.refl hready.sound.typed)
  | nil =>
    unfold argument
    cases hfallback : p.fallback with
    | none => exact hlenient.fail position rfl
    | some e =>
      rw [hfallback] at hp
      exact value_yields hlenient heval hready hp

theorem parameters_yields {params : List Param} (hparams : Param.followsFrom rules env zone params)
    (arguments : List Value) (position : Position) :
    Yields allows (parameters eval position params arguments) m fun _ after =>
      m.stack.Reached rules env (zone.declareParams params) after.stack := by
  induction params generalizing m zone arguments with
  | nil => exact .pure (hready.reach (.refl hready.sound.typed))
  | cons p params ih =>
    obtain ⟨hp, hparams⟩ := Bool.and_eq_true_iff.mp hparams
    rw [parameters_cons]
    refine (argument_yields hlenient heval hready hp arguments position).bind ?_
    intro v after hkept
    refine fitted_yields hlenient (hready.keep hkept) ?_
    intro last hreached
    refine (ih hreached.ready hparams arguments.tail).imp ?_
    intro _ _ hreached'
    exact ((hready.reach hkept).trans hreached).trans hreached'

end Expressions

end Exec

end ScopedScript
