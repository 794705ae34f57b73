import ScopedScript.Proofs.Run.Links
import ScopedScript.Proofs.Run.Safety.Expressions

/-!
# Statements on ready stacks

The execution of a statement that follows the rules takes a ready stack to one that is ready for
what follows. Blocks run in frames of their own, whose zone is the text of the block; a call runs in
a frame that links to where its function was declared, and there finds the environment in which the
function follows the rules.

The rounds of a `for` loop share a frame. A later round begins with the functions that earlier ones
have left.
-/

namespace ScopedScript

/-! ## Frames -/

namespace Exec

section Frames

variable {α : Type} {rules : Rules} {allows : Halt → Prop} {env : Env} {zone : Zone} {m : Machine}
  {x : Exec α} (body : List Statement)

/-- What runs in a new frame, which links to frames that hold an environment. -/
theorem bracket_yields {enter leave : Machine → Machine} {name : String} {kind : FrameKind}
    {outer : Option Nat} (henter : (enter m).stack = m.stack.pushLinked name kind outer)
    (hleave : ∀ after, (leave after).stack = after.stack.pop) (hsound : m.stack.Sound rules)
    (hholds : m.stack.Holds outer env)
    (hx : ∀ m' : Machine, m'.stack.Ready rules env (.start body) →
      Yields allows x m' fun _ after => ∃ zone, m'.stack.Reached rules env zone after.stack) :
    Yields allows (bracket enter leave x) m fun _ after => m.stack.Kept rules after.stack := by
  have hready := hsound.enter hholds name kind body
  rw [← henter] at hready
  refine ((hx (enter m) hready).imp ?_).bracket
  rintro _ after ⟨zone, hgrows, hlast⟩
  rw [henter] at hgrows
  rw [hleave]
  exact .leave hgrows hlast.sound.typed

theorem inFrame_yields (hready : m.stack.Ready rules env zone) (name : String) (kind : FrameKind)
    (hx : ∀ m' : Machine, m'.stack.Ready rules (zone :: env) (.start body) →
      Yields allows x m' fun _ after =>
        ∃ zone', m'.stack.Reached rules (zone :: env) zone' after.stack) :
    Yields allows (inFrame name kind x) m fun _ after => m.stack.Kept rules after.stack :=
  bracket_yields body (m.pushFrame_stack name kind) Machine.popFrame_stack hready.sound
    hready.holds hx

theorem inCall_yields (hsound : m.stack.Sound rules) (name : String) {outer : Nat}
    (hholds : m.stack.Holds (some outer) env)
    (hx : ∀ m' : Machine, m'.stack.Ready rules env (.start body) →
      Yields allows x m' fun _ after => ∃ zone, m'.stack.Reached rules env zone after.stack) :
    Yields allows (inCall name outer x) m fun _ after => m.stack.Kept rules after.stack :=
  bracket_yields body (m.pushCall_stack name outer) Machine.popCall_stack hsound hholds hx

end Frames

/-! ## Statements -/

section Statements

/-- Execution of a statement that follows the rules, on a ready stack. -/
def Executes (rules : Rules) (allows : Halt → Prop) (exec : Statement → Exec Flow) : Prop :=
  ∀ (s : Statement) (env : Env) (zone : Zone) (m : Machine), m.stack.Ready rules env zone →
    s.follows rules env zone → (∀ entry ∈ functionsOf [s], entry ∈ zone.all) →
      Yields allows (exec s) m fun _ after => m.stack.Reached rules env (zone.after s) after.stack

variable {rules : Rules} {allows : Halt → Prop} {exec : Statement → Exec Flow} {env : Env}
  {zone : Zone} {m : Machine}

theorem block_yields (hexec : Executes rules allows exec) {body : List Statement}
    (hready : m.stack.Ready rules env zone) (hbody : Statement.followsList rules env zone body)
    (hall : ∀ entry ∈ functionsOf body, entry ∈ zone.all) :
    Yields allows (block exec body) m fun _ after =>
      ∃ zone', zone'.all = zone.all ∧ m.stack.Reached rules env zone' after.stack := by
  induction body generalizing m zone with
  | nil => exact .pure ⟨zone, rfl, hready.reach (.refl hready.sound.typed)⟩
  | cons s body ih =>
    obtain ⟨hs, hbody⟩ := Bool.and_eq_true_iff.mp hbody
    rw [functionsOf_cons, List.forall_mem_append] at hall
    refine (hexec s env zone m hready hs hall.1).bind ?_
    intro flow after hreached
    cases flow with
    | normal =>
      have hall' : ∀ entry ∈ functionsOf body, entry ∈ (zone.after s).all := by
        rw [Zone.after_all]
        exact hall.2
      refine (ih hreached.ready hbody hall').imp ?_
      rintro _ last ⟨zone', hzone', hreached'⟩
      exact ⟨zone', hzone'.trans (zone.after_all s), hreached.trans hreached'⟩
    | _ => exact .pure ⟨zone.after s, zone.after_all s, hreached⟩

/-- A piece of text in a new frame. -/
theorem blockInFrame_yields (hexec : Executes rules allows exec) {body : List Statement}
    (hready : m.stack.Ready rules env zone)
    (hbody : Statement.followsList rules (zone :: env) (.start body) body) (name : String)
    (kind : FrameKind) :
    Yields allows (inFrame name kind (block exec body)) m
      fun _ after => m.stack.Kept rules after.stack := by
  refine inFrame_yields body hready name kind ?_
  intro m' hready'
  refine (block_yields hexec hready' hbody fun _ hentry => hentry).imp ?_
  rintro _ after ⟨zone', _, hreached⟩
  exact ⟨zone', hreached⟩

theorem forRounds_yields (hlenient : Lenient allows) (hexec : Executes rules allows exec)
    {body : List Statement} {d : Declarator} {type : Ty}
    (hready : m.stack.Ready rules env (.round body))
    (hbody : Statement.followsList rules env ((Zone.round body).declare d.name type) body)
    (count : Nat) (visited : Sequence) :
    Yields allows (forRounds exec d type body count visited) m fun _ after =>
      m.stack.Reached rules env (.round body) after.stack := by
  have hstay : m.stack.Reached rules env (.round body) m.stack :=
    hready.reach (.refl hready.sound.typed)
  induction count generalizing m visited with
  | zero => exact .pure hstay
  | succ count ih =>
    unfold forRounds
    cases visited.next? with
    | none => exact .pure hstay
    | some found =>
      refine fitted_yields hlenient hready ?_
      intro after hbound
      refine (block_yields hexec hbound.ready hbody fun _ hentry => hentry).bind ?_
      rintro flow last ⟨zone', hall, hlast⟩
      -- Whatever the round declared, the next one begins with a frame that can hold it.
      have hround : after.stack.Reached rules env (.round body) last.stack :=
        ⟨hlast.grows, hlast.ready.anew hall⟩
      have hreached := hbound.trans hround
      have hnext : Yields allows (forRounds exec d type body count found.2) last fun _ after =>
          m.stack.Reached rules env (.round body) after.stack :=
        (ih hround.ready found.2 (hround.ready.reach (.refl hround.ready.sound.typed))).imp
          fun _ _ => hreached.trans
      cases flow with
      | normal => exact hnext
      | continued => exact hnext
      | broken => exact .pure hreached
      | returned v => exact .pure hreached

variable {eval : Expr → Exec (Option Value)} (hlenient : Lenient allows)
  (heval : Evaluates rules allows eval) (hexec : Executes rules allows exec)
  (hready : m.stack.Ready rules env zone)

include hlenient heval hexec hready

theorem alternative_yields {otherwise : Alternative}
    (hotherwise : otherwise.follows rules (zone :: env)) :
    Yields allows (alternative eval exec otherwise) m
      fun _ after => m.stack.Kept rules after.stack := by
  induction otherwise using alternative.induct generalizing m with
  | case1 => exact .pure (.refl hready.sound.typed)
  | case2 e body rest ih =>
    simp only [Alternative.follows, Bool.and_eq_true] at hotherwise
    obtain ⟨he, hbody, hrest⟩ := hotherwise
    refine (condition_yields hlenient heval hready he).bind ?_
    intro b after hkept
    have hready' := hready.keep hkept
    cases b with
    | true =>
      exact (blockInFrame_yields hexec hready' hbody "elseif" .conditional).imp
        fun _ _ => hkept.trans
    | false => exact (ih hready' hrest).imp fun _ _ => hkept.trans
  | case3 body =>
    simp only [Alternative.follows] at hotherwise
    exact blockInFrame_yields hexec hready hotherwise "else" .conditional

theorem whileRounds_yields {e : Expr} {body : List Statement} (he : e.follows rules (zone :: env))
    (hbody : Statement.followsList rules (zone :: env) (.start body) body) (fuel : Nat) :
    Yields allows (whileRounds eval exec e body fuel) m
      fun _ after => m.stack.Kept rules after.stack := by
  induction fuel generalizing m with
  | zero => exact hlenient.exhausted
  | succ fuel ih =>
    refine (condition_yields hlenient heval hready he).bind ?_
    intro b after hkept
    have hready' := hready.keep hkept
    cases b with
    | false => exact .pure hkept
    | true =>
      refine (blockInFrame_yields hexec hready' hbody "while" .whileRound).bind ?_
      intro flow last hround
      have hkept' := hkept.trans hround
      have hnext : Yields allows (whileRounds eval exec e body fuel) last
          fun _ after => m.stack.Kept rules after.stack :=
        (ih (hready.keep hkept')).imp fun _ _ => hkept'.trans
      cases flow with
      | normal => exact hnext
      | continued => exact hnext
      | broken => exact .pure hkept'
      | returned v => exact .pure hkept'

theorem forLoop_yields (hnaming : rules.Naming) {loopVariable : VarDecl} {iterable : Expr}
    {body : List Statement} (hiterable : iterable.follows rules (zone :: env))
    (hloop : rules.loop loopVariable)
    (hbody : Statement.followsList rules (zone :: env)
      ((Zone.round body).declareAll loopVariable.declared.type loopVariable.declarators) body)
    (position : Position) :
    Yields allows (forLoop eval exec loopVariable iterable body position) m
      fun _ after => m.stack.Kept rules after.stack := by
  have hsingle : loopVariable.declarators.length = 1 :=
    of_decide_eq_true (hnaming.loop loopVariable hloop)
  obtain ⟨d, hd⟩ := List.length_eq_one_iff.mp hsingle
  simp only [hd, Zone.declareAll] at hbody
  simp only [forLoop, hd]
  refine (sequence_yields hlenient heval hready hiterable).bind ?_
  intro visited after hkept
  refine (inFrame_yields body (hready.keep hkept) "for" .forLoop ?_).imp fun _ _ => hkept.trans
  intro m' hready'
  refine (forRounds_yields hlenient hexec (hready'.anew rfl) hbody _ visited).imp ?_
  intro _ last hreached
  exact ⟨_, hreached⟩

/-- The rule of a statement takes ready stacks to stacks that are ready for what follows. -/
theorem execStep_yields (hnaming : rules.Naming) {s : Statement} (hs : s.follows rules env zone)
    (hall : ∀ entry ∈ functionsOf [s], entry ∈ zone.all) (fuel : Nat)
    (hunbound : ∀ target op e token v after type, s = .assignment target (.compound op) e token →
      value eval e m = .ok v after → after.stack.get? target = some ⟨some type, none⟩ →
        ¬ rules.Valued → allows (.fault ⟨.unboundVariable target, token.position⟩)) :
    Yields allows (execStep eval exec fuel s) m fun _ after =>
      m.stack.Reached rules env (zone.after s) after.stack := by
  have hstay : m.stack.Reached rules env zone m.stack := hready.reach (.refl hready.sound.typed)
  cases s with
  | empty => exact .pure hstay
  | declaration decl =>
    refine (declarators_yields hlenient heval hready hs).bind ?_
    intro _ after hreached
    exact .pure hreached
  | assignment target op e token =>
    obtain ⟨he, htarget⟩ := Bool.and_eq_true_iff.mp hs
    refine (assign_yields hlenient heval hready hnaming he htarget ?_).bind ?_
    · rintro op' v after type rfl
      exact hunbound target op' e token v after type rfl
    · intro _ after hkept
      exact .pure (hready.reach hkept)
  | conditional e body otherwise token =>
    simp only [Statement.follows, Bool.and_eq_true] at hs
    obtain ⟨he, hbody, hotherwise⟩ := hs
    refine (condition_yields hlenient heval hready he).bind ?_
    intro b after hkept
    have hready' := hready.keep hkept
    cases b with
    | true =>
      exact (blockInFrame_yields hexec hready' hbody "if" .conditional).imp
        fun _ _ hkept' => hready.reach (hkept.trans hkept')
    | false =>
      exact (alternative_yields hlenient heval hexec hready' hotherwise).imp
        fun _ _ hkept' => hready.reach (hkept.trans hkept')
  | whileLoop e body token =>
    simp only [Statement.follows, Bool.and_eq_true] at hs
    exact (whileRounds_yields hlenient heval hexec hready hs.1 hs.2 fuel).imp
      fun _ _ => hready.reach
  | forLoop loopVariable iterable body token =>
    simp only [Statement.follows, Bool.and_eq_true] at hs
    obtain ⟨hiterable, hloop, hbody⟩ := hs
    exact (forLoop_yields hlenient heval hexec hready hnaming hiterable hloop hbody _).imp
      fun _ _ => hready.reach
  | breakLoop token => exact .pure hstay
  | continueLoop token => exact .pure hstay
  | returnFrom e token =>
    cases e with
    | none => exact .pure hstay
    | some e =>
      refine (value_yields hlenient heval hready hs).bind ?_
      intro v after hkept
      exact .pure (hready.reach hkept)
  | function decl =>
    simp only [Statement.follows] at hs
    exact ⟨Stack.declareFunction_extends decl,
      hready.declareFunction (hall _ (List.mem_singleton_self _)) hs⟩
  | expression e =>
    simp only [execStep, discard_eq, bind_assoc, pure_bind]
    refine (heval e env zone m hready hs).bind ?_
    intro _ after hkept
    exact .pure (hready.reach hkept)

/-! ### Calls -/

omit heval hexec hready in
theorem result_yields (decl : FunctionDecl) (position : Position) (flow : Flow) :
    Yields allows (result decl position flow) m fun _ after => after = m := by
  unfold result
  split
  · exact .pure rfl
  · refine (hlenient.coerce _ _ _ _).bind ?_
    rintro v _ rfl
    exact .pure rfl
  · exact hlenient.fail position rfl

omit hready in
/-- What runs in the frame of a call, which sees what the function closes over. -/
theorem inside_yields {decl : FunctionDecl} (hdecl : decl.follows rules env)
    (hready : m.stack.Ready rules env (.start decl.body)) (arguments : List Value)
    (position : Position) :
    Yields allows (inside eval exec decl arguments position) m fun _ after =>
      ∃ zone, m.stack.Reached rules env zone after.stack := by
  obtain ⟨name, returns, params, body, token⟩ := decl
  simp only [FunctionDecl.follows, Bool.and_eq_true] at hdecl
  refine (parameters_yields hlenient heval hready hdecl.1 arguments position).bind ?_
  intro _ after hreached
  have hall : ∀ entry ∈ functionsOf body, entry ∈ ((Zone.start body).declareParams params).all := by
    rw [Zone.declareParams_all]
    exact fun _ hentry => hentry
  refine (block_yields hexec hreached.ready hdecl.2 hall).bind ?_
  rintro flow last ⟨zone', _, hreached'⟩
  refine (result_yields hlenient _ position flow).imp ?_
  rintro _ _ rfl
  exact ⟨zone', hreached.trans hreached'⟩

theorem callFunction_yields {decl : FunctionDecl} {outer : Nat}
    (hcloses : m.stack.Closes rules [] outer decl) (arguments : List Value) (position : Position)
    (hcount : decl.arity.accepts arguments.length = false →
      allows (.fault ⟨.argumentCount decl.name decl.arity arguments.length, position⟩)) :
    Yields allows (callFunction eval exec decl outer arguments position) m
      fun _ after => m.stack.Kept rules after.stack := by
  obtain ⟨zone', env', hholds, _, hdecl⟩ := hcloses
  have hcall : Yields allows (inCall decl.name outer (inside eval exec decl arguments position)) m
      fun _ after => m.stack.Kept rules after.stack := by
    refine inCall_yields decl.body hready.sound decl.name hholds ?_
    intro m' hready'
    exact inside_yields hlenient heval hexec hdecl hready' arguments position
  unfold Yields at hcall ⊢
  rw [callFunction_apply]
  by_cases haccepts : decl.arity.accepts arguments.length
  · rw [if_pos haccepts]
    by_cases hdepth : m.maxCallDepth ≤ m.callDepth
    · rw [if_pos hdepth]
      exact hlenient.plain _ position rfl
    · rw [if_neg hdepth]
      exact hcall
  · rw [if_neg haccepts]
    exact hcount (Bool.eq_false_iff.mpr haccepts)

end Statements

/-- A call of a built-in function. -/
theorem builtin_yields {allows : Halt → Prop} {m : Machine} (hlenient : Lenient allows)
    (b : Builtin) (arguments : List Value) (position : Position)
    (hcount : b.arity.accepts arguments.length = false →
      allows (.fault ⟨.argumentCount b.name b.arity arguments.length, position⟩)) :
    Yields allows (b.call arguments position) m fun _ after => after.stack = m.stack := by
  have hlocated : ∀ {α : Type} {outcome : Outcome α} (f : α → Option Value), outcome.Plain →
      Yields allows (located position outcome >>= fun a => pure (f a)) m
        fun _ after => after.stack = m.stack := by
    intro α outcome f hplain
    refine (hlenient.located hplain position).bind ?_
    rintro a _ rfl
    exact .pure rfl
  match b, arguments with
  | .print, arguments =>
    refine (hlenient.write (Builtin.line arguments) position).bind ?_
    intro _ after hafter
    exact .pure hafter
  | .assert, [v] => exact hlocated (fun _ => none) (Builtin.assertion_plain v)
  | .len, [v] => exact hlocated some (Builtin.length_plain v)
  | .str, [v] => exact .pure rfl
  | .int, [v] => exact hlocated (some ∘ .int) v.toInteger_plain
  | .float, [v] => exact hlocated (some ∘ .float) v.toFloat_plain
  | .assert, [] | .len, [] | .str, [] | .int, [] | .float, [] => exact hcount rfl
  | .assert, _ :: _ :: _ | .len, _ :: _ :: _ | .str, _ :: _ :: _ | .int, _ :: _ :: _
  | .float, _ :: _ :: _ =>
    refine hcount ?_
    simp [Builtin.arity, Arity.accepts, Arity.exactly]

end Exec

end ScopedScript
