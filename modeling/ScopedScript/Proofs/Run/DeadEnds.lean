import ScopedScript.Proofs.Grammar.Shape
import ScopedScript.Proofs.Run.Jumps

/-!
# Rules that no program comes to

Three rules are faults that no source can bring about: that of a range that is evaluated, that of a
`for` loop without a variable, and that of a parameter with neither an argument nor a default. They
are dead ends. To say that no run comes to one, other runs are put in their place: whatever is put
there, the run of a program is the same.

The first two are kept away by the shape of programs. The third is kept away by the check, which
lets no parameter without a default stand behind one with a default: those without come first, and a
call passes at least as many arguments as there are of these. This is so of all functions of a
program, and frames hold no others, so it does not matter which of them a call finds.
-/

namespace ScopedScript

/-- What runs in place of the rules that no program comes to. -/
structure DeadEnds where
  range : Token → Exec (Option Value)
  loop : Position → Exec Flow
  parameter : Param → Position → Exec Value

/-- The dead ends of the language: they are faults. -/
def DeadEnds.plain : DeadEnds where
  range token := Exec.fail (.typeError .bareRange) token.position
  loop position := Exec.fail (.invalidRange .noVariable) position
  parameter _ position := Exec.fail .missingValue position

namespace Exec

/-! ## Runs with other dead ends -/

section Or

variable (ends : DeadEnds)

section Rules

variable (eval : Expr → Exec (Option Value)) (exec : Statement → Exec Flow)

/-- The rule of an expression. -/
def evalStepOr (call : String → List Value → Position → Exec (Option Value)) :
    Expr → Exec (Option Value)
  | .range _ _ token | .steppedRange _ _ _ token => ends.range token
  | e => evalStep eval call e

/-- The rule of a statement. -/
def execStepOr (fuel : Nat) : Statement → Exec Flow
  | .forLoop ⟨_, []⟩ _ _ token => ends.loop token.position
  | s => execStep eval exec fuel s

/-- The value of a parameter: its argument, or its default. -/
def argumentOr (position : Position) (p : Param) : List Value → Exec Value
  | v :: _ => pure v
  | [] => match p.fallback with
    | some e => value eval e
    | none => ends.parameter p position

/-- Binds parameters one after the other. -/
def parametersOr (position : Position) : List Param → List Value → Exec Unit
  | [], _ => return
  | p :: rest, arguments => do
    let v ← argumentOr ends eval position p arguments
    let v ← coerce p.name p.declared.type v p.token.position
    declare p.name p.declared.type (some v)
    parametersOr position rest arguments.tail

/-- A call of a function that was declared in the frame at `outer`. -/
def callFunctionOr (decl : FunctionDecl) (outer : Nat) (arguments : List Value)
    (position : Position) : Exec (Option Value) := do
  unless decl.arity.accepts arguments.length do
    fail (.argumentCount decl.name decl.arity arguments.length) position
  let m ← get
  if m.maxCallDepth ≤ m.callDepth then fail (.recursionLimit m.maxCallDepth) position
  inCall decl.name outer do
    parametersOr ends eval position decl.params arguments
    let flow ← block exec decl.body
    result decl position flow

/-- A call by name. -/
def callOr (name : String) (arguments : List Value) (position : Position) :
    Exec (Option Value) := do
  match (← get).stack.findFunction? name with
  | some (outer, decl) => callFunctionOr ends eval exec decl outer arguments position
  | none => call eval exec name arguments position

end Rules

mutual

/-- The value of an expression, if it has one. -/
def evalOr (fuel : Nat) (e : Expr) : Exec (Option Value) :=
  match fuel with
  | 0 => exhausted
  | fuel + 1 =>
    evalStepOr ends (evalOr fuel) (callOr ends (evalOr fuel) (execOr fuel)) e

/-- The execution of a statement. -/
def execOr (fuel : Nat) (s : Statement) : Exec Flow :=
  match fuel with
  | 0 => exhausted
  | fuel + 1 => execStepOr ends (evalOr fuel) (execOr fuel) fuel s

end

/-- A whole program, in a frame of its own. -/
def programOr (fuel : Nat) (p : Program) : Exec Unit := programBy (execOr ends fuel) p

end Or

/-! ## Where dead ends do not matter -/

section Rules

variable {ends : DeadEnds} {eval : Expr → Exec (Option Value)} {exec : Statement → Exec Flow}

theorem evalStepOr_eq (call : String → List Value → Position → Exec (Option Value)) {e : Expr}
    (h : e.isRange = false) : evalStepOr ends eval call e = evalStep eval call e := by
  cases e with
  | range | steppedRange => cases h
  | _ => rfl

theorem execStepOr_eq (fuel : Nat) {s : Statement} (h : s.Shaped) :
    execStepOr ends eval exec fuel s = execStep eval exec fuel s := by
  cases s with
  | forLoop loopVariable iterable body token =>
    obtain ⟨declared, declarators⟩ := loopVariable
    obtain ⟨d, hd, -⟩ := h
    cases hd
    rfl
  | _ => rfl

/-- Parameters are bound in the same way if those that are left out are at no dead end of another
kind. -/
theorem parametersOr_eq {position : Position} {params : List Param} {arguments : List Value}
    (h : ∀ p ∈ params.drop arguments.length, p.fallback = none →
      ends.parameter p position = fail .missingValue position) :
    parametersOr ends eval position params arguments =
      parameters eval position params arguments := by
  induction params generalizing arguments with
  | nil => rfl
  | cons p params ih =>
    rw [parametersOr, parameters_cons]
    cases arguments with
    | cons v arguments => rw [List.tail_cons, ih h, argumentOr, argument]
    | nil =>
      rw [List.length_nil, List.drop_zero, List.forall_mem_cons] at h
      have hrest : parametersOr ends eval position params [] = parameters eval position params [] :=
        ih h.2
      rw [List.tail_nil, hrest, argumentOr, argument]
      cases hfallback : p.fallback with
      | some e => rfl
      | none =>
        simp only
        rw [h.1 hfallback]

/-- So is what follows in a call; and a call that passes too few arguments, or too many, gets to no
parameter. -/
theorem callFunctionOr_apply {decl : FunctionDecl} {arguments : List Value} {position : Position}
    (h : decl.arity.accepts arguments.length → ∀ p ∈ decl.params.drop arguments.length,
      p.fallback = none → ends.parameter p position = fail .missingValue position) (outer : Nat)
    (m : Machine) :
    callFunctionOr ends eval exec decl outer arguments position m =
      callFunction eval exec decl outer arguments position m := by
  by_cases haccepts : decl.arity.accepts arguments.length
  · rw [callFunctionOr, parametersOr_eq (h haccepts), callFunction]
  · rw [callFunction_apply, if_neg haccepts, callFunctionOr]
    split
    · contradiction
    · rfl

theorem callOr_apply {name : String} {arguments : List Value} {position : Position} {m : Machine}
    (h : ∀ outer decl, m.stack.findFunction? name = some (outer, decl) →
      decl.arity.accepts arguments.length → ∀ p ∈ decl.params.drop arguments.length,
        p.fallback = none → ends.parameter p position = fail .missingValue position) :
    callOr ends eval exec name arguments position m =
      call eval exec name arguments position m := by
  unfold callOr
  simp only [bind_apply, get_apply]
  cases hfound : m.stack.findFunction? name with
  | none => rfl
  | some found =>
    rw [call_of_function hfound]
    exact callFunctionOr_apply (h found.1 found.2 hfound) found.1 m

end Rules

/-- With the dead ends of the language these are its runs. -/
theorem or_plain (fuel : Nat) :
    evalOr .plain fuel = eval fuel ∧ execOr .plain fuel = exec fuel := by
  induction fuel with
  | zero => exact ⟨rfl, rfl⟩
  | succ fuel ih =>
    obtain ⟨heval, hexec⟩ := ih
    have hcall : callOr .plain (eval fuel) (exec fuel) = call (eval fuel) (exec fuel) := by
      funext name arguments position m
      exact callOr_apply fun _ _ _ _ _ _ _ => rfl
    constructor
    · funext e
      rw [evalOr, heval, hexec, hcall, eval_succ]
      cases e <;> rfl
    · funext s
      rw [execOr, heval, hexec, exec_succ]
      cases s with
      | forLoop loopVariable iterable body token =>
        obtain ⟨declared, declarators⟩ := loopVariable
        cases declarators <;> rfl
      | _ => rfl

theorem programOr_plain (fuel : Nat) (p : Program) :
    programOr .plain fuel p = program fuel p := by
  rw [programOr, (or_plain fuel).2, program]

end Exec

/-! ## Parameters that are left out -/

/-- Where parameters without a default come first, all that are left out have one, if there are
arguments for those without. -/
theorem isSome_fallback_of_drop {params : List Param} {count : Nat}
    (hfirst : params.Pairwise fun p q => p.fallback.isSome → q.fallback.isSome)
    (hcount : (params.filter (·.fallback.isNone)).length ≤ count) :
    ∀ p ∈ params.drop count, p.fallback.isSome := by
  induction params generalizing count with
  | nil => simp
  | cons p params ih =>
    rw [List.pairwise_cons] at hfirst
    cases hfallback : p.fallback with
    | some e =>
      have hall : ∀ q ∈ p :: params, q.fallback.isSome :=
        List.forall_mem_cons.mpr ⟨by rw [hfallback]; rfl,
          fun q hq => hfirst.1 q hq (by rw [hfallback]; rfl)⟩
      exact fun q hq => hall q (List.mem_of_mem_drop hq)
    | none =>
      rw [List.filter_cons_of_pos (by rw [hfallback]; rfl), List.length_cons] at hcount
      obtain ⟨count, rfl⟩ : ∃ less, count = less + 1 := ⟨count - 1, by omega⟩
      exact ih hfirst.2 (by omega)

/-- A call of a function that is accepted leaves out only parameters that have a default. -/
theorem FunctionDecl.isSome_fallback_of_accepts {decl : FunctionDecl} {count : Nat}
    (hfirst : Check.requiredAfterDefault? decl.params = none)
    (haccepts : decl.arity.accepts count) :
    ∀ p ∈ decl.params.drop count, p.fallback.isSome := by
  have hcount := (Bool.and_eq_true_iff.mp haccepts).1
  exact isSome_fallback_of_drop (Check.requiredAfterDefault?_eq_none_iff.mp hfirst)
    (of_decide_eq_true hcount)

/-! ## Programs -/

/-- A program has no use for dead ends: it is shaped as sources are, and its functions ask for their
arguments before they have defaults. -/
structure Program.Through (p : Program) : Prop where
  shaped : ∀ site s, p.Contains site s → s.Shaped
  admits : ∀ role e, p.Mentions role e → role.Admits e
  first : ∀ decl, p.Declares decl → Check.requiredAfterDefault? decl.params = none

namespace Exec

open Regime

/-- Expressions and statements of a program are run alike with so much fuel, in all frames that hold
no functions but those of the program. Ranges are left out: they are not evaluated. -/
def AlikeFor (p : Program) (ends : DeadEnds) (limit fuel : Nat) : Prop := ∀ kinds calls,
  (∀ role e, p.Mentions role e → e.isRange = false →
    (owned p limit).Keeps kinds calls (evalOr ends fuel e) (eval fuel e)) ∧
  ∀ site s, p.Contains site s →
    (owned p limit).Keeps kinds calls (execOr ends fuel s) (exec fuel s)

section Through

variable {p : Program} (hp : p.Through) {ends : DeadEnds} {limit : Nat} {kinds : List FrameKind}
  {calls : Nat}

include hp

/-- A call of a function of the program gets to no dead end. -/
theorem keeps_callOr {eval : Expr → Exec (Option Value)} {exec : Statement → Exec Flow}
    {name : String} {arguments : List Value} {position : Position} {y : Exec (Option Value)}
    (h : (owned p limit).Keeps kinds calls (call eval exec name arguments position) y) :
    (owned p limit).Keeps kinds calls (callOr ends eval exec name arguments position) y := by
  intro m hm
  rw [callOr_apply]
  · exact h m hm
  · intro outer decl hfound haccepts param hparam hnone
    have hdecl : p.Declares decl := hm.functions.findFunction? hfound
    have hsome := decl.isSome_fallback_of_accepts (hp.first decl hdecl) haccepts param hparam
    rw [hnone] at hsome
    cases hsome

/-- So are the parts of an expression, none of which is a range. -/
theorem AlikeFor.parts {fuel : Nat} (h : AlikeFor p ends limit fuel) {role : Role} {e : Expr}
    (he : p.Mentions role e) : ∀ part ∈ e.parts,
      (owned p limit).Keeps kinds calls (evalOr ends fuel part) (eval fuel part) := by
  intro part hpart
  exact (h kinds calls).1 .inner part (.part he hpart) ((hp.admits _ _ he).parts part hpart).isRange

section Step

variable {fuel : Nat} (h : AlikeFor p ends limit fuel)

include h

theorem keeps_evalOr {role : Role} {e : Expr} (he : p.Mentions role e)
    (hrange : e.isRange = false) :
    (owned p limit).Keeps kinds calls (evalOr ends (fuel + 1) e) (eval (fuel + 1) e) := by
  rw [evalOr, evalStepOr_eq _ hrange]
  refine evalStep_keep (keeps_operates _ _ _).evaluation keeps_load ?_
    fun part hpart => AlikeFor.parts hp h he part hpart
  intro name arguments position
  refine keeps_callOr hp (keeps_call (fun _ _ _ _ => trivial) (fun _ _ => trivial) ?_)
  rintro decl ⟨site, hdecl⟩ _
  obtain ⟨heval, hexec⟩ := h (kinds ++ [.function]) (calls + 1)
  have hdefault : ∀ e ∈ decl.parts, p.Mentions .inner e := fun e he =>
    .statement hdecl (List.mem_map.mpr ⟨e, he, rfl⟩)
  exact inside_keep (keeps_operates _ _ _)
    (fun e he => heval .inner e (hdefault e he)
      (Expr.Sound.isRange (hp.admits _ _ (hdefault e he))))
    (fun s hs => hexec _ s (.body hdecl hs)) arguments position

theorem keeps_execOr {site : Site} {s : Statement} (hs : p.Contains site s) :
    (owned p limit).Keeps kinds calls (execOr ends (fuel + 1) s) (exec (fuel + 1) s) := by
  rw [execOr, execStepOr_eq fuel (hp.shaped site s hs)]
  have hinner : ∀ s' ∈ s.inner, KeepsInside (owned p limit) kinds calls
      (execOr ends fuel s') (exec fuel s') :=
    fun s' hs' kind _ => (h _ _).2 _ s' (.inner hs hs')
  -- What a loop runs over is the one expression that can be a range, and is not evaluated then.
  by_cases hloop : ∃ loopVariable iterable body token,
      s = .forLoop loopVariable iterable body token
  · obtain ⟨loopVariable, iterable, body, token, rfl⟩ := hloop
    have hiterable : p.Mentions .iterable iterable := .statement hs List.mem_cons_self
    exact forLoop_keep (keeps_encloses fun _ _ _ => trivial) loopVariable
      ((h kinds calls).1 .iterable iterable hiterable) (AlikeFor.parts hp h hiterable) hinner
      token.position
  · have hparts : ∀ e ∈ s.parts,
        (owned p limit).Keeps kinds calls (evalOr ends fuel e) (eval fuel e) := by
      intro e he
      obtain ⟨role, hrole, hmem⟩ := Statement.exists_role he
        fun v e body token heq => hloop ⟨v, e, body, token, heq⟩
      have hmentions : p.Mentions role e := .statement hs hmem
      refine (h kinds calls).1 role e hmentions (Bool.eq_false_iff.mpr fun hrange => hrole ?_)
      exact (hp.admits role e hmentions).eq_iterable_of_isRange hrange
    cases hcompound : s.isCompound with
    | true =>
      exact compoundStep_keep (keeps_encloses fun _ _ _ => trivial) fuel hcompound hparts hinner
        fun _ _ _ _ => (keeps_composes (owned_halts p limit) kinds calls).halt _
    | false =>
      refine plainStep_keep (keeps_operates _ _ _) fuel hcompound hparts ?_
      rintro decl rfl
      exact keeps_declareFunction ⟨site, hs⟩

end Step

/-- Expressions and statements of the program are run in the same way, whatever the dead ends are.
-/
theorem alikeFor (ends : DeadEnds) (limit fuel : Nat) : AlikeFor p ends limit fuel := by
  induction fuel with
  | zero =>
    intro kinds calls
    have hcomposes := keeps_composes (owned_halts p limit) kinds calls
    exact ⟨fun _ _ _ _ => hcomposes.halt _, fun _ _ _ => hcomposes.halt _⟩
  | succ fuel ih =>
    exact fun kinds calls => ⟨fun _ _ he hrange => keeps_evalOr hp ih he hrange,
      fun _ _ hs => keeps_execOr hp ih hs⟩

/-- A program is run in the same way, whatever the dead ends are. -/
theorem programOr_eq {m : Machine} (hempty : m.stack.frames = #[]) (fuel : Nat) :
    programOr ends fuel p m = program fuel p m := by
  have hstart : (owned p m.maxCallDepth).At [] m.callDepth m :=
    .of_empty hempty rfl fun _ _ => trivial
  have hentered : (owned p m.maxCallDepth).At [.global] m.callDepth
      (m.pushFrame "global" .global) := hstart.pushFrame fun _ => trivial
  have hexec := (alikeFor hp ends m.maxCallDepth fuel [.global] m.callDepth).2
  exact programBy_congr
    (block_keep (keeps_combines _ _ _) (fun s hs => hexec _ s (.top hs)) _ hentered).1

end Through

end Exec

/-- A source that is accepted has no use for dead ends. -/
theorem through_of_check {source : String} {p : Program} (h : (check source).result = .ok p) :
    p.Through := by
  obtain ⟨ts, checked, htokenize, hparse, hcheck⟩ := check_eq_ok h
  have hfits := fits_of_parse htokenize hparse
  have hnone : Check.fault? (Check.program p) .initial = none := by rw [Check.fault?, hcheck]
  refine ⟨fun _ _ => Program.shaped_of_contains hfits,
    fun _ _ => Program.admits_of_mentions hfits, ?_⟩
  rintro decl ⟨site, hdecl⟩
  exact Check.requiredAfterDefault?_of_accepts
    (Check.accepts_of_contains Site.describes_initial hnone hdecl)

open Exec in
/-- Sources that are accepted have no use for the rules that are there for other trees. In their
programs, ranges are nothing but what `for` loops run over, and calls are marked as statements
exactly where they are; every `for` loop declares one variable, without a value, every conditional
has a branch, and compound assignments compute. A run comes neither to a range that is evaluated,
nor to a `for` loop without a variable, nor to a parameter with neither an argument nor a default:
whatever is put in the place of these three faults, the run is the same, from any state with nothing
on the stack. -/
theorem dead_ends_unreached {source : String} {p : Program}
    (h : (check source).result = .ok p) :
    (∀ role e, p.Mentions role e →
      (e.isRange → role = .iterable) ∧
      ∀ name arguments isStatement token, e = .call name arguments isStatement token →
        (isStatement = true ↔ role = .alone)) ∧
    (∀ site s, p.Contains site s → s.Shaped) ∧
    ∀ (ends : DeadEnds) (fuel : Nat) (m : Machine), m.stack.frames = #[] →
      programOr ends fuel p m = program fuel p m := by
  have hp := through_of_check h
  refine ⟨fun role e he => ?_, hp.shaped, fun ends fuel m hempty => programOr_eq hp hempty fuel⟩
  have hadmits := hp.admits role e he
  exact ⟨hadmits.eq_iterable_of_isRange, fun _ _ _ _ => hadmits.isStatement_iff⟩

/-- A range, a default and a call for its effect. -/
theorem dead_ends_unreached_default : ∃ p,
    (check "func(int) f(var(int) n, var(int) k = 2) { return n * k; }
        for var(int) i in 0:f(3):2 { f(i, i); i += f(i); if i > 3 { break; } }").result =
      .ok p ∧
    ((Machine.initial 9 none).executeFor 60 p).1 = none ∧
    ∀ ends fuel, Exec.programOr ends fuel p (.initial 9 none) =
      Exec.program fuel p (.initial 9 none) := by
  set_option maxRecDepth 2000 in
  obtain ⟨p, ts, checked, hcheck, hrun, -, -⟩ := exists_checked
    "func(int) f(var(int) n, var(int) k = 2) { return n * k; }
        for var(int) i in 0:f(3):2 { f(i, i); i += f(i); if i > 3 { break; } }" rfl
    (fun p => ((Machine.initial 9 none).executeFor 60 p).1 = none) (by decide +kernel)
  exact ⟨p, hcheck, of_decide_eq_true hrun,
    fun ends fuel => (dead_ends_unreached hcheck).2.2 ends fuel _ rfl⟩

end ScopedScript
