import ScopedScript.Proofs.Run.Congruence

/-!
# Moments of a run

A run passes moments: before and after each expression that it evaluates and each statement that it
executes, and between the arguments of a call and the call itself. What holds at every moment cannot
be read off the end of a run, since frames are left on the way. So a run can be made to halt at the
first moment at which something holds; otherwise it uses the same rules. A run comes to such a
moment if it halts there, whatever halt is asked for.

A run that is made to halt goes the way of the plain run up to that moment. This is shown on the
rules alone: each of them carries over how its parts follow others.

## Main definitions

* `Task`, `Moment` : what a run has to do, and the moments before and after.
* `Exec.evalUntil`, `Exec.execUntil`, `Exec.programUntil` : runs that halt at a moment.
* `Exec.Meets` : a run of a program comes to a moment.
* `Exec.Follows` : a run goes the way of another as long as it is not made to halt.
* `Exec.Certain` : moments at which a run halts on its own.

## Main statements

* `follows_respects` : all rules carry over how their parts follow others.
* `programUntil_follows` : a run that is made to halt goes the way of the plain one.
* `programUntil_never` : a run that is never made to halt is the plain one.
* `error_of_meets` : a run that comes to a moment at which it halts does halt.
-/

namespace ScopedScript

/-- What a run has to do. -/
inductive Task where
  | expression (e : Expr)
  | statement (s : Statement)

/-- A moment of a run. -/
inductive Moment where
  | before (task : Task)
  | after (task : Task)
  | calling (name : String) (arguments : List Value) (position : Position)

namespace Exec

/-! ## Runs that halt at a moment -/

section Until

variable (stop : Moment → Machine → Prop) (halt : Halt)

open Classical in
/-- Passes a moment, unless the run has to halt there. -/
noncomputable def pass (moment : Moment) : Exec Unit := fun m =>
  if stop moment m then .error halt m else .ok () m

/-- A task between its two moments. -/
noncomputable def watched {α : Type} (task : Task) (body : Exec α) : Exec α := do
  pass stop halt (.before task)
  let a ← body
  pass stop halt (.after task)
  return a

/-- A call behind its moment. -/
noncomputable def callUntil
    (call : String → List Value → Position → Exec (Option Value)) (name : String)
    (arguments : List Value) (position : Position) : Exec (Option Value) := do
  pass stop halt (.calling name arguments position)
  call name arguments position

mutual

/-- The value of an expression, unless the run has to halt before. -/
noncomputable def evalUntil (fuel : Nat) (e : Expr) : Exec (Option Value) :=
  match fuel with
  | 0 => exhausted
  | fuel + 1 => watched stop halt (.expression e)
      (evalStep (evalUntil fuel)
        (callUntil stop halt (call (evalUntil fuel) (execUntil fuel))) e)

/-- The execution of a statement, unless the run has to halt before. -/
noncomputable def execUntil (fuel : Nat) (s : Statement) : Exec Flow :=
  match fuel with
  | 0 => exhausted
  | fuel + 1 => watched stop halt (.statement s)
      (execStep (evalUntil fuel) (execUntil fuel) fuel s)

end

/-- A whole program, unless the run has to halt before. -/
noncomputable def programUntil (fuel : Nat) (p : Program) : Exec Unit :=
  programBy (execUntil stop halt fuel) p

end Until

/-- A run of a program comes to a moment of a kind: made to halt there, it halts. -/
def Meets (moments : Moment → Machine → Prop) (fuel : Nat) (p : Program) (m : Machine) : Prop :=
  ∀ halt, ∃ after, programUntil moments halt fuel p m = .error halt after

/-! ## Following another run -/

/-- A run goes the way of another, unless it halts with the given halt. If that is sure to be right,
the other halts in the same way. -/
def Follows {α : Type} (halt : Halt) (sure : Prop) (x y : Exec α) : Prop :=
  ∀ m, x m = y m ∨ ∃ after, x m = .error halt after ∧ (sure → ∃ last, y m = .error halt last)

theorem Follows.refl {α : Type} {halt : Halt} {sure : Prop} (x : Exec α) :
    Follows halt sure x x :=
  fun _ => .inl rfl

theorem Follows.bind {α β : Type} {halt : Halt} {sure : Prop} {x y : Exec α} {f g : α → Exec β}
    (h : Follows halt sure x y) (hf : ∀ a, Follows halt sure (f a) (g a)) :
    Follows halt sure (x >>= f) (y >>= g) := by
  intro m
  rw [bind_apply, bind_apply]
  obtain heq | ⟨after, heq, hsure⟩ := h m
  · rw [heq]
    cases y m with
    | ok a after => exact hf a after
    | error other after => exact .inl rfl
  · rw [heq]
    refine .inr ⟨after, rfl, ?_⟩
    intro h
    obtain ⟨last, hlast⟩ := hsure h
    rw [hlast]
    exact ⟨last, rfl⟩

theorem Follows.bracket {α : Type} {halt : Halt} {sure : Prop} {x y : Exec α}
    (h : Follows halt sure x y) (enter leave : Machine → Machine) :
    Follows halt sure (bracket enter leave x) (bracket enter leave y) := by
  intro m
  unfold Exec.bracket
  obtain heq | ⟨after, heq, hsure⟩ := h (enter m)
  · rw [heq]
    exact .inl rfl
  · rw [heq]
    refine .inr ⟨leave after, rfl, ?_⟩
    intro h
    obtain ⟨last, hlast⟩ := hsure h
    rw [hlast]
    exact ⟨leave last, rfl⟩

/-- All rules carry over how their parts follow others. -/
theorem follows_respects (halt : Halt) (sure : Prop) :
    Respects (Follows halt sure) (Follows halt sure) where
  evaluation := ⟨fun _ => .refl _, fun _ => .refl _, .bind⟩
  execution := ⟨fun _ => .refl _, fun _ => .refl _, .bind⟩
  weaken hfollows := hfollows
  load _ _ := .refl _
  write _ _ := .refl _
  store _ _ _ := .refl _
  declare _ _ := .refl _
  fit _ _ _ _ := .refl _
  declareFunction _ := .refl _
  inFrame _ _ hfollows := hfollows.bracket _ _
  call name arguments position hinside _ := by
    refine (Follows.refl _).bind fun m => ?_
    cases m.stack.findFunction? name with
    | none => exact .refl _
    | some found =>
      intro m
      simp only [callFunction_apply]
      split
      · split
        · exact .inl rfl
        · exact (hinside found.2).bracket _ _ m
      · exact .inl rfl

theorem programBy_follows {halt : Halt} {sure : Prop} {exec exec' : Statement → Exec Flow}
    (h : ∀ s, Follows halt sure (exec s) (exec' s)) (p : Program) :
    Follows halt sure (programBy exec p) (programBy exec' p) := by
  intro m
  unfold programBy
  obtain heq | ⟨after, heq, hhalts⟩ :=
    block_rel (follows_respects halt sure) h p (m.pushFrame "global" .global)
  · rw [heq]
    exact .inl rfl
  · rw [heq]
    refine .inr ⟨_, rfl, ?_⟩
    intro hsure
    obtain ⟨last, hlast⟩ := hhalts hsure
    rw [hlast]
    exact ⟨_, rfl⟩

/-! ## Runs that are made to halt -/

section Relations

variable {stop : Moment → Machine → Prop} {halt : Halt}

/-- A moment at which a run does not have to halt is passed. -/
theorem pass_apply {moment : Moment} {m : Machine} (h : ¬ stop moment m) :
    pass stop halt moment m = .ok () m :=
  if_neg h

/-- So is a call at such a moment. -/
theorem callUntil_apply {call : String → List Value → Position → Exec (Option Value)}
    {name : String} {arguments : List Value} {position : Position} {m : Machine}
    (h : ¬ stop (.calling name arguments position) m) :
    callUntil stop halt call name arguments position m = call name arguments position m := by
  unfold callUntil
  rw [bind_apply, pass_apply h]

/-- A relation that does not mind the moments of a task relates the task to the plain one. -/
theorem watched_rel {R : ∀ {α : Type}, Exec α → Exec α → Prop} (hR : Composes R) {task : Task}
    (hbefore : R (pass stop halt (.before task)) (pure ()))
    (hafter : R (pass stop halt (.after task)) (pure ())) {α : Type} {x y : Exec α} (h : R x y) :
    R (watched stop halt task x) y := by
  have hall : R (watched stop halt task x)
      (pure () >>= fun _ => y >>= fun a => pure () >>= fun _ => pure a) :=
    hR.bind hbefore fun _ => hR.bind h fun _ => hR.bind hafter fun _ => hR.pure _
  simpa only [pure_bind, bind_pure] using hall

/-- A relation that does not mind the moment of a call relates the call to the plain one. -/
theorem callUntil_rel {R : ∀ {α : Type}, Exec α → Exec α → Prop} (hR : Composes R)
    {call call' : String → List Value → Position → Exec (Option Value)} {name : String}
    {arguments : List Value} {position : Position}
    (hcalling : R (pass stop halt (.calling name arguments position)) (pure ()))
    (h : R (call name arguments position) (call' name arguments position)) :
    R (callUntil stop halt call name arguments position) (call' name arguments position) := by
  have hall : R (callUntil stop halt call name arguments position)
      (pure () >>= fun _ => call' name arguments position) :=
    hR.bind hcalling fun _ => h
  simpa only [pure_bind] using hall

/-- Relations that do not mind moments relate runs that are made to halt to plain ones. -/
theorem until_rel {E S : ∀ {α : Type}, Exec α → Exec α → Prop} (h : Respects E S)
    (hbefore : ∀ task, E (pass stop halt (.before task)) (pure ()))
    (hafter : ∀ task, E (pass stop halt (.after task)) (pure ()))
    (hcalling : ∀ {eval eval' : Expr → Exec (Option Value)} {exec exec' : Statement → Exec Flow},
      (∀ e, E (eval e) (eval' e)) → (∀ s, S (exec s) (exec' s)) → ∀ name arguments position,
        E (callUntil stop halt (call eval exec) name arguments position)
          (call eval' exec' name arguments position)) (fuel : Nat) :
    (∀ e, E (evalUntil stop halt fuel e) (eval fuel e)) ∧
      ∀ s, S (execUntil stop halt fuel s) (exec fuel s) := by
  induction fuel with
  | zero => exact ⟨fun _ => h.evaluation.halt _, fun _ => h.execution.halt _⟩
  | succ fuel ih =>
    obtain ⟨heval, hexec⟩ := ih
    constructor
    · intro e
      exact watched_rel h.evaluation (hbefore _) (hafter _)
        (evalStep_rel h.evaluation h.load (hcalling heval hexec) fun part _ => heval part)
    · intro s
      exact watched_rel h.execution (h.weaken (hbefore _)) (h.weaken (hafter _))
        (execStep_rel h heval hexec fuel s)

end Relations

/-- A run is made to halt only at calls that halt in the same way on their own. -/
def Certain (stop : Moment → Machine → Prop) (halt : Halt) : Prop :=
  ∀ moment m, stop moment m → ∃ name arguments position,
    moment = .calling name arguments position ∧
      ∀ eval exec, ∃ last, call eval exec name arguments position m = .error halt last

section Until

variable {stop : Moment → Machine → Prop} {halt : Halt} {sure : Prop}

section Follows

variable (hsure : sure → Certain stop halt)

include hsure

theorem pass_follows {moment : Moment}
    (hmoment : ∀ name arguments position, moment ≠ .calling name arguments position) :
    Follows halt sure (pass stop halt moment) (pure ()) := by
  intro m
  unfold pass
  split
  next hstop =>
    refine .inr ⟨m, rfl, ?_⟩
    intro h
    obtain ⟨name, arguments, position, heq, _⟩ := hsure h moment m hstop
    exact absurd heq (hmoment name arguments position)
  next => exact .inl rfl

theorem callUntil_follows {eval eval' : Expr → Exec (Option Value)}
    {exec exec' : Statement → Exec Flow} (heval : ∀ e, Follows halt sure (eval e) (eval' e))
    (hexec : ∀ s, Follows halt sure (exec s) (exec' s)) (name : String) (arguments : List Value)
    (position : Position) :
    Follows halt sure (callUntil stop halt (call eval exec) name arguments position)
      (call eval' exec' name arguments position) := by
  intro m
  unfold callUntil
  rw [bind_apply, pass]
  by_cases hstop : stop (.calling name arguments position) m
  · rw [if_pos hstop]
    refine .inr ⟨m, rfl, ?_⟩
    intro h
    obtain ⟨_, _, _, heq, hhalts⟩ := hsure h _ m hstop
    cases heq
    exact hhalts eval' exec'
  · rw [if_neg hstop]
    exact call_rel (follows_respects halt sure) heval hexec name arguments position m

theorem until_follows (fuel : Nat) :
    (∀ e, Follows halt sure (evalUntil stop halt fuel e) (eval fuel e)) ∧
      ∀ s, Follows halt sure (execUntil stop halt fuel s) (exec fuel s) :=
  until_rel (follows_respects halt sure) (fun _ => pass_follows hsure (by nofun))
    (fun _ => pass_follows hsure (by nofun)) (callUntil_follows hsure) fuel

/-- A run that is made to halt at a moment goes the way of the plain one up to that moment. -/
theorem programUntil_follows (fuel : Nat) (p : Program) :
    Follows halt sure (programUntil stop halt fuel p) (program fuel p) :=
  programBy_follows (until_follows hsure fuel).2 p

end Follows

/-- A run that comes to a call that halts on its own halts in that way. -/
theorem error_of_meets (hcertain : Certain stop halt) {fuel : Nat} {p : Program} {m : Machine}
    (hmeets : Meets stop fuel p m) : ∃ last, program fuel p m = .error halt last := by
  obtain ⟨after, hrun⟩ := hmeets halt
  have hfollows : Follows halt True (programUntil stop halt fuel p) (program fuel p) :=
    programUntil_follows (fun _ => hcertain) fuel p
  obtain heq | ⟨_, _, hhalts⟩ := hfollows m
  · exact ⟨after, heq.symm.trans hrun⟩
  · exact hhalts trivial

/-- An expression whose evaluation is not made to halt has its value. -/
theorem value_of_until {fuel : Nat} {e : Expr} {m last : Machine} {v : Value}
    (h : value (evalUntil stop halt fuel) e m = .ok v last) :
    value (eval fuel) e m = .ok v last := by
  have hfollows : ∀ e, Follows halt False (evalUntil stop halt fuel e) (eval fuel e) :=
    (until_follows False.elim fuel).1
  obtain heq | ⟨after, heq, _⟩ :=
    value_rel (follows_respects halt False).evaluation (hfollows e) m
  · exact heq.symm.trans h
  · rw [heq] at h
    cases h

theorem watched_never {α : Type} (task : Task) (x : Exec α) :
    watched (fun _ _ => False) halt task x = x := by
  have hpass : ∀ moment, pass (fun _ _ => False) halt moment = pure () := by
    intro moment
    funext m
    exact pass_apply id
  simp only [watched, hpass, pure_bind, bind_pure]

theorem callUntil_never (call : String → List Value → Position → Exec (Option Value)) :
    callUntil (fun _ _ => False) halt call = call := by
  funext name arguments position m
  exact callUntil_apply id

theorem until_never (fuel : Nat) :
    evalUntil (fun _ _ => False) halt fuel = eval fuel ∧
      execUntil (fun _ _ => False) halt fuel = exec fuel := by
  induction fuel with
  | zero => exact ⟨rfl, rfl⟩
  | succ fuel ih =>
    obtain ⟨heval, hexec⟩ := ih
    constructor
    · funext e
      rw [evalUntil, watched_never, callUntil_never, heval, hexec, eval_succ]
    · funext s
      rw [execUntil, watched_never, heval, hexec, exec_succ]

/-- A run that is never made to halt is the plain one. -/
theorem programUntil_never (fuel : Nat) (p : Program) :
    programUntil (fun _ _ => False) halt fuel p = program fuel p := by
  rw [programUntil, (until_never fuel).2, program]

end Until

end Exec

end ScopedScript
