import ScopedScript.Proofs.Run.Safety
import ScopedScript.Proofs.Scoping.Acceptance
import ScopedScript.Proofs.Session

/-!
# Accepted programs find their names

A program that the parser and the checker accept finds every name that it uses when it runs: every
variable that is read or assigned is bound with a declared type, and every function that is called
is there. A variable can be bound without a value, as long as it was only declared.

The number of arguments is another matter. The checker looks at the function that a name stands for
at the place of the call, but a frame can by then hold a function that is declared further down, and
a run takes that one. So a call can find a function that does not take its arguments, unless all
functions that it can find do.
-/

namespace ScopedScript

/-! ## What moments show -/

/-- The nearest binding of a name is there and has a declared type. -/
def Stack.Binds (stack : Stack) (name : String) : Prop :=
  ∃ type value, stack.get? name = some ⟨some type, value⟩

/-- Every binding of every frame has a declared type. -/
def Stack.Declared (stack : Stack) : Prop :=
  ∀ (i : Nat) (frame : Frame), stack.frames[i]? = some frame →
    ∀ (name : String) (binding : Binding), frame.bindings.find? name = some binding →
      binding.type.isSome

namespace Moment

/-- The name that is about to be used is found: a variable that is read, a variable that is assigned
once the assigned value is there, or a function that is called. -/
def Finds (m : Machine) : Moment → Prop
  | .before (.expression (.var name _)) => m.stack.Binds name
  | .before (.statement (.assignment target _ e _)) =>
    ∀ fuel v last, Exec.value (Exec.eval fuel) e m = .ok v last → last.stack.Binds target
  | .calling name _ _ => (m.stack.findFunction? name).isSome ∨ (Builtin.ofName? name).isSome
  | _ => True

/-- A variable is about to be read at a position, alone or to be joined with an assigned value, and
its nearest binding has no value. -/
def Lacks (name : String) (position : Position) (m : Machine) : Moment → Prop
  | .before (.expression (.var other token)) =>
    other = name ∧ token.position = position ∧ ∃ type, m.stack.get? name = some ⟨some type, none⟩
  | .before (.statement (.assignment target (.compound _) e token)) =>
    target = name ∧ token.position = position ∧ ∃ fuel v last type,
      Exec.value (Exec.eval fuel) e m = .ok v last ∧
        last.stack.get? name = some ⟨some type, none⟩
  | _ => False

/-- A call at a position finds a function of the program that does not take its arguments. -/
def Miscalls (callee : String) (arity : Arity) (count : Nat) (position : Position) (m : Machine) :
    Moment → Prop
  | .calling name arguments place => place = position ∧ arguments.length = count ∧
    ∃ outer decl, m.stack.findFunction? name = some (outer, decl) ∧ decl.name = callee ∧
      decl.arity = arity ∧ arity.accepts count = false
  | _ => False

end Moment

/-! ## Halts that are ruled out -/

theorem Stack.Typed.binds {valued : Prop} {stack : Stack} (h : stack.Typed valued) {name : String}
    (hname : (stack.get? name).isSome) : stack.Binds name := by
  obtain ⟨⟨type, value⟩, hget⟩ := Option.isSome_iff_exists.mp hname
  obtain ⟨type, rfl⟩ := Option.isSome_iff_exists.mp (h.get? hget).1
  exact ⟨type, value, hget⟩

theorem Stack.Typed.declared {valued : Prop} {stack : Stack} (h : stack.Typed valued) :
    stack.Declared :=
  fun i frame hframe name binding hbinding => (h i frame hframe name binding hbinding).1

namespace Exec

theorem lenient_ne {fault : RuntimeFault} (h : fault.isNaming) (position : Position) :
    Lenient (· ≠ .fault ⟨fault, position⟩) where
  fuel := nofun
  plain other place hother heq := by
    cases heq
    rw [h] at hother
    cases hother

theorem Lenient.mono {allows allows' : Halt → Prop} (h : Lenient allows)
    (himp : ∀ halt, allows halt → allows' halt) : Lenient allows' where
  fuel := himp _ h.fuel
  plain fault position hfault := himp _ (h.plain fault position hfault)

section Instances

variable {rules : Rules} (hnaming : rules.Naming)

include hnaming

/-- The evaluation of an expression leaves a stack ready. -/
theorem value_ready {env : Env} {zone : Zone} {m last : Machine} {e : Expr} {fuel : Nat} {v : Value}
    (hready : m.stack.Ready rules env zone) (he : e.follows rules (zone :: env))
    (hvalue : value (eval fuel) e m = .ok v last) : last.stack.Ready rules env zone := by
  have hwatch : Watch rules (fun _ _ => False) .outOfFuel fun _ => True :=
    .of_allowed hnaming ⟨trivial, fun _ _ _ => trivial⟩ (fun _ _ _ => trivial)
      (fun _ _ _ _ _ _ _ => trivial) (fun _ _ _ _ _ _ _ _ _ _ _ _ _ => trivial)
      fun _ _ _ _ _ _ _ _ _ _ _ _ => trivial
  have heval := (until_yields hwatch fuel).1
  rw [(until_never fuel).1] at heval
  have hyields := value_yields hwatch.lenient heval hready he
  unfold Yields at hyields
  rw [hvalue] at hyields
  exact hready.keep hyields

/-- A ready stack finds the names that are used next. -/
theorem watch_finds (name : String) (position : Position) :
    Watch rules (fun moment m => ¬ (m.stack.Declared ∧ moment.Finds m))
      (.fault ⟨.unknownFunction name, position⟩)
      (· ≠ .fault ⟨.unknownFunction name, position⟩) where
  naming := hnaming
  lenient := lenient_ne rfl position
  expression e env zone m hready he hstop := by
    refine absurd ⟨hready.sound.typed.declared, ?_⟩ hstop
    cases e with
    | var name token =>
      exact hready.sound.typed.binds (bound_of_named hready (hnaming.use _ name he))
    | _ => trivial
  statement s env zone m hready hs hstop := by
    refine absurd ⟨hready.sound.typed.declared, ?_⟩ hstop
    cases s with
    | assignment target op e token =>
      obtain ⟨he, htarget⟩ := Bool.and_eq_true_iff.mp hs
      intro fuel v last hvalue
      have hlast := value_ready hnaming hready he hvalue
      exact hlast.sound.typed.binds (bound_of_named hlast (hnaming.use _ target htarget))
    | _ => trivial
  after task m htyped hstop := absurd ⟨htyped.declared, trivial⟩ hstop
  calling name arguments position env zone m hready hname hstop := by
    refine absurd ⟨hready.sound.typed.declared, ?_⟩ hstop
    obtain ⟨kind, hlookup, hkind⟩ := (Option.any_eq_true _ _).mp (hnaming.call _ name _ hname)
    cases kind with
    | function returns arity =>
      cases hfound : m.stack.findFunction? name with
      | some found => exact .inl (Option.isSome_iff_exists.mpr ⟨found, hfound⟩)
      | none =>
        obtain ⟨b, hb, _⟩ := hready.holds.findFunction?_none hfound hlookup
        exact .inr (Option.isSome_iff_exists.mpr ⟨b, hb⟩)
    | _ => cases hkind
  load _ _ _ _ _ _ _ := nofun
  update _ _ _ _ _ _ _ _ _ _ _ _ _ := nofun
  count _ _ _ _ _ _ _ _ _ _ _ _ := nofun

/-- A variable without a value is read only at a moment that shows it. -/
theorem watch_lacks (name : String) (position : Position) (halt : Halt) :
    Watch rules (fun moment m => moment.Lacks name position m) halt
      (fun reason => reason = halt ∨ reason ≠ .fault ⟨.unboundVariable name, position⟩) := by
  refine .of_allowed hnaming ((lenient_ne rfl position).mono fun _ => .inr) (fun _ _ _ => .inl rfl)
    ?_ ?_ fun _ _ _ _ _ _ _ _ _ _ _ _ => .inr nofun
  · intro other token type m hnot hget _
    refine .inr ?_
    rintro ⟨⟩
    exact hnot ⟨rfl, rfl, type, hget⟩
  · intro target op e token fuel m v last type hnot hvalue hget _
    refine .inr ?_
    rintro ⟨⟩
    exact hnot ⟨rfl, rfl, fuel, v, last, type, value_of_until hvalue, hget⟩

/-- If every variable is declared with a value, none is read without one. -/
theorem watch_valued (hvalued : rules.Valued) (name : String) (position : Position) (halt : Halt) :
    Watch rules (fun _ _ => False) halt (· ≠ .fault ⟨.unboundVariable name, position⟩) :=
  .of_allowed hnaming (lenient_ne rfl position) (fun _ _ => False.elim)
    (fun _ _ _ _ _ _ hnot => absurd hvalued hnot)
    (fun _ _ _ _ _ _ _ _ _ _ _ _ hnot => absurd hvalued hnot)
    fun _ _ _ _ _ _ _ _ _ _ _ _ => nofun

/-- A function is called with a wrong number of arguments only at a moment that shows it. -/
theorem watch_miscalls (callee : String) (arity : Arity) (count : Nat) (position : Position)
    (halt : Halt) :
    Watch rules (fun moment m => moment.Miscalls callee arity count position m) halt
      (fun reason =>
        reason = halt ∨ reason ≠ .fault ⟨.argumentCount callee arity count, position⟩) := by
  refine .of_allowed hnaming ((lenient_ne rfl position).mono fun _ => .inr) (fun _ _ _ => .inl rfl)
    (fun _ _ _ _ _ _ _ => .inr nofun) (fun _ _ _ _ _ _ _ _ _ _ _ _ _ => .inr nofun) ?_
  intro name arguments place env m outer decl hnot _ hfound _ hother
  refine .inr ?_
  rintro ⟨⟩
  exact hnot ⟨rfl, rfl, outer, decl, hfound, rfl, rfl, hother⟩

/-- If every function that a call can find takes its arguments, none is called with others. -/
theorem watch_fitting (hfitting : ∀ env name count, rules.call env name count →
      Rules.fitting.call env name count) (callee : String) (arity : Arity) (count : Nat)
    (position : Position) (halt : Halt) :
    Watch rules (fun _ _ => False) halt
      (· ≠ .fault ⟨.argumentCount callee arity count, position⟩) := by
  refine .of_allowed hnaming (lenient_ne rfl position) (fun _ _ => False.elim)
    (fun _ _ _ _ _ _ _ => nofun) (fun _ _ _ _ _ _ _ _ _ _ _ _ _ => nofun) ?_
  intro name arguments place env m outer decl _ hname _ hmem hother
  have haccepts := List.all_eq_true.mp (hfitting env name _ hname) _ hmem
  rw [hother] at haccepts
  cases haccepts

end Instances

/-- A call that finds a function that does not take its arguments is at fault. -/
theorem certain_miscalls (callee : String) (arity : Arity) (count : Nat) (position : Position) :
    Certain (fun moment m => moment.Miscalls callee arity count position m)
      (.fault ⟨.argumentCount callee arity count, position⟩) := by
  intro moment m hmoment
  cases moment with
  | calling name arguments place =>
    obtain ⟨rfl, rfl, outer, decl, hfound, rfl, rfl, hother⟩ := hmoment
    refine ⟨name, arguments, place, rfl, ?_⟩
    intro eval exec
    refine ⟨m, ?_⟩
    rw [call, bind_apply]
    simp only [get_apply, hfound]
    rw [callFunction_apply, if_neg (Bool.eq_false_iff.mp hother)]
    rfl
  | _ => exact hmoment.elim

end Exec

/-! ## Sources -/

/-- The fault that stops the run of a source stops the run of its program. -/
theorem run_failure {source : String} {p : Program} (hcheck : (check source).result = .ok p)
    {maxCallDepth : Nat} {d : Diagnostic RuntimeFault}
    (h : (run source maxCallDepth).failure = some (.running d)) :
    ∃ last, Exec.program Exec.ample p (.initial maxCallDepth none) = .error (.fault d) last := by
  unfold run at h
  cases hchecked : check source with
  | mk events result =>
    rw [hchecked] at hcheck h
    simp only at hcheck
    subst hcheck
    simp only [Machine.execute] at h
    cases hrun : Exec.program Exec.ample p (.initial maxCallDepth none) with
    | ok _ last =>
      rw [hrun] at h
      cases h
    | error halt last =>
      rw [hrun] at h
      cases halt with
      | fault d' =>
        cases h
        exact ⟨last, rfl⟩
      | outOfFuel => cases h

/-! ## Accepted programs -/

section Accepted

variable {ts : List Token} {p : Program} {checked : Checker}

theorem follows_of_accepted (hparse : parse ts = .ok p)
    (hcheck : Check.program p .initial = .ok () checked) :
    p.follows (Rules.named.and .single) := by
  rw [Program.follows_and, Check.program_follows_named hcheck, parse_follows_single hparse]
  rfl

/-- A program that is accepted finds its names. No call is of an unknown function. At every moment
every binding has a declared type, and what is about to be read, assigned or called is found. A
variable without a value is at fault only when its nearest binding is there and has none, and never
if every declaration gives its variables values. -/
theorem names_found (hparse : parse ts = .ok p)
    (hcheck : Check.program p .initial = .ok () checked) (fuel maxCallDepth : Nat)
    (limit : Option Nat) :
    (∀ name position last, Exec.program fuel p (.initial maxCallDepth limit) ≠
      .error (.fault ⟨.unknownFunction name, position⟩) last) ∧
    ¬ Exec.Meets (fun moment m => ¬ (m.stack.Declared ∧ moment.Finds m)) fuel p
      (.initial maxCallDepth limit) ∧
    (∀ name position last, Exec.program fuel p (.initial maxCallDepth limit) =
      .error (.fault ⟨.unboundVariable name, position⟩) last →
        Exec.Meets (fun moment m => moment.Lacks name position m) fuel p
          (.initial maxCallDepth limit)) ∧
    (p.follows .initialized → ∀ name position last,
      Exec.program fuel p (.initial maxCallDepth limit) ≠
        .error (.fault ⟨.unboundVariable name, position⟩) last) := by
  have hfollows := follows_of_accepted hparse hcheck
  refine ⟨?_, ?_, ?_, ?_⟩
  · intro name position
    exact (Exec.not_meets hfollows rfl (Exec.watch_finds Rules.naming name position)).2
  · exact (Exec.not_meets hfollows rfl (Exec.watch_finds Rules.naming "" ⟨0, 0⟩)).1
  · intro name position last hrun
    exact Exec.meets_of_error hfollows rfl (Exec.watch_lacks Rules.naming name position) hrun
  · intro hinitialized name position last hrun
    have hboth : p.follows ((Rules.named.and .single).and .initialized) := by
      rw [Program.follows_and, hfollows, hinitialized]
      rfl
    have hvalued : ((Rules.named.and .single).and .initialized).Valued := by
      intro d hd
      rw [Rules.and_declarator, Bool.and_eq_true_iff] at hd
      exact hd.2
    exact Exec.program_allows hboth rfl
      (Exec.watch_valued (Rules.naming.and _) hvalued name position .outOfFuel) hrun rfl

/-- A variable that was only declared is read by a function. -/
theorem names_found_unassigned : ∃ p,
    (check "var(int) x; func(int) f(var(int) a = 1) { return a + x; } x = f();").result = .ok p ∧
      Exec.Meets (fun moment m => moment.Lacks "x" ⟨1, 54⟩ m) Exec.ample p
        (.initial 100 none) := by
  have hfailure :
      (run "var(int) x; func(int) f(var(int) a = 1) { return a + x; } x = f();" 100).failure =
        some (.running ⟨.unboundVariable "x", ⟨1, 54⟩⟩) := by decide +kernel
  obtain ⟨p, ts, checked, hresult, _, hparse, hcheck⟩ := exists_checked
    "var(int) x; func(int) f(var(int) a = 1) { return a + x; } x = f();" rfl (fun _ => true)
    (by decide +kernel)
  obtain ⟨last, hrun⟩ := run_failure hresult hfailure
  exact ⟨p, hresult, (names_found hparse hcheck Exec.ample 100 none).2.2.1 "x" ⟨1, 54⟩ last hrun⟩

/-- When a run of a program that is accepted calls a function with a wrong number of arguments:
exactly if it comes to a call that finds a function of the program that does not take them. It never
does if every function of the program that a call can find takes the arguments. -/
theorem miscounted_iff (hparse : parse ts = .ok p)
    (hcheck : Check.program p .initial = .ok () checked) (fuel maxCallDepth : Nat)
    (limit : Option Nat) :
    (∀ callee arity count position,
      (∃ last, Exec.program fuel p (.initial maxCallDepth limit) =
        .error (.fault ⟨.argumentCount callee arity count, position⟩) last) ↔
      Exec.Meets (fun moment m => moment.Miscalls callee arity count position m) fuel p
        (.initial maxCallDepth limit)) ∧
    (p.follows .fitting → ∀ callee arity count position last,
      Exec.program fuel p (.initial maxCallDepth limit) ≠
        .error (.fault ⟨.argumentCount callee arity count, position⟩) last) := by
  have hfollows := follows_of_accepted hparse hcheck
  constructor
  · intro callee arity count position
    constructor
    · rintro ⟨last, hrun⟩
      exact Exec.meets_of_error hfollows rfl
        (Exec.watch_miscalls Rules.naming callee arity count position) hrun
    · intro hmeets
      exact Exec.error_of_meets (Exec.certain_miscalls callee arity count position) hmeets
  · intro hfitting callee arity count position last hrun
    have hboth : p.follows ((Rules.named.and .single).and .fitting) := by
      rw [Program.follows_and, hfollows, hfitting]
      rfl
    have hcall : ∀ env name count, ((Rules.named.and .single).and .fitting).call env name count →
        Rules.fitting.call env name count := by
      intro env name count hname
      rw [Rules.and_call, Bool.and_eq_true_iff] at hname
      exact hname.2
    have hwatch := Exec.watch_fitting (Rules.naming.and .fitting) hcall callee arity count position
      .outOfFuel
    exact Exec.program_allows hboth rfl hwatch hrun rfl

end Accepted

/-- A function calls `print`, which by then is a function of the program that takes no arguments. A
program whose functions all take what they are called with does not fail in this way. -/
theorem miscounted_print :
    (∃ p, (check "func(void) h() { print(1); } func(void) print() { } h();").result = .ok p ∧
      Exec.Meets (fun moment m => moment.Miscalls "print" ⟨0, some 0⟩ 1 ⟨1, 18⟩ m) Exec.ample p
        (.initial 100 none)) ∧
    ∃ p, (check "func(int) f(var(int) a) { return a; } print(f(1));").result = .ok p ∧
      ∀ fuel callee arity count position last, Exec.program fuel p (.initial 100 none) ≠
        .error (.fault ⟨.argumentCount callee arity count, position⟩) last := by
  constructor
  · have hfailure :
        (run "func(void) h() { print(1); } func(void) print() { } h();" 100).failure =
          some (.running ⟨.argumentCount "print" ⟨0, some 0⟩ 1, ⟨1, 18⟩⟩) := by decide +kernel
    obtain ⟨p, ts, checked, hresult, _, hparse, hcheck⟩ := exists_checked
      "func(void) h() { print(1); } func(void) print() { } h();" rfl (fun _ => true)
      (by decide +kernel)
    have hrun := run_failure hresult hfailure
    exact ⟨p, hresult, ((miscounted_iff hparse hcheck Exec.ample 100 none).1 _ _ _ _).mp hrun⟩
  · obtain ⟨p, ts, checked, hresult, hfitting, hparse, hcheck⟩ := exists_checked
      "func(int) f(var(int) a) { return a; } print(f(1));" rfl (Program.follows .fitting)
      (by decide +kernel)
    exact ⟨p, hresult, fun fuel => (miscounted_iff hparse hcheck fuel 100 none).2 hfitting⟩

end ScopedScript
