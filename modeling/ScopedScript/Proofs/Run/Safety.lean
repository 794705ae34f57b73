import ScopedScript.Proofs.Run.Safety.Statements

/-!
# Programs that follow rules run safely

A run of a program that follows rules keeps its stack ready at every moment. Its faults about names
are then confined to what the rules leave open: a variable that has no value yet, and a function
that does not take the arguments of a call.

What the rules leave open is stated of any set of halts and of runs that are made to halt at
moments, so that one proof serves the questions how runs can end and what can be seen on the way.
-/

namespace ScopedScript

namespace Exec

/-- Which halts are allowed of a run of a program that follows rules, if the run is made to halt at
moments. -/
structure Watch (rules : Rules) (stop : Moment → Machine → Prop) (halt : Halt)
    (allows : Halt → Prop) : Prop where
  naming : rules.Naming
  lenient : Lenient allows
  expression : ∀ (e : Expr) (env : Env) (zone : Zone) (m : Machine),
    m.stack.Ready rules env zone → e.follows rules (zone :: env) →
      stop (.before (.expression e)) m → allows halt
  statement : ∀ (s : Statement) (env : Env) (zone : Zone) (m : Machine),
    m.stack.Ready rules env zone → s.follows rules env zone →
      stop (.before (.statement s)) m → allows halt
  after : ∀ (task : Task) (m : Machine), m.stack.Typed rules.Valued →
    stop (.after task) m → allows halt
  /-- A variable that is read has a value, or the halt is allowed. -/
  load : ∀ (name : String) (token : Token) (type : Ty) (m : Machine),
    ¬ stop (.before (.expression (.var name token))) m →
      m.stack.get? name = some ⟨some type, none⟩ → ¬ rules.Valued →
        allows (.fault ⟨.unboundVariable name, token.position⟩)
  update : ∀ (target : String) (op : BinaryOp) (e : Expr) (token : Token) (fuel : Nat)
    (m : Machine) (v : Value) (last : Machine) (type : Ty),
    ¬ stop (.before (.statement (.assignment target (.compound op) e token))) m →
      value (evalUntil stop halt fuel) e m = .ok v last →
        last.stack.get? target = some ⟨some type, none⟩ → ¬ rules.Valued →
          allows (.fault ⟨.unboundVariable target, token.position⟩)
  calling : ∀ (name : String) (arguments : List Value) (position : Position) (env : Env)
    (zone : Zone) (m : Machine), m.stack.Ready rules env zone →
      rules.call (zone :: env) name arguments.length →
        stop (.calling name arguments position) m → allows halt
  /-- A function that is called takes the arguments, or the halt is allowed. -/
  count : ∀ (name : String) (arguments : List Value) (position : Position) (env : Env)
    (m : Machine) (outer : Nat) (decl : FunctionDecl),
    ¬ stop (.calling name arguments position) m → rules.call env name arguments.length →
      m.stack.findFunction? name = some (outer, decl) → decl.arity ∈ env.callable name →
        decl.arity.accepts arguments.length = false →
          allows (.fault ⟨.argumentCount decl.name decl.arity arguments.length, position⟩)

/-- To be made to halt may be allowed whenever it happens. -/
theorem Watch.of_allowed {rules : Rules} {stop : Moment → Machine → Prop} {halt : Halt}
    {allows : Halt → Prop} (hnaming : rules.Naming) (hlenient : Lenient allows)
    (hstop : ∀ moment m, stop moment m → allows halt)
    (hload : ∀ name token type m, ¬ stop (.before (.expression (.var name token))) m →
      m.stack.get? name = some ⟨some type, none⟩ → ¬ rules.Valued →
        allows (.fault ⟨.unboundVariable name, token.position⟩))
    (hupdate : ∀ target op e token fuel m v last type,
      ¬ stop (.before (.statement (.assignment target (.compound op) e token))) m →
        value (evalUntil stop halt fuel) e m = .ok v last →
          last.stack.get? target = some ⟨some type, none⟩ → ¬ rules.Valued →
            allows (.fault ⟨.unboundVariable target, token.position⟩))
    (hcount : ∀ name arguments position env m outer decl,
      ¬ stop (.calling name arguments position) m → rules.call env name arguments.length →
        m.stack.findFunction? name = some (outer, decl) → decl.arity ∈ env.callable name →
          decl.arity.accepts arguments.length = false →
            allows (.fault ⟨.argumentCount decl.name decl.arity arguments.length, position⟩)) :
    Watch rules stop halt allows where
  naming := hnaming
  lenient := hlenient
  expression _ _ _ m _ _ := hstop _ m
  statement _ _ _ m _ _ := hstop _ m
  after _ m _ := hstop _ m
  load := hload
  update := hupdate
  calling _ _ _ _ _ m _ _ := hstop _ m
  count := hcount

section Watch

variable {rules : Rules} {stop : Moment → Machine → Prop} {halt : Halt} {allows : Halt → Prop}
  (hwatch : Watch rules stop halt allows)

include hwatch

omit hwatch in
theorem pass_yields {moment : Moment} {m : Machine} (hallows : stop moment m → allows halt) :
    Yields allows (pass stop halt moment) m fun _ after => after = m ∧ ¬ stop moment m := by
  unfold Yields pass
  by_cases hstop : stop moment m
  · rw [if_pos hstop]
    exact hallows hstop
  · rw [if_neg hstop]
    exact ⟨rfl, hstop⟩

theorem call_yields {eval : Expr → Exec (Option Value)} {exec : Statement → Exec Flow}
    (heval : Evaluates rules allows eval) (hexec : Executes rules allows exec) :
    Calls rules allows (callUntil stop halt (call eval exec)) := by
  intro name arguments position env zone m hready hname
  refine (pass_yields (hwatch.calling name arguments position env zone m hready hname)).bind ?_
  rintro _ m ⟨rfl, hnot⟩
  refine Yields.look ?_
  obtain ⟨kind, hlookup, hkind⟩ :=
    (Option.any_eq_true _ _).mp (hwatch.naming.call _ name _ hname)
  cases kind with
  | function returns arity =>
    cases hfound : m.stack.findFunction? name with
    | some found =>
      obtain ⟨hthere, hmem⟩ := hready.holds.findFunction?_some hfound
      obtain ⟨frame, hframe, hfunction⟩ := Option.bind_eq_some_iff.mp hthere
      have hcloses := hready.sound.closed found.1 frame hframe name found.2 hfunction
      exact callFunction_yields hwatch.lenient heval hexec hready hcloses arguments position
        (hwatch.count name arguments position _ _ _ _ hnot hname hfound hmem)
    | none =>
      obtain ⟨b, hb, harity⟩ := hready.holds.findFunction?_none hfound hlookup
      have haccepts : b.arity.accepts arguments.length = true := harity ▸ hkind
      simp only [hb]
      refine (builtin_yields hwatch.lenient b arguments position ?_).imp ?_
      · intro hother
        rw [haccepts] at hother
        cases hother
      · intro _ after hafter
        rw [hafter]
        exact .refl hready.sound.typed
  | _ => cases hkind

/-- A task between its two moments. -/
theorem watched_yields {α : Type} {task : Task} {x : Exec α} {m : Machine}
    {post : α → Machine → Prop} (hbefore : stop (.before task) m → allows halt)
    (hx : ¬ stop (.before task) m → Yields allows x m post)
    (hpost : ∀ a after, post a after → after.stack.Typed rules.Valued) :
    Yields allows (watched stop halt task x) m post := by
  refine (pass_yields hbefore).bind ?_
  rintro _ _ ⟨rfl, hnot⟩
  refine (hx hnot).bind ?_
  intro a after ha
  refine (pass_yields (hwatch.after task after (hpost a after ha))).bind ?_
  rintro _ _ ⟨rfl, _⟩
  exact .pure ha

/-- Evaluation and execution take ready stacks to ready stacks, up to halts that are allowed. -/
theorem until_yields (fuel : Nat) : Evaluates rules allows (evalUntil stop halt fuel) ∧
    Executes rules allows (execUntil stop halt fuel) := by
  induction fuel with
  | zero =>
    constructor
    · intro e env zone m _ _
      exact hwatch.lenient.exhausted
    · intro s env zone m _ _ _
      exact hwatch.lenient.exhausted
  | succ fuel ih =>
    obtain ⟨heval, hexec⟩ := ih
    constructor
    · intro e env zone m hready he
      refine watched_yields hwatch (hwatch.expression e env zone m hready he) ?_ ?_
      · intro hnot
        refine evalStep_yields hwatch.lenient heval hready hwatch.naming
          (call_yields hwatch heval hexec) he ?_
        rintro name token type rfl
        exact hwatch.load name token type m hnot
      · intro _ after hkept
        exact hkept.typed
    · intro s env zone m hready hs hall
      refine watched_yields hwatch (hwatch.statement s env zone m hready hs) ?_ ?_
      · intro hnot
        refine execStep_yields hwatch.lenient heval hexec hready hwatch.naming hs hall fuel ?_
        rintro target op e token v last type rfl
        exact hwatch.update target op e token fuel m v last type hnot
      · intro _ after hreached
        exact hreached.ready.sound.typed

/-- Every halt of a program that follows the rules is allowed. -/
theorem programUntil_allows {p : Program} (hp : p.follows rules) {fuel : Nat} {m : Machine}
    (hempty : m.stack = .empty) {reason : Halt} {after : Machine}
    (hrun : programUntil stop halt fuel p m = .error reason after) : allows reason := by
  have hsound : m.stack.Sound rules := by
    rw [hempty]
    refine ⟨?_, ?_⟩
    · intro i frame hframe
      cases hframe
    · intro i frame hframe
      cases hframe
  have hholds : m.stack.Holds m.stack.topIndex? [] := by
    rw [hempty]
    trivial
  have hready : (m.pushFrame "global" .global).stack.Ready rules [] (.start p) := by
    rw [Machine.pushFrame_stack]
    exact hsound.enter hholds "global" .global p
  have hblock := block_yields (until_yields hwatch fuel).2 hready hp fun _ hentry => hentry
  unfold Yields at hblock
  unfold programUntil programBy at hrun
  cases hend : block (execUntil stop halt fuel) p (m.pushFrame "global" .global) with
  | ok flow last =>
    rw [hend] at hrun
    cases hrun
  | error reason' last =>
    rw [hend] at hrun hblock
    cases hrun
    exact hblock

end Watch

/-! ## Questions about runs -/

section Questions

variable {rules : Rules} {stop : Moment → Machine → Prop} {p : Program} {fuel : Nat} {m : Machine}
  (hp : p.follows rules) (hempty : m.stack = .empty)

include hp hempty

/-- How a plain run of a program that follows the rules can halt. -/
theorem program_allows {halt : Halt} {allows : Halt → Prop}
    (hwatch : Watch rules (fun _ _ => False) halt allows) {reason : Halt} {last : Machine}
    (hrun : program fuel p m = .error reason last) : allows reason := by
  have hnever : programUntil (fun _ _ => False) halt fuel p = program fuel p :=
    programUntil_never fuel p
  rw [← hnever] at hrun
  exact programUntil_allows hwatch hp hempty hrun

/-- Moments that no run comes to, and a halt that none comes to either. -/
theorem not_meets {halt : Halt} (hwatch : Watch rules stop halt (· ≠ halt)) :
    ¬ Meets stop fuel p m ∧ ∀ last, program fuel p m ≠ .error halt last := by
  have hnot : ∀ last, programUntil stop halt fuel p m ≠ .error halt last := by
    intro last hrun
    exact programUntil_allows hwatch hp hempty hrun rfl
  constructor
  · intro hmeets
    obtain ⟨last, hrun⟩ := hmeets halt
    exact hnot last hrun
  · intro last hrun
    have hfollows : Follows halt False (programUntil stop halt fuel p) (program fuel p) :=
      programUntil_follows False.elim fuel p
    obtain heq | ⟨after, heq, _⟩ := hfollows m
    · exact hnot last (heq.trans hrun)
    · exact hnot after heq

/-- Moments that a run comes to if it halts in a certain way. -/
theorem meets_of_error {reason : Halt}
    (hwatch : ∀ halt, Watch rules stop halt fun other => other = halt ∨ other ≠ reason)
    {last : Machine} (hrun : program fuel p m = .error reason last) : Meets stop fuel p m := by
  intro halt
  have hfollows : Follows halt False (programUntil stop halt fuel p) (program fuel p) :=
    programUntil_follows False.elim fuel p
  obtain heq | ⟨after, heq, _⟩ := hfollows m
  · rw [hrun] at heq
    obtain rfl | hne := programUntil_allows (hwatch halt) hp hempty heq
    · exact ⟨last, heq⟩
    · exact absurd rfl hne
  · exact ⟨after, heq⟩

end Questions

end Exec

end ScopedScript
