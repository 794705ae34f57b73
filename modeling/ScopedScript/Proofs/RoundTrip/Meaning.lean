import ScopedScript.Proofs.Grammar.Completeness
import ScopedScript.Proofs.RoundTrip.Text
import ScopedScript.Proofs.Run.Naturality
import ScopedScript.Proofs.Scoping.Naturality
import ScopedScript.Proofs.Session

/-!
# A program and its text mean the same

The text of a program is read as the same program with other tokens. Neither the check of names nor
a run depends on tokens, other than for where a fault is reported. So a source and the text of its
program are accepted or rejected for the same reason, and if they run, they print the same, end with
the same variables, and go on forever or halt for the same reason.

Both are compared with the program that has no places at all: that is what both programs are once
their tokens are forgotten.
-/

namespace ScopedScript

/-! ## Trees without places -/

/-- Every token loses its text and its position. -/
def Relabeling.forget : Relabeling := ⟨Token.bare, fun _ => .nowhere, fun _ => rfl⟩

mutual

theorem Expr.relabel_forget : (e : Expr) → e.relabel .forget = e.bare
  | .literal _ _ | .var _ _ => rfl
  | .unary op operand token => congrArg (Expr.unary op · token.bare) operand.relabel_forget
  | .binary left op right token => by
    rw [Expr.relabel, left.relabel_forget, right.relabel_forget]
    rfl
  | .call name arguments isStatement token =>
    congrArg (Expr.call name · isStatement token.bare) (Expr.relabelList_forget arguments)
  | .index base position token => by
    rw [Expr.relabel, base.relabel_forget, position.relabel_forget]
    rfl
  | .slice base start stop token => by
    rw [Expr.relabel, base.relabel_forget, start.relabel_forget, stop.relabel_forget]
    rfl
  | .range start stop token => by
    rw [Expr.relabel, start.relabel_forget, stop.relabel_forget]
    rfl
  | .steppedRange start stop step token => by
    rw [Expr.relabel, start.relabel_forget, stop.relabel_forget, step.relabel_forget]
    rfl

theorem Expr.relabelList_forget : (es : List Expr) →
    Expr.relabelList .forget es = Expr.bareList es
  | [] => rfl
  | e :: rest => by
    rw [Expr.relabelList, e.relabel_forget, Expr.relabelList_forget rest]
    rfl

end

theorem Expr.relabel_forget_eq : Expr.relabel .forget = Expr.bare := funext Expr.relabel_forget

theorem VarDecl.relabel_forget (decl : VarDecl) : decl.relabel .forget = decl.bare := by
  have hdeclarator : Declarator.relabel .forget = Declarator.bare := by
    funext d
    rw [Declarator.relabel, Expr.relabel_forget_eq]
    rfl
  rw [VarDecl.relabel, hdeclarator]
  rfl

theorem Param.relabel_forget (p : Param) : p.relabel .forget = p.bare := by
  rw [Param.relabel, Expr.relabel_forget_eq]
  rfl

mutual

theorem Statement.relabel_forget : (s : Statement) → s.relabel .forget = s.bare
  | .empty | .breakLoop _ | .continueLoop _ => rfl
  | .declaration decl => congrArg Statement.declaration decl.relabel_forget
  | .assignment target op value token =>
    congrArg (Statement.assignment target op · token.bare) value.relabel_forget
  | .conditional condition body otherwise token => by
    rw [Statement.relabel, condition.relabel_forget, Statement.relabelList_forget body,
      otherwise.relabel_forget]
    rfl
  | .whileLoop condition body token => by
    rw [Statement.relabel, condition.relabel_forget, Statement.relabelList_forget body]
    rfl
  | .forLoop loopVariable iterable body token => by
    rw [Statement.relabel, loopVariable.relabel_forget, iterable.relabel_forget,
      Statement.relabelList_forget body]
    rfl
  | .returnFrom value token => by
    rw [Statement.relabel, Expr.relabel_forget_eq]
    rfl
  | .function decl => congrArg Statement.function decl.relabel_forget
  | .expression expr => congrArg Statement.expression expr.relabel_forget

theorem Alternative.relabel_forget : (otherwise : Alternative) →
    otherwise.relabel .forget = otherwise.bare
  | .absent => rfl
  | .elseif condition body rest => by
    rw [Alternative.relabel, condition.relabel_forget, Statement.relabelList_forget body,
      rest.relabel_forget]
    rfl
  | .otherwise body => congrArg Alternative.otherwise (Statement.relabelList_forget body)

theorem FunctionDecl.relabel_forget : (decl : FunctionDecl) → decl.relabel .forget = decl.bare
  | ⟨returns, name, params, body, token⟩ => by
    rw [FunctionDecl.relabel, Statement.relabelList_forget body, funext Param.relabel_forget]
    rfl

theorem Statement.relabelList_forget : (body : List Statement) →
    Statement.relabelList .forget body = Statement.bareList body
  | [] => rfl
  | s :: rest => by
    rw [Statement.relabelList, s.relabel_forget, Statement.relabelList_forget rest]
    rfl

end

/-! ## Failures without positions -/

/-- A failure without its position. -/
def Failure.bare : Failure → Failure
  | .lexical d => .lexical (d.relabel .forget)
  | .syntactic d => .syntactic (d.relabel .forget)
  | .scoping d => .scoping (d.relabel .forget)
  | .running d => .running (d.relabel .forget)
  | .outOfFuel => .outOfFuel

/-- What came of a source that was read, without positions. -/
def bareResult (result : Except Failure Program) : Except Failure Program :=
  (result.map Program.bare).mapError Failure.bare

/-- Without places a program is accepted, or rejected for the same reason. -/
theorem checkProgram_bare (p : Program) :
    (checkProgram p.bare).result = bareResult (checkProgram p).result := by
  have hnatural := Check.program_natural (f := .forget) p .initial
  rw [Statement.relabelList_forget] at hnatural
  unfold checkProgram
  rw [Program.bare, hnatural]
  cases Check.program p .initial <;> rfl

/-! ## Runs without positions -/

/-- All four stages, on any machine and for any number of steps. -/
def runFor (fuel : Nat) (source : String) (m : Machine) : Option Failure × Machine :=
  match (check source).result with
  | .ok p => m.executeFor fuel p
  | .error failure => (some failure, m)

/-- Ends of runs that are the same but for positions. -/
structure RunsAlike (x y : Option Failure × Machine) : Prop where
  failure : x.1.map Failure.bare = y.1.map Failure.bare
  output : x.2.output = y.2.output
  globals : x.2.globals = y.2.globals
  events : x.2.events = y.2.events

theorem RunsAlike.of_common {x y z : Option Failure × Machine} (hy : RunsAlike x y)
    (hz : RunsAlike x z) : RunsAlike z y :=
  ⟨hz.failure.symm.trans hy.failure, hz.output.symm.trans hy.output,
    hz.globals.symm.trans hy.globals, hz.events.symm.trans hy.events⟩

/-- Without places a program runs in the same way. -/
theorem Machine.executeFor_bare (fuel : Nat) {m : Machine} (hempty : m.stack.frames = #[])
    (p : Program) : RunsAlike (m.executeFor fuel p.bare) (m.executeFor fuel p) := by
  have hsame : m.relabel .forget = m := by
    rw [Machine.relabel, Stack.relabel, hempty, Array.map_empty, ← hempty]
  have hnatural := Exec.program_natural (f := .forget) fuel p m
  rw [← Statement.relabelList_eq_map, Statement.relabelList_forget, hsame] at hnatural
  unfold executeFor
  rw [Program.bare, hnatural]
  cases Exec.program fuel p m with
  | ok _ after => exact ⟨rfl, rfl, rfl, rfl⟩
  | error halt after =>
    refine ⟨?_, rfl, rfl, rfl⟩
    cases halt <;> rfl

/-! ## Sources -/

/-- The text of a program that fits in the room there is for open constructs is read as that
program, up to places. -/
theorem Program.reads_text {p : Program} (hfits : Statement.FitsList p nestingLimit) :
    ∃ p', read p.text = .ok p' ∧ p'.bare = p.bare := by
  obtain ⟨ts, htokenize, hkinds⟩ := Program.tokenize_text hfits
  simp only [List.map_eq_append_iff, List.map_eq_cons_iff, List.map_eq_nil_iff] at hkinds
  obtain ⟨us, _, rfl, hus, stop, _, rfl, hstop, rfl⟩ := hkinds
  obtain ⟨p', hbare, hderived⟩ := Statement.derives_list p hfits us hus
  have hprogram : Parser.program (us ++ [stop]) = .ok (p', []) :=
    Parser.program_eq_ok_iff.mpr ⟨us, stop, rfl, hstop, hderived⟩
  exact ⟨p', read_eq_ok.mpr ⟨_, htokenize, parse_eq_ok.mpr ⟨[], hprogram⟩⟩, hbare⟩

/-- Sources that are accepted alike, or rejected for the same reason, run alike. -/
theorem runFor_alike {source source' : String}
    (hcheck : bareResult (check source').result = bareResult (check source).result) (fuel : Nat)
    {m : Machine} (hempty : m.stack.frames = #[]) :
    RunsAlike (runFor fuel source' m) (runFor fuel source m) := by
  unfold runFor
  cases hresult : (check source).result with
  | error failure =>
    cases hresult' : (check source').result with
    | error failure' =>
      rw [hresult, hresult'] at hcheck
      exact ⟨congrArg some (Except.error.inj hcheck), rfl, rfl, rfl⟩
    | ok p' =>
      rw [hresult, hresult'] at hcheck
      cases hcheck
  | ok p =>
    cases hresult' : (check source').result with
    | error failure' =>
      rw [hresult, hresult'] at hcheck
      cases hcheck
    | ok p' =>
      rw [hresult, hresult'] at hcheck
      have hbare : p'.bare = p.bare := Except.ok.inj hcheck
      have hruns := m.executeFor_bare fuel hempty p'
      rw [hbare] at hruns
      exact (m.executeFor_bare fuel hempty p).of_common hruns

/-- A run on a fresh machine is one for an ample number of steps. -/
theorem run_eq (source : String) (limit : Nat) :
    (run source limit).output =
        (runFor Exec.ample source (.initial limit none)).2.output.text ∧
      (run source limit).failure = (runFor Exec.ample source (.initial limit none)).1 := by
  have hexecute : ∀ p, (Machine.initial limit none).execute p =
      (Machine.initial limit none).executeFor Exec.ample p := fun _ => rfl
  unfold run runFor
  obtain ⟨events, result⟩ := check source
  cases result with
  | error failure => exact ⟨rfl, rfl⟩
  | ok p =>
    dsimp only
    rw [← hexecute]
    obtain ⟨failure, after⟩ := (Machine.initial limit none).execute p
    exact ⟨rfl, rfl⟩

/-- So do whole runs on fresh machines. -/
theorem run_alike {source source' : String}
    (hcheck : bareResult (check source').result = bareResult (check source).result)
    (limit : Nat) :
    (run source' limit).output = (run source limit).output ∧
      (run source' limit).failure.map Failure.bare =
        (run source limit).failure.map Failure.bare := by
  have hruns := runFor_alike hcheck Exec.ample (m := .initial limit none) rfl
  obtain ⟨houtput, hfailure⟩ := run_eq source limit
  obtain ⟨houtput', hfailure'⟩ := run_eq source' limit
  rw [houtput, houtput', hfailure, hfailure']
  exact ⟨congrArg Output.text hruns.output, hruns.failure⟩

/-- A source and the text of its program mean the same. Both are accepted, as the same program up to
places, or both are rejected for the same reason. For any number of steps and from any state in
which nothing runs, both have printed the same and left the same variables, and both are at their
end, or both have halted for the same reason, or neither is done; so one goes on forever exactly if
the other does. -/
theorem text_means_same {source : String} {ts : List Token} {p : Program}
    (htokenize : tokenize source = .ok ts) (hparse : parse ts = .ok p) :
    bareResult (check p.text).result = bareResult (check source).result ∧
    (∀ fuel m, m.stack.frames = #[] → RunsAlike (runFor fuel p.text m) (runFor fuel source m)) ∧
    ∀ limit, (run p.text limit).output = (run source limit).output ∧
      (run p.text limit).failure.map Failure.bare =
        (run source limit).failure.map Failure.bare := by
  obtain ⟨_, hprogram⟩ := parse_eq_ok.mp hparse
  obtain ⟨before, stop, rfl, _, hderived⟩ := Parser.program_eq_ok_iff.mp hprogram
  have hreadable := (List.forall_mem_append.mp (readable_of_tokenize htokenize)).1
  obtain ⟨p', hread', hbare⟩ := Program.reads_text (hderived.fits hreadable)
  have hcheck : bareResult (check p.text).result = bareResult (check source).result := by
    rw [check_of_read (read_eq_ok.mpr ⟨_, htokenize, hparse⟩), check_of_read hread',
      ← checkProgram_bare, ← checkProgram_bare, hbare]
  exact ⟨hcheck, fun _ _ hempty => runFor_alike hcheck _ hempty, run_alike hcheck⟩

/-- Another layout: the same text is printed before the same division by zero. -/
theorem text_means_same_division : ∃ ts p,
    tokenize "var(int) x=0;;\n while((x<2)) \x7bx+=1;print( x );\x7d\nprint(1//(x-2));" = .ok ts ∧
    parse ts = .ok p ∧
    p.text ≠ "var(int) x=0;;\n while((x<2)) \x7bx+=1;print( x );\x7d\nprint(1//(x-2));" ∧
    (runFor 60 p.text (.initial 5 none)).2.output.text = "1\n2\n" ∧
    (runFor 60 p.text (.initial 5 none)).1.map Failure.bare =
      some (.running ⟨.divisionByZero, .nowhere⟩) := by
  obtain ⟨ts, p, htokenize, hparse, hother⟩ := exists_read
    "var(int) x=0;;\n while((x<2)) \x7bx+=1;print( x );\x7d\nprint(1//(x-2));" rfl
    (fun p => p.text ≠
      "var(int) x=0;;\n while((x<2)) \x7bx+=1;print( x );\x7d\nprint(1//(x-2));")
    (by decide +kernel)
  have hruns := (text_means_same htokenize hparse).2.1 60 (.initial 5 none) rfl
  refine ⟨ts, p, htokenize, hparse, of_decide_eq_true hother, ?_, ?_⟩
  · rw [hruns.output]
    decide +kernel
  · rw [hruns.failure]
    decide +kernel

end ScopedScript
