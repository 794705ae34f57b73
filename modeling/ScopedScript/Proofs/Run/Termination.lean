import ScopedScript.Proofs.Number.Progression
import ScopedScript.Proofs.Run.Regime
import ScopedScript.Proofs.Session
import ScopedScript.Proofs.Tree.Measure

/-!
# Which programs come to an end

Fuel bounds how deeply rules nest and how many rounds a `while` loop makes. A run that does not use
it up is the same with more.

A program without `while` loops comes to an end whatever it does. Rules nest along the tree, which
has a height, until a call jumps to the body of a function; then fewer calls are left. Frames hold
functions of the program alone, so no body is higher than the program. A `for` loop visits values
that were counted beforehand, and what its body does has no influence on them.
-/

namespace ScopedScript

/-! ## What a `for` loop visits -/

/-- Behind the value to visit next there is one less. -/
theorem Sequence.remaining_of_next? {visited rest : Sequence} {v : Value}
    (h : visited.next? = some (v, rest)) : visited.remaining = rest.remaining + 1 := by
  cases visited with
  | integers p =>
    obtain ⟨found, hnext, heq⟩ := Option.map_eq_some_iff.mp h
    cases heq
    exact Progression.remaining_of_next? hnext
  | characters cs =>
    cases cs with
    | nil => cases h
    | cons c cs =>
      cases h
      rfl

namespace Exec

theorem forRounds_of_none {exec : Statement → Exec Flow} {d : Declarator} {type : Ty}
    {body : List Statement} {visited : Sequence} (h : visited.next? = none) (count : Nat) :
    forRounds exec d type body count visited = pure .normal := by
  cases count with
  | zero => rfl
  | succ count => simp only [forRounds, h]

/-- No `for` loop is cut short: it makes as many rounds as there are values. -/
theorem forRounds_eq_of_remaining_le (exec : Statement → Exec Flow) (d : Declarator) (type : Ty)
    (body : List Statement) {count : Nat} {visited : Sequence} (h : visited.remaining ≤ count) :
    forRounds exec d type body count visited =
      forRounds exec d type body visited.remaining visited := by
  induction count generalizing visited with
  | zero => rw [Nat.le_zero.mp h]
  | succ count ih =>
    cases hnext : visited.next? with
    | none => rw [forRounds_of_none hnext, forRounds_of_none hnext]
    | some found =>
      have hremaining := Sequence.remaining_of_next? hnext
      rw [hremaining]
      have hrest : found.2.remaining ≤ count := by omega
      simp only [forRounds, hnext, ih hrest]

/-! ## More fuel -/

theorem Follows.trans {α : Type} {halt : Halt} {x y z : Exec α} (h : Follows halt False x y)
    (h' : Follows halt False y z) : Follows halt False x z := by
  intro m
  obtain heq | ⟨after, heq, _⟩ := h m
  · rw [heq]
    exact h' m
  · exact .inr ⟨after, heq, False.elim⟩

theorem whileRounds_follows (eval : Expr → Exec (Option Value)) (exec : Statement → Exec Flow)
    (e : Expr) (body : List Statement) (fuel : Nat) :
    Follows .outOfFuel False (whileRounds eval exec e body fuel)
      (whileRounds eval exec e body (fuel + 1)) := by
  induction fuel with
  | zero => exact fun m => .inr ⟨m, rfl, False.elim⟩
  | succ fuel ih =>
    refine (Follows.refl (condition eval e)).bind fun b => ?_
    cases b with
    | false => exact .refl _
    | true =>
      refine (Follows.refl (inFrame "while" .whileRound (block exec body))).bind fun flow => ?_
      cases flow with
      | normal | continued => exact ih
      | broken | returned v => exact .refl _

theorem execStep_follows (eval : Expr → Exec (Option Value)) (exec : Statement → Exec Flow)
    (fuel : Nat) (s : Statement) :
    Follows .outOfFuel False (execStep eval exec fuel s) (execStep eval exec (fuel + 1) s) := by
  cases s with
  | whileLoop e body token => exact whileRounds_follows eval exec e body fuel
  | returnFrom value token => cases value <;> exact .refl _
  | _ => exact .refl _

/-- More fuel changes nothing, unless a run is out of it. -/
theorem fuel_follows (fuel : Nat) :
    (∀ e, Follows .outOfFuel False (eval fuel e) (eval (fuel + 1) e)) ∧
      ∀ s, Follows .outOfFuel False (exec fuel s) (exec (fuel + 1) s) := by
  have h := follows_respects .outOfFuel False
  induction fuel with
  | zero =>
    exact ⟨fun _ m => .inr ⟨m, rfl, False.elim⟩, fun _ m => .inr ⟨m, rfl, False.elim⟩⟩
  | succ fuel ih =>
    obtain ⟨heval, hexec⟩ := ih
    constructor
    · intro e
      exact evalStep_rel h.evaluation h.load (call_rel h heval hexec) fun part _ => heval part
    · intro s
      exact (execStep_rel h heval hexec fuel s).trans (execStep_follows _ _ fuel s)

/-- So an evaluation that yields something yields it with more, too. -/
theorem eval_of_le {fuel more : Nat} (hle : fuel ≤ more) {e : Expr} {v : Option Value}
    {m after : Machine} (h : eval fuel e m = .ok v after) : eval more e m = .ok v after := by
  induction hle with
  | refl => exact h
  | @step more _ ih =>
    obtain heq | ⟨last, heq, _⟩ := (fuel_follows more).1 e m
    · exact heq.symm.trans ih
    · exact nomatch heq.symm.trans ih

theorem program_follows (fuel : Nat) (p : Program) :
    Follows .outOfFuel False (program fuel p) (program (fuel + 1) p) :=
  programBy_follows (fuel_follows fuel).2 p

/-- A run that is not out of fuel is the same with more. -/
theorem program_eq_of_le {fuel more : Nat} (hle : fuel ≤ more) {p : Program} {m : Machine}
    (h : ∀ last, program fuel p m ≠ .error .outOfFuel last) :
    program more p m = program fuel p m := by
  obtain ⟨extra, rfl⟩ := Nat.exists_eq_add_of_le hle
  clear hle
  induction extra with
  | zero => rfl
  | succ extra ih =>
    obtain heq | ⟨after, heq, _⟩ := program_follows (fuel + extra) p m
    · exact heq.symm.trans ih
    · exact absurd (ih.symm.trans heq) (h after)

/-! ## Enough fuel -/

theorem fault_ne_outOfFuel (d : Diagnostic RuntimeFault) : Halt.fault d ≠ .outOfFuel := nofun

/-- Runs in which frames hold functions that are not too high and have no `while` loops. They do not
run out of fuel. -/
def ending (height limit : Nat) : Regime where
  limit := limit
  function decl := decl.height ≤ height ∧ decl.whileFree
  event _ := True
  halt reason := reason ≠ .outOfFuel
  popped _ _ _ _ := trivial
  fault := fault_ne_outOfFuel

/-- Enough fuel is the height of a tree and that of a function for each call that is left. -/
theorem run_ends (height limit fuel : Nat) : ∀ kinds calls,
    (∀ e : Expr, e.height + height * (limit - calls) ≤ fuel →
      (ending height limit).Keeps kinds calls (eval fuel e) (eval fuel e)) ∧
    ∀ s : Statement, s.whileFree → s.height ≤ height →
      s.height + height * (limit - calls) ≤ fuel →
        (ending height limit).Keeps kinds calls (exec fuel s) (exec fuel s) := by
  induction fuel with
  | zero =>
    intro kinds calls
    constructor
    · intro e hfuel
      have hpos := e.height_pos
      omega
    · intro s _ _ hfuel
      have hpos := s.height_pos
      omega
  | succ fuel ih =>
    intro kinds calls
    have hoperates := keeps_operates (ending height limit) kinds calls
    constructor
    · intro e hfuel
      refine evalStep_keep hoperates.evaluation keeps_load ?_ ?_
      · intro name arguments position
        refine keeps_call (fun _ _ _ _ => trivial) (fun _ _ => trivial) fun decl hdecl hcalls => ?_
        obtain ⟨hheight, hfree⟩ := hdecl
        obtain ⟨heval, hexec⟩ := ih (kinds ++ [.function]) (calls + 1)
        have hleft : height * (limit - calls) = height * (limit - (calls + 1)) + height :=
          mul_sub_succ height hcalls
        have hpos := e.height_pos
        refine inside_keep (keeps_operates _ _ _) ?_ ?_ arguments position
        · intro part hpart
          have hlow := decl.height_parts part hpart
          exact heval part (by omega)
        · intro s hs
          have hlow := decl.height_body s hs
          exact hexec s (FunctionDecl.whileFree_body hfree s hs) (by omega) (by omega)
      · intro part hpart
        have hlow := e.height_parts part hpart
        exact (ih kinds calls).1 part (by omega)
    · intro s hfree hheight hfuel
      have hparts : ∀ e ∈ s.parts,
          (ending height limit).Keeps kinds calls (eval fuel e) (eval fuel e) := by
        intro e he
        have hlow := s.height_parts e he
        exact (ih kinds calls).1 e (by omega)
      cases hs : s.isCompound with
      | true =>
        refine compoundStep_keep (keeps_encloses fun _ _ _ => trivial) fuel hs hparts ?_ ?_
        · intro s' hs' kind _
          have hlow := s.height_inner s' hs'
          exact (ih (kinds ++ [kind]) calls).2 s' (Statement.whileFree_inner hfree s' hs')
            (by omega) (by omega)
        · rintro e body token rfl
          cases hfree
      | false =>
        refine plainStep_keep hoperates fuel hs hparts ?_
        rintro decl rfl
        have hlow := Statement.height_function decl
        exact keeps_declareFunction ⟨by omega, hfree⟩

/-- A program without `while` loops is not out of fuel if there is enough for its height. -/
theorem program_ends {p : Program} (hp : Program.whileFree p) {m : Machine}
    (hempty : m.stack.frames = #[]) {fuel : Nat}
    (hfuel : Program.height p * (m.maxCallDepth - m.callDepth + 1) ≤ fuel) (last : Machine) :
    program fuel p m ≠ .error .outOfFuel last := by
  let G := ending (Program.height p) m.maxCallDepth
  have hstart : G.At [] m.callDepth m := .of_empty hempty rfl fun _ _ => trivial
  have hentered : G.At [.global] m.callDepth (m.pushFrame "global" .global) :=
    hstart.pushFrame fun _ => trivial
  have hblock : G.Keeps [.global] m.callDepth (block (exec fuel) p) (block (exec fuel) p) := by
    refine block_keep (keeps_combines G _ _) fun s hs => ?_
    have hheight : s.height ≤ Program.height p := Statement.height_le_of_mem hs
    rw [Nat.mul_succ] at hfuel
    exact (run_ends _ _ fuel _ _).2 s (Statement.whileFreeList_iff.mp hp s hs) hheight (by omega)
  have hends := (hblock _ hentered).2
  unfold program programBy
  cases hrun : block (exec fuel) p (m.pushFrame "global" .global) with
  | ok flow after => exact nofun
  | error reason after =>
    rw [hrun] at hends
    intro heq
    cases heq
    exact hends.1 rfl

end Exec

open Exec in
/-- Programs without `while` loops come to an end. From a state in which nothing runs, whatever was
printed before and however many calls can be under way, there is one way in which such a program
ends, with or without a fault, and it ends in that way whenever there is fuel for its height, once
for itself and once for every call that can be under way. Nor is a `for` loop cut short: more rounds
than there are values change nothing. -/
theorem whileFree_terminates {p : Program} (hp : Program.whileFree p) {m : Machine}
    (hempty : m.stack.frames = #[]) :
    (∃ result : EStateM.Result Halt Machine Unit, (∀ last, result ≠ .error .outOfFuel last) ∧
      ∀ fuel ≥ Program.height p * (m.maxCallDepth - m.callDepth + 1), program fuel p m = result) ∧
    ∀ exec d type body visited count, visited.remaining ≤ count →
      forRounds exec d type body count visited =
        forRounds exec d type body visited.remaining visited := by
  have hends := program_ends hp hempty (Nat.le_refl _)
  refine ⟨⟨_, hends, fun fuel hfuel => program_eq_of_le hfuel hends⟩, ?_⟩
  intro exec d type body visited count
  exact forRounds_eq_of_remaining_le exec d type body

/-- A function that calls itself in a loop and in a default ends at the limit of calls. -/
theorem whileFree_terminates_recursion : ∃ p, ∃ d : Diagnostic RuntimeFault, ∃ last,
    read "func(int) f(var(int) n = f(1)) { for var(int) i in 0:n { f(); } return n; } f();" =
      .ok p ∧
    Program.whileFree p ∧ d.cause = .recursionLimit 3 ∧
    ∀ fuel ≥ Program.height p * 4,
      Exec.program fuel p (.initial 3 none) = .error (.fault d) last := by
  obtain ⟨ts, p, htokenize, hparse, hends⟩ := exists_read
    "func(int) f(var(int) n = f(1)) { for var(int) i in 0:n { f(); } return n; } f();" rfl
    (fun p => Program.whileFree p &&
      match Exec.program (Program.height p * 4) p (.initial 3 none) with
      | .error (.fault d) _ => decide (d.cause = .recursionLimit 3)
      | _ => false) (by decide +kernel)
  rw [Bool.and_eq_true] at hends
  obtain ⟨hfree, hfault⟩ := hends
  obtain ⟨⟨result, _, hresult⟩, _⟩ := whileFree_terminates hfree (m := .initial 3 none) rfl
  rw [hresult (Program.height p * 4) (Nat.le_refl _)] at hfault
  match result, hfault with
  | .error (.fault d) last, hcause =>
    exact ⟨p, d, last, read_eq_ok.mpr ⟨ts, htokenize, hparse⟩, hfree, of_decide_eq_true hcause,
      hresult⟩

end ScopedScript
