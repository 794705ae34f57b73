import ScopedScript.Proofs.Run.Regime
import ScopedScript.Proofs.Scoping.Jumps
import ScopedScript.Proofs.Session

/-!
# Where jumps go

A statement that does not end normally ends what is around it, up to a loop or a call, which takes
the jump in. If every jump of a program has somewhere to go from its site, none gets further than
that: a loop takes in what would leave it or begin its next round, and a call what would leave its
function. So a statement ends only in ways that its site permits, however it came to be executed
and whatever is on the stack.

What is executed when a program runs are its own statements and the bodies of its own functions, at
every moment of the run. So the same is true of every statement and every call of the run.
-/

namespace ScopedScript

/-! ## Ends of statements -/

namespace Site

/-- How a statement can end at its site: a jump is on its way out of a loop or a function that is
there. -/
def Permits (site : Site) : Flow → Prop
  | .normal => True
  | .broken | .continued => site.inLoop
  | .returned value => ∃ decl, site.function = some decl ∧ value.isSome = decl.returns.type.isSome

/-- The site as far as jumps out of a statement are concerned: they are out of a loop already, if
the statement is one. -/
def behind (site : Site) (s : Statement) : Site :=
  { site with inLoop := !s.isLoop && site.inLoop }

variable {site : Site} {flow : Flow}

theorem Permits.mono (h : site.Permits flow) {site' : Site}
    (hloop : site.inLoop → site'.inLoop) (hfunction : site'.function = site.function) :
    site'.Permits flow := by
  cases flow with
  | normal => trivial
  | broken | continued => exact hloop h
  | returned value =>
    obtain ⟨decl, hdecl, hvalue⟩ := h
    exact ⟨decl, hfunction.trans hdecl, hvalue⟩

theorem Permits.of_behind {s : Statement} (h : (site.behind s).Permits flow) :
    site.Permits flow :=
  h.mono (fun hloop => (Bool.and_eq_true_iff.mp hloop).2) rfl

/-- No jump of a loop's own leaves the loop. -/
theorem Permits.of_loop {s : Statement} (hs : s.isLoop) (h : (site.behind s).Permits flow) :
    flow ≠ .broken ∧ flow ≠ .continued := by
  have hout : (site.behind s).inLoop = false := by rw [behind, hs, Bool.not_true, Bool.false_and]
  constructor
  · rintro rfl
    exact Bool.false_ne_true (hout.symm.trans h)
  · rintro rfl
    exact Bool.false_ne_true (hout.symm.trans h)

theorem Permits.of_program (h : program.Permits flow) : flow = .normal := by
  cases flow with
  | normal => rfl
  | broken | continued => cases h
  | returned value =>
    obtain ⟨decl, hdecl, -⟩ := h
    cases hdecl

theorem Permits.of_call {decl : FunctionDecl} (h : (call decl).Permits flow) :
    flow = .normal ∨ ∃ value, flow = .returned value ∧
      value.isSome = decl.returns.type.isSome := by
  cases flow with
  | normal => exact .inl rfl
  | broken | continued => cases h
  | returned value =>
    obtain ⟨other, hdecl, hvalue⟩ := h
    obtain rfl : decl = other := Option.some.inj hdecl
    exact .inr ⟨value, rfl, hvalue⟩

end Site

namespace Exec

/-- A run that ends, ends as it is permitted at a site. -/
def EndsAt (site : Site) (x : Exec Flow) : Prop :=
  ∀ m flow last, x m = .ok flow last → site.Permits flow

section EndsAt

variable {site : Site}

theorem endsAt_pure {flow : Flow} (h : site.Permits flow) : EndsAt site (pure flow) := by
  intro m flow' last hrun
  obtain ⟨rfl, -⟩ := EStateM.Result.ok.inj hrun
  exact h

theorem endsAt_halt (halt : Halt) : EndsAt site (throw halt) := by
  intro m flow last hrun
  cases hrun

/-- How a run in two steps ends is up to the second. -/
theorem endsAt_bind {α : Type} {x : Exec α} {f : α → Exec Flow}
    (hf : ∀ m a after, x m = .ok a after → EndsAt site (f a)) : EndsAt site (x >>= f) := by
  intro m flow last hrun
  rw [bind_apply] at hrun
  cases hx : x m with
  | ok a after =>
    rw [hx] at hrun
    exact hf m a after hx after flow last hrun
  | error halt after =>
    rw [hx] at hrun
    cases hrun

theorem endsAt_then {α : Type} (x : Exec α) {f : α → Exec Flow} (hf : ∀ a, EndsAt site (f a)) :
    EndsAt site (x >>= f) :=
  endsAt_bind fun _ a _ _ => hf a

theorem EndsAt.inFrame {x : Exec Flow} (h : EndsAt site x) (name : String) (kind : FrameKind) :
    EndsAt site (inFrame name kind x) := by
  intro m flow last hrun
  unfold Exec.inFrame bracket at hrun
  cases hx : x (m.pushFrame name kind) with
  | ok _ after =>
    rw [hx] at hrun
    obtain ⟨rfl, -⟩ := EStateM.Result.ok.inj hrun
    exact h _ _ _ hx
  | error halt after =>
    rw [hx] at hrun
    cases hrun

/-- A loop takes in the jumps of its body, other than those out of the function. -/
theorem endsAt_round {s : Statement} {round next : Exec Flow}
    (hround : EndsAt (site.inside s) round) (hnext : EndsAt (site.behind s) next) :
    EndsAt (site.behind s) (round >>= fun flow => match flow with
      | .broken => pure .normal
      | .returned v => pure (.returned v)
      | .normal | .continued => next) := by
  refine endsAt_bind fun m flow after hflow => ?_
  cases flow with
  | normal | continued => exact hnext
  | broken => exact endsAt_pure trivial
  | returned v =>
    have hreturned : (site.inside s).Permits (.returned v) := hround _ _ _ hflow
    exact endsAt_pure hreturned

end EndsAt

/-! ## Statements -/

section Rules

variable {site : Site} {eval : Expr → Exec (Option Value)} {exec : Statement → Exec Flow}
  {body : List Statement}

theorem block_endsAt (hbody : ∀ s ∈ body, EndsAt site (exec s)) :
    EndsAt site (block exec body) := by
  induction body with
  | nil => exact endsAt_pure trivial
  | cons s body ih =>
    rw [List.forall_mem_cons] at hbody
    refine endsAt_bind fun m flow after hflow => ?_
    have hpermits := hbody.1 m flow after hflow
    cases flow with
    | normal => exact ih hbody.2
    | _ => exact endsAt_pure hpermits

theorem alternative_endsAt {otherwise : Alternative}
    (hinner : ∀ s ∈ otherwise.inner, EndsAt site (exec s)) :
    EndsAt site (alternative eval exec otherwise) := by
  induction otherwise using alternative.induct with
  | case1 => exact endsAt_pure trivial
  | case2 e body rest ih =>
    rw [Alternative.inner, List.forall_mem_append] at hinner
    refine endsAt_then _ fun b => ?_
    cases b with
    | true => exact (block_endsAt hinner.1).inFrame _ _
    | false => exact ih hinner.2
  | case3 body => exact (block_endsAt hinner).inFrame _ _

theorem whileRounds_endsAt {s : Statement} (e : Expr)
    (hbody : ∀ s' ∈ body, EndsAt (site.inside s) (exec s')) (fuel : Nat) :
    EndsAt (site.behind s) (whileRounds eval exec e body fuel) := by
  induction fuel with
  | zero => exact endsAt_halt _
  | succ fuel ih =>
    refine endsAt_then _ fun b => ?_
    cases b with
    | true => exact endsAt_round ((block_endsAt hbody).inFrame _ _) ih
    | false => exact endsAt_pure trivial

theorem forRounds_endsAt {s : Statement} (loopVar : Declarator) (type : Ty)
    (hbody : ∀ s' ∈ body, EndsAt (site.inside s) (exec s')) (count : Nat) (visited : Sequence) :
    EndsAt (site.behind s) (forRounds exec loopVar type body count visited) := by
  induction count generalizing visited with
  | zero => exact endsAt_pure trivial
  | succ count ih =>
    unfold forRounds
    cases visited.next? with
    | none => exact endsAt_pure trivial
    | some found =>
      exact endsAt_then _ fun _ => endsAt_then _ fun _ =>
        endsAt_round (block_endsAt hbody) (ih found.2)

theorem forLoop_endsAt {s : Statement} (loopVariable : VarDecl) (iterable : Expr)
    (hbody : ∀ s' ∈ body, EndsAt (site.inside s) (exec s')) (position : Position) :
    EndsAt (site.behind s) (forLoop eval exec loopVariable iterable body position) := by
  unfold forLoop
  cases loopVariable.declarators with
  | nil => exact endsAt_halt _
  | cons d ds =>
    exact endsAt_then _ fun visited => (forRounds_endsAt d _ hbody _ visited).inFrame _ _

/-- A statement ends as its site permits if what is right inside does. -/
theorem execStep_endsAt (fuel : Nat) {s : Statement} (hs : s.Stands site)
    (hinner : ∀ s' ∈ s.inner, EndsAt (site.inside s) (exec s')) :
    EndsAt (site.behind s) (execStep eval exec fuel s) := by
  cases s with
  | empty => exact endsAt_pure trivial
  | declaration decl => exact endsAt_then _ fun _ => endsAt_pure trivial
  | assignment target op value token => exact endsAt_then _ fun _ => endsAt_pure trivial
  | conditional e body otherwise token =>
    rw [Statement.inner, List.forall_mem_append] at hinner
    refine endsAt_then _ fun b => ?_
    cases b with
    | true => exact (block_endsAt hinner.1).inFrame _ _
    | false => exact alternative_endsAt hinner.2
  | whileLoop e body token => exact whileRounds_endsAt e hinner fuel
  | forLoop loopVariable iterable body token =>
    exact forLoop_endsAt loopVariable iterable hinner _
  | breakLoop token | continueLoop token =>
    refine endsAt_pure ?_
    exact hs
  | returnFrom value token =>
    cases value with
    | none =>
      refine endsAt_pure ?_
      exact hs
    | some e =>
      refine endsAt_then _ fun v => endsAt_pure ?_
      exact hs
  | function decl => exact endsAt_then _ fun _ => endsAt_pure trivial
  | expression e => exact endsAt_then _ fun _ => endsAt_pure trivial

/-- Statements end as their sites permit, if all jumps of the program have somewhere to go. -/
theorem exec_endsAt {p : Program} (hstands : ∀ site s, p.Contains site s → s.Stands site)
    (fuel : Nat) {s : Statement} (hs : p.Contains site s) :
    EndsAt (site.behind s) (Exec.exec fuel s) := by
  induction fuel generalizing site s with
  | zero => exact endsAt_halt _
  | succ fuel ih =>
    refine execStep_endsAt fuel (hstands site s hs) fun s' hs' => ?_
    exact fun m flow last hrun => (ih (.inner hs hs') m flow last hrun).of_behind

/-- What a call comes to when the body of its function has ended as it can: it lacks a value only
if the body came to its end and the function returns one. -/
theorem result_missing_iff {decl : FunctionDecl} {flow : Flow} (h : (Site.call decl).Permits flow)
    (position : Position) (m : Machine) :
    (∃ last, result decl position flow m =
        .error (.fault ⟨.missingReturnValue decl.name, position⟩) last) ↔
      flow = .normal ∧ decl.returns.type.isSome := by
  unfold result
  obtain rfl | ⟨value, rfl, hvalue⟩ := h.of_call
  · cases decl.returns.type with
    | none => exact iff_of_false nofun nofun
    | some type => exact iff_of_true ⟨m, rfl⟩ ⟨rfl, rfl⟩
  · refine iff_of_false ?_ nofun
    rintro ⟨last, hlast⟩
    match htype : decl.returns.type, value with
    | none, none =>
      rw [htype] at hlast
      cases hlast
    | some type, some v =>
      simp only [htype, bind_apply, coerce] at hlast
      cases hcoerce : v.coerce? type <;> rw [hcoerce] at hlast <;> cases hlast
    | none, some _ | some _, none =>
      rw [htype] at hvalue
      cases hvalue

end Rules

end Exec

/-! ## What belongs to a program -/

/-- At a moment of a run the statement that is executed is one of a program, and so are all functions
that the stack holds. -/
structure Program.Owns (p : Program) (moment : Moment) (m : Machine) : Prop where
  statement : ∀ s, moment = .before (.statement s) ∨ moment = .after (.statement s) →
    ∃ site, p.Contains site s
  functions : m.stack.HasOnly p.Declares

namespace Exec

open Regime

/-- Runs in which frames hold functions of a program. -/
def owned (p : Program) (limit : Nat) : Regime where
  limit := limit
  function := p.Declares
  event _ := True
  halt _ := True
  popped _ _ _ _ := trivial
  fault _ := trivial

section Owned

variable {p : Program} {limit : Nat}

/-- The regime is about functions, not about how runs halt. -/
theorem owned_halts (p : Program) (limit : Nat) (halt : Halt) : (owned p limit).halt halt := trivial

variable {kinds : List FrameKind} {calls : Nat} (halt : Halt)

theorem pass_owned {moment : Moment}
    (h : ∀ s, moment = .before (.statement s) ∨ moment = .after (.statement s) →
      ∃ site, p.Contains site s) :
    (owned p limit).Keeps kinds calls (pass (fun moment m => ¬ p.Owns moment m) halt moment)
      (pure ()) :=
  fun _ hm => ⟨pass_apply (not_not_intro ⟨h, hm.functions⟩), hm⟩

theorem watched_owned {task : Task} (htask : ∀ s, task = .statement s → ∃ site, p.Contains site s)
    {α : Type} {x y : Exec α} (h : (owned p limit).Keeps kinds calls x y) :
    (owned p limit).Keeps kinds calls
      (watched (fun moment m => ¬ p.Owns moment m) halt task x) y := by
  refine watched_rel (keeps_composes (owned_halts p limit) kinds calls) (pass_owned halt ?_)
    (pass_owned halt ?_) h
  all_goals
    rintro s (heq | heq) <;> cases heq
    exact htask s rfl

/-- What is executed and called in a run belongs to the program, if what is executed first does. -/
theorem until_owned (p : Program) (limit fuel : Nat) : ∀ kinds calls,
    (∀ e, (owned p limit).Keeps kinds calls
      (evalUntil (fun moment m => ¬ p.Owns moment m) halt fuel e) (eval fuel e)) ∧
    ∀ site s, p.Contains site s → (owned p limit).Keeps kinds calls
      (execUntil (fun moment m => ¬ p.Owns moment m) halt fuel s) (exec fuel s) := by
  induction fuel with
  | zero =>
    intro kinds calls
    have hcomposes := keeps_composes (owned_halts p limit) kinds calls
    exact ⟨fun _ => hcomposes.halt _, fun _ _ _ => hcomposes.halt _⟩
  | succ fuel ih =>
    intro kinds calls
    have heval := (ih kinds calls).1
    have hcomposes := keeps_composes (owned_halts p limit) kinds calls
    have hoperates := keeps_operates (owned p limit) kinds calls
    constructor
    · intro e
      refine watched_owned halt (by rintro s ⟨⟩) (evalStep_keep hoperates.evaluation keeps_load ?_
        fun part _ => heval part)
      intro name arguments position
      refine callUntil_rel hcomposes (pass_owned halt ?_)
        (keeps_call (fun _ _ _ _ => trivial) (fun _ _ => trivial) ?_)
      · rintro s (heq | heq) <;> cases heq
      · rintro decl ⟨site, hdecl⟩ _
        obtain ⟨heval, hexec⟩ := ih (kinds ++ [.function]) (calls + 1)
        exact inside_keep (keeps_operates _ _ _) (fun e _ => heval e)
          (fun s hs => hexec _ s (.body hdecl hs)) arguments position
    · intro site s hs
      have htask : ∀ s', Task.statement s = .statement s' → ∃ site, p.Contains site s' :=
        fun s' heq => ⟨site, Task.statement.inj heq ▸ hs⟩
      refine watched_owned halt htask ?_
      cases hcompound : s.isCompound with
      | true =>
        refine compoundStep_keep (keeps_encloses fun _ _ _ => trivial) fuel hcompound
          (fun e _ => heval e) ?_ fun _ _ _ _ => hcomposes.halt _
        exact fun s' hs' kind _ => (ih _ _).2 _ s' (.inner hs hs')
      | false =>
        refine plainStep_keep hoperates fuel hcompound (fun e _ => heval e) ?_
        rintro decl rfl
        exact keeps_declareFunction ⟨site, hs⟩

/-- What is executed and called when a program runs belongs to it, if there is nothing on the stack
at first. -/
theorem programUntil_owned {m : Machine} (hempty : m.stack.frames = #[]) (fuel : Nat) :
    programUntil (fun moment m => ¬ p.Owns moment m) halt fuel p m = program fuel p m := by
  have hstart : (owned p m.maxCallDepth).At [] m.callDepth m :=
    .of_empty hempty rfl fun _ _ => trivial
  have hentered : (owned p m.maxCallDepth).At [.global] m.callDepth
      (m.pushFrame "global" .global) := hstart.pushFrame fun _ => trivial
  have hexec := (until_owned halt p m.maxCallDepth fuel [.global] m.callDepth).2
  exact programBy_congr
    (block_keep (keeps_combines _ _ _) (fun s hs => hexec _ s (.top hs)) _ hentered).1

end Owned

end Exec

/-! ## Accepted programs -/

open Exec in
/-- Jumps stay in the loops and functions around them. Let a check that is in no loop and no function
find no fault with a program. Then every statement of the program, at every site at which it stands,
ends as the site permits: it leaves a loop or begins the next round only if it is in a loop of the
same function, and returns a value, or none, only inside of a function that returns one, or none. A
loop never ends in a jump that loops take in. So the statements of the program end normally, and
those of a function normally or with a return that carries a value exactly if the function returns
one; a call lacks a value exactly if they ended normally although the function returns one. All this
is so of every statement and every call of a run of the program: a run that is made to halt once
something else is executed, or could be called, is the plain one. -/
theorem jumps_contained {p : Program} {c checked : Checker} (htop : Site.program.Describes c)
    (hcheck : Check.program p c = .ok () checked) :
    (∀ site s, p.Contains site s → ∀ fuel m flow last, exec fuel s m = .ok flow last →
      site.Permits flow ∧ (s.isLoop → flow ≠ .broken ∧ flow ≠ .continued)) ∧
    (∀ fuel m flow last, block (exec fuel) p m = .ok flow last → flow = .normal) ∧
    (∀ decl, p.Declares decl → ∀ fuel m flow last, block (exec fuel) decl.body m = .ok flow last →
      (flow = .normal ∨
        ∃ value, flow = .returned value ∧ value.isSome = decl.returns.type.isSome) ∧
      ∀ position, (∃ after, result decl position flow last =
          .error (.fault ⟨.missingReturnValue decl.name, position⟩) after) ↔
        flow = .normal ∧ decl.returns.type.isSome) ∧
    ∀ m : Machine, m.stack.frames = #[] → ∀ halt fuel,
      programUntil (fun moment m => ¬ p.Owns moment m) halt fuel p m = program fuel p m := by
  have hnone : Check.fault? (Check.program p) c = none := by rw [Check.fault?, hcheck]
  have hstands : ∀ site s, p.Contains site s → s.Stands site :=
    fun site s => Check.stands_of_contains htop hnone
  have hends : ∀ fuel site s, p.Contains site s → EndsAt (site.behind s) (exec fuel s) :=
    fun fuel site s => exec_endsAt hstands fuel
  refine ⟨?_, ?_, ?_, fun m hempty halt fuel => programUntil_owned halt hempty fuel⟩
  · intro site s hs fuel m flow last hrun
    have hpermits := hends fuel site s hs m flow last hrun
    exact ⟨hpermits.of_behind, fun hloop => hpermits.of_loop hloop⟩
  · intro fuel m flow last hrun
    have hbody : ∀ s ∈ p, EndsAt .program (exec fuel s) :=
      fun s hs m flow last hrun => (hends fuel _ s (.top hs) m flow last hrun).of_behind
    exact (block_endsAt hbody m flow last hrun).of_program
  · rintro decl ⟨site, hdecl⟩ fuel m flow last hrun
    have hbody : ∀ s ∈ decl.body, EndsAt (.call decl) (exec fuel s) :=
      fun s hs m flow last hrun => (hends fuel _ s (.body hdecl hs) m flow last hrun).of_behind
    have hpermits := block_endsAt hbody m flow last hrun
    exact ⟨hpermits.of_call, fun position => result_missing_iff hpermits position last⟩

/-- A function inside of a loop has a loop of its own, and returns out of it. -/
theorem jumps_contained_nested : ∃ p checked,
    read "for var(int) i in 0:3 \x7b if i == 1 \x7b continue; \x7d
        func(int) f(var(int) n) \x7b while true \x7b n += 1; if n > 4 \x7b return n; \x7d \x7d \x7d
        if f(i) == 5 \x7b break; \x7d \x7d" = .ok p ∧
      Check.program p .initial = .ok () checked ∧
      ((Machine.initial 9 none).executeFor 60 p).1 = none ∧
      ∀ fuel m flow last, Exec.block (Exec.exec fuel) p m = .ok flow last → flow = .normal := by
  set_option maxRecDepth 2000 in
  obtain ⟨ts, p, htokenize, hparse, hholds⟩ := exists_read
    "for var(int) i in 0:3 \x7b if i == 1 \x7b continue; \x7d
        func(int) f(var(int) n) \x7b while true \x7b n += 1; if n > 4 \x7b return n; \x7d \x7d \x7d
        if f(i) == 5 \x7b break; \x7d \x7d" rfl
    (fun p => (checkProgram p).result.isOk &&
      ((Machine.initial 9 none).executeFor 60 p).1 = none) (by decide +kernel)
  obtain ⟨haccepted, hrun⟩ := Bool.and_eq_true_iff.mp hholds
  obtain ⟨checked, hcheck⟩ := isOk_checkProgram_iff.mp haccepted
  exact ⟨p, checked, read_eq_ok.mpr ⟨ts, htokenize, hparse⟩, hcheck, of_decide_eq_true hrun,
    (jumps_contained Site.describes_initial hcheck).2.1⟩

end ScopedScript
