import ScopedScript.Proofs.Resolution.Alignment

/-!
# Runs are tracked

A run of a program whose uses are known stays tracked: at every moment its stack is tracked at the
place of what is executed. So a run that is made to halt where a use does not meet what it should is
the plain one.

The proof goes along both runs at once. What runs in frames of its own, and every expression, leaves
the stack tracked because it changes no more than values; so only the ways from one place to the
next are left to be shown.

## Main definitions

* `Moment.AtUse` : what holds of the uses at a moment.
* `Exec.Same` : two runs that are the same from states in which something holds.
* `Exec.At` : the state is tracked at a place.
* `Exec.Retraces` : ways to evaluate and execute that are the same wherever uses are known.

## Main statements

* `Exec.execStep_same`, `Exec.call_same` : the rules.
* `Exec.until_retraces` : runs that are made to halt are the plain ones.
* `Exec.programUntil_eq` : so are those of whole programs.
* `Exec.not_meets_use` : what all uses of a run meet.
-/

namespace ScopedScript

/-- The use that is at hand is known and meets something: a variable that is read, or one that is
assigned once the assigned value is there. -/
def Moment.AtUse (uses : List Use) (meets : Use → Stack → Prop) (m : Machine) : Moment → Prop
  | .before (.expression (.var name token)) =>
    ∃ use ∈ uses, use.name = name ∧ use.token = token ∧ meets use m.stack
  | .before (.statement (.assignment target _ e token)) =>
    ∀ fuel v last, Exec.value (Exec.eval fuel) e m = .ok v last →
      ∃ use ∈ uses, use.name = target ∧ use.token = token ∧ meets use last.stack
  | _ => True

theorem Moment.AtUse.imp {uses : List Use} {meets meets' : Use → Stack → Prop} {m : Machine}
    {moment : Moment} (h : moment.AtUse uses meets m)
    (himp : ∀ use ∈ uses, ∀ stack, meets use stack → meets' use stack) :
    moment.AtUse uses meets' m := by
  unfold AtUse at h ⊢
  split at h
  next name token =>
    obtain ⟨use, huse, hname, htoken, hmeets⟩ := h
    exact ⟨use, huse, hname, htoken, himp use huse _ hmeets⟩
  next target op e token =>
    intro fuel v last hvalue
    obtain ⟨use, huse, hname, htoken, hmeets⟩ := h fuel v last hvalue
    exact ⟨use, huse, hname, htoken, himp use huse _ hmeets⟩
  next => trivial

namespace Exec

/-! ## Runs that are the same -/

/-- From states in which something holds two runs are the same, and where they come to their end
something holds. -/
def Same (pre post : Machine → Prop) {α : Type} (x y : Exec α) : Prop :=
  ∀ m, pre m → x m = y m ∧ ∀ a after, y m = .ok a after → post after

section Same

variable {α β : Type} {pre mid post : Machine → Prop}

theorem Same.pure (h : ∀ m, pre m → post m) (a : α) :
    Same pre post (Pure.pure a) (Pure.pure a) := by
  intro m hm
  refine ⟨rfl, ?_⟩
  rintro _ _ ⟨⟩
  exact h m hm

theorem Same.halt (reason : Halt) : Same pre post (throw reason : Exec α) (throw reason) :=
  fun _ _ => ⟨rfl, nofun⟩

theorem Same.bind {x y : Exec α} {f g : α → Exec β} (h : Same pre mid x y)
    (hf : ∀ a, Same mid post (f a) (g a)) : Same pre post (x >>= f) (y >>= g) := by
  intro m hm
  obtain ⟨heq, hmid⟩ := h m hm
  rw [bind_apply, bind_apply, heq]
  cases hy : y m with
  | ok a after => exact hf a after (hmid a after hy)
  | error reason after => exact ⟨rfl, nofun⟩

theorem same_composes (inv : Machine → Prop) : Composes (Same inv inv) where
  pure := .pure fun _ hm => hm
  halt := .halt
  bind := .bind

end Same

/-! ## Tracked states -/

/-- The state is tracked at a place. -/
def At (uses : List Use) (place : Place) (layer : Layer) (m : Machine) : Prop :=
  m.stack.Tracked uses place layer

section At

variable {uses : List Use} {place : Place} {layer : Layer} {α : Type}

/-- What is confined leaves a state tracked. -/
theorem At.confined {x : Exec α} (hx : Confines 0 x x) {m : Machine} (h : At uses place layer m) :
    At uses place layer (final x m) :=
  h.touched (hx m h.linked).2.stack

theorem same_of_confines {x y : Exec α} (hy : Confines 0 y y)
    (h : ∀ m, At uses place layer m → x m = y m) :
    Same (At uses place layer) (At uses place layer) x y := by
  intro m hm
  refine ⟨h m hm, ?_⟩
  intro a after hafter
  have hfinal := hm.confined hy
  unfold final at hfinal
  rw [hafter] at hfinal
  exact hfinal

/-- A run in a frame of its own, which is new to a layer in which nothing is declared. -/
theorem inFrame_same {inner : Layer} (hsymbols : inner.symbols = .empty)
    (hwithin : inner.binds ⊆ inner.locals) {post : Machine → Prop} {x y : Exec α}
    (h : Same (At uses (layer :: place) inner) post x y) (hy : Confines 1 y y) (name : String)
    (kind : FrameKind) :
    Same (At uses place layer) (At uses place layer) (inFrame name kind x)
      (inFrame name kind y) := by
  refine same_of_confines (hy.inFrame name kind) ?_
  intro m hm
  have hentered : At uses (layer :: place) inner (m.pushFrame name kind) := by
    unfold At
    rw [Machine.pushFrame_stack]
    exact Stack.enter hm.linked hm.hosted Stack.topIndex?_lt_depth hm.aligned hsymbols hwithin
      name kind
  unfold inFrame bracket
  rw [(h _ hentered).1]

/-- A variable is bound to a value that is made to fit its type, and the run goes on. -/
theorem fitted_same {name : String} {token : Token} (hmem : (name, token) ∈ layer.locals)
    {type : Ty} {v : Value} {position : Position} {next next' : Unit → Exec α}
    {post : Machine → Prop}
    (hnext : Same (At uses place (layer.declare name token type)) post (next ()) (next' ())) :
    Same (At uses place layer) post
      (coerce name type v position >>= fun v => declare name type (some v) >>= next)
      (coerce name type v position >>= fun v => declare name type (some v) >>= next') := by
  refine (coerce_rel (same_composes (At uses place layer)) name type v position).bind fun v' => ?_
  refine Same.bind ?_ fun _ => hnext
  intro m hm
  refine ⟨rfl, ?_⟩
  rintro _ _ ⟨⟩
  exact hm.declare hmem type (some v')

end At

/-! ## Rules -/

/-- Two ways to evaluate and execute that are the same wherever uses are known, the second of them
confined. -/
structure Retraces (uses : List Use) (eval eval' : Expr → Exec (Option Value))
    (exec exec' : Statement → Exec Flow) : Prop where
  evaluation : ∀ e place layer, e.uses (layer :: place) ⊆ uses →
    Same (At uses place layer) (At uses place layer) (eval e) (eval' e)
  execution : ∀ s place layer, s.uses place layer ⊆ uses → variablesOf [s] ⊆ layer.locals →
    Same (At uses place layer) (At uses place (layer.after s)) (exec s) (exec' s)
  evalConfined : ∀ e, Confines 0 (eval' e) (eval' e)
  execConfined : ∀ s, Confines 1 (exec' s) (exec' s)

section Rules

variable {uses : List Use} {eval eval' : Expr → Exec (Option Value)}
  {exec exec' : Statement → Exec Flow} (h : Retraces uses eval eval' exec exec')
  {place : Place} {layer : Layer}

include h

theorem value_same {e : Expr} (he : e.uses (layer :: place) ⊆ uses) :
    Same (At uses place layer) (At uses place layer) (value eval e) (value eval' e) :=
  value_rel (same_composes _) (h.evaluation e place layer he)

theorem condition_same {e : Expr} (he : e.uses (layer :: place) ⊆ uses) :
    Same (At uses place layer) (At uses place layer) (condition eval e) (condition eval' e) :=
  condition_rel (same_composes _) (h.evaluation e place layer he)

theorem parts_same {e : Expr} (he : e.uses (layer :: place) ⊆ uses) : ∀ part ∈ e.parts,
    Same (At uses place layer) (At uses place layer) (eval part) (eval' part) :=
  fun part hpart => h.evaluation part place layer
    (List.Subset.trans (Expr.uses_of_part hpart) he)

theorem declarators_same {type : Ty} {ds : List Declarator}
    (hds : VarDecl.usesFrom place type layer ds ⊆ uses)
    (hvariables : ∀ d ∈ ds, (d.name, d.token) ∈ layer.locals) :
    Same (At uses place layer) (At uses place (layer.declareAll type ds))
      (declarators eval type ds) (declarators eval' type ds) := by
  induction ds generalizing layer with
  | nil => exact .pure (fun _ hm => hm) _
  | cons d ds ih =>
    rw [VarDecl.usesFrom, List.append_subset] at hds
    rw [List.forall_mem_cons] at hvariables
    have hrest := ih hds.2 hvariables.2
    simp only [declarators]
    cases hvalue : d.initializer with
    | none =>
      refine Same.bind ?_ fun _ => hrest
      intro m hm
      refine ⟨rfl, ?_⟩
      rintro _ _ ⟨⟩
      exact hm.declare hvariables.1 type none
    | some e =>
      rw [hvalue] at hds
      exact (value_same h hds.1).bind fun _ => fitted_same hvariables.1 hrest

theorem parameters_same {params : List Param}
    (hparams : Param.usesFrom place layer params ⊆ uses)
    (hvariables : ∀ p ∈ params, (p.name, p.token) ∈ layer.locals) (position : Position)
    (arguments : List Value) :
    Same (At uses place layer) (At uses place (layer.declareParams params))
      (parameters eval position params arguments)
      (parameters eval' position params arguments) := by
  induction params generalizing layer arguments with
  | nil => exact .pure (fun _ hm => hm) _
  | cons p params ih =>
    rw [Param.usesFrom, List.append_subset] at hparams
    rw [List.forall_mem_cons] at hvariables
    rw [parameters_cons, parameters_cons]
    refine Same.bind (argument_rel (same_composes (At uses place layer)) position p ?_ arguments)
      fun _ => fitted_same hvariables.1 (ih hparams.2 hvariables.2 _)
    intro e he
    rw [he] at hparams
    exact h.evaluation e place layer hparams.1

/-- Statements in order. However they end, the layer is one of the same text. -/
theorem block_same {body : List Statement} (hbody : Statement.usesList place layer body ⊆ uses)
    (hvariables : variablesOf body ⊆ layer.locals) :
    Same (At uses place layer)
      (fun m => ∃ last : Layer, last.locals = layer.locals ∧ At uses place last m)
      (block exec body) (block exec' body) := by
  induction body generalizing layer with
  | nil => exact .pure (fun _ hm => ⟨layer, rfl, hm⟩) _
  | cons s body ih =>
    rw [Statement.usesList, List.append_subset] at hbody
    rw [variablesOf_cons, List.append_subset] at hvariables
    refine (h.execution s place layer hbody.1 hvariables.1).bind fun flow => ?_
    cases flow with
    | normal =>
      have hrest := ih hbody.2 (by rw [Layer.after_locals]; exact hvariables.2)
      rw [Layer.after_locals] at hrest
      exact hrest
    | _ => exact .pure (fun _ hm => ⟨layer.after s, layer.after_locals s, hm⟩) _

/-- A piece of text in a frame of its own. -/
theorem blockInFrame_same {body : List Statement}
    (hbody : Statement.usesList (layer :: place) (.start [] body) body ⊆ uses) (name : String)
    (kind : FrameKind) :
    Same (At uses place layer) (At uses place layer) (inFrame name kind (block exec body))
      (inFrame name kind (block exec' body)) :=
  inFrame_same rfl (List.nil_subset _) (block_same h hbody (List.Subset.refl _))
    (block_rel confines_respects h.execConfined body) name kind

theorem alternative_same {otherwise : Alternative}
    (hotherwise : otherwise.uses (layer :: place) ⊆ uses) :
    Same (At uses place layer) (At uses place layer) (alternative eval exec otherwise)
      (alternative eval' exec' otherwise) := by
  induction otherwise using alternative.induct with
  | case1 => exact .pure (fun _ hm => hm) _
  | case2 e body rest ih =>
    simp only [Alternative.uses, List.append_subset] at hotherwise
    refine (condition_same h hotherwise.1).bind fun b => ?_
    cases b with
    | true => exact blockInFrame_same h hotherwise.2.1 _ _
    | false => exact ih hotherwise.2.2
  | case3 body =>
    simp only [Alternative.uses] at hotherwise
    exact blockInFrame_same h hotherwise _ _

theorem whileRounds_same {e : Expr} {body : List Statement} (he : e.uses (layer :: place) ⊆ uses)
    (hbody : Statement.usesList (layer :: place) (.start [] body) body ⊆ uses) (fuel : Nat) :
    Same (At uses place layer) (At uses place layer) (whileRounds eval exec e body fuel)
      (whileRounds eval' exec' e body fuel) := by
  induction fuel with
  | zero => exact .halt _
  | succ fuel ih =>
    refine (condition_same h he).bind fun b => ?_
    cases b with
    | false => exact .pure (fun _ hm => hm) _
    | true =>
      refine (blockInFrame_same h hbody _ _).bind fun flow => ?_
      cases flow with
      | normal => exact ih
      | continued => exact ih
      | broken => exact .pure (fun _ hm => hm) _
      | returned v => exact .pure (fun _ hm => hm) _

theorem forRounds_same {d : Declarator} {type : Ty} {body : List Statement}
    (hbody : Statement.usesList place ((Layer.round d body).declare d.name d.token type) body ⊆
      uses) (count : Nat) (visited : Sequence) :
    Same (At uses place (.round d body)) (At uses place (.round d body))
      (forRounds exec d type body count visited) (forRounds exec' d type body count visited) := by
  induction count generalizing visited with
  | zero => exact .pure (fun _ hm => hm) _
  | succ count ih =>
    simp only [forRounds]
    cases visited.next? with
    | none => exact .pure (fun _ hm => hm) _
    | some found =>
      have hround := block_same h hbody (List.subset_cons_self _ _)
      refine fitted_same List.mem_cons_self (hround.bind fun flow => ?_)
      -- whatever the round declared, the next one begins with a frame that can bind it
      have hanew : ∀ m, (∃ last : Layer,
          last.locals = ((Layer.round d body).declare d.name d.token type).locals ∧
            At uses place last m) → At uses place (.round d body) m := by
        rintro m ⟨last, hlast, hm⟩
        exact hm.anew hlast
      cases flow with
      | normal => exact fun m hm => ih found.2 m (hanew m hm)
      | continued => exact fun m hm => ih found.2 m (hanew m hm)
      | broken => exact .pure hanew _
      | returned v => exact .pure hanew _

theorem forLoop_same {loopVariable : VarDecl} {iterable : Expr} {body : List Statement}
    {token : Token}
    (hs : (Statement.forLoop loopVariable iterable body token).uses place layer ⊆ uses)
    (position : Position) :
    Same (At uses place layer) (At uses place layer)
      (forLoop eval exec loopVariable iterable body position)
      (forLoop eval' exec' loopVariable iterable body position) := by
  obtain ⟨declared, declarators⟩ := loopVariable
  simp only [Statement.uses, List.append_subset] at hs
  unfold forLoop
  cases declarators with
  | nil => exact .halt _
  | cons d ds =>
    refine Same.bind (sequence_rel (same_composes (At uses place layer))
      (h.evaluation iterable place layer hs.1) (parts_same h hs.1)) fun visited => ?_
    refine inFrame_same rfl (List.Subset.refl _) (forRounds_same h hs.2 _ visited) ?_ _ _
    exact forRounds_rel confines_respects h.execConfined d _ body _ visited

/-- What runs in the frame of a call. -/
theorem inside_same {decl : FunctionDecl} (hdecl : decl.uses place ⊆ uses)
    (arguments : List Value) (position : Position) :
    Same (At uses place (.start decl.params decl.body)) (fun _ => True)
      (inside eval exec decl arguments position) (inside eval' exec' decl arguments position) := by
  obtain ⟨returns, name, params, body, token⟩ := decl
  rw [FunctionDecl.uses, List.append_subset] at hdecl
  have hbody : variablesOf body ⊆ ((Layer.start params body).declareParams params).locals := by
    rw [Layer.declareParams_locals]
    exact List.subset_append_right _ _
  refine (parameters_same h hdecl.1 Layer.mem_start position arguments).bind fun _ => ?_
  refine (block_same h hdecl.2 hbody).bind fun flow => ?_
  intro m _
  exact ⟨rfl, fun _ _ _ => trivial⟩

/-- A call, whatever function it finds. -/
theorem call_same (name : String) (arguments : List Value) (position : Position) :
    Same (At uses place layer) (At uses place layer) (call eval exec name arguments position)
      (call eval' exec' name arguments position) := by
  refine same_of_confines (call_rel confines_respects h.evalConfined h.execConfined name arguments
    position) ?_
  intro m hm
  unfold call
  rw [bind_apply, bind_apply]
  simp only [get_apply]
  cases hfound : m.stack.findFunction? name with
  | none => rfl
  | some found =>
    obtain ⟨i, hi, hthere⟩ := List.exists_of_findSome?_eq_some hfound
    obtain ⟨decl, hdecl, rfl⟩ := Option.map_eq_some_iff.mp hthere
    obtain ⟨layer', place', haligns, _, huses⟩ := hm.hosted i name decl hdecl
    have hentered : At uses (layer' :: place') (.start decl.params decl.body)
        (m.pushCall decl.name i) := by
      unfold At
      rw [Machine.pushCall_stack]
      refine Stack.enter hm.linked hm.hosted ?_ haligns rfl (List.nil_subset _) decl.name .function
      rintro _ ⟨⟩
      exact hm.linked.lt_depth hi
    simp only [callFunction_apply]
    split
    · split
      · rfl
      · unfold inCall bracket
        rw [(inside_same h huses arguments position _ hentered).1]
    · rfl

variable (hcover : Rules.named.Cover uses)

include hcover

omit h in
/-- A use that is known meets what it should in a tracked state. -/
theorem met_of_at {name : String} {token : Token} (hmem : ⟨name, token, layer :: place⟩ ∈ uses)
    {m : Machine} (hm : At uses place layer m) : Use.Met ⟨name, token, layer :: place⟩ m.stack :=
  Use.met hm.aligned (hcover _ hmem)

omit h in
/-- An assignment to a variable that is used at the place. -/
theorem store_same {name : String} {token : Token} (hmem : ⟨name, token, layer :: place⟩ ∈ uses)
    (v : Value) (position : Position) :
    Same (At uses place layer) (At uses place layer) (store name v position)
      (store name v position) := by
  intro m hm
  refine ⟨rfl, ?_⟩
  intro a after hafter
  obtain ⟨i, hresolve, _⟩ := Stack.exists_resolve? (met_of_at hcover hmem hm).get?_isSome
  have hfinal := final_store name v position m
  unfold final at hfinal
  rw [hafter] at hfinal
  obtain rfl | ⟨v', rfl⟩ := hfinal
  · exact hm
  · exact hm.touched (Stack.set_touched_of_resolve hresolve v')

theorem assign_same {target : String} {token : Token} {e : Expr}
    (he : e.uses (layer :: place) ⊆ uses) (hmem : ⟨target, token, layer :: place⟩ ∈ uses)
    (op : AssignOp) (position : Position) :
    Same (At uses place layer) (At uses place layer) (assign eval target op e position)
      (assign eval' target op e position) := by
  refine (value_same h he).bind fun v => ?_
  cases op with
  | plain => exact store_same hcover hmem v position
  | compound op =>
    have hload : Same (At uses place layer) (At uses place layer) (load target position)
        (load target position) :=
      same_of_confines (confines_respects.load target position) fun _ _ => rfl
    refine hload.bind fun old => ?_
    exact (located_rel (same_composes (At uses place layer)) position _).bind fun v' =>
      store_same hcover hmem v' position

/-- The rule of a statement takes one layer to the next. -/
theorem execStep_same {s : Statement} (hs : s.uses place layer ⊆ uses)
    (hvariables : variablesOf [s] ⊆ layer.locals) (fuel : Nat) :
    Same (At uses place layer) (At uses place (layer.after s)) (execStep eval exec fuel s)
      (execStep eval' exec' fuel s) := by
  have hstay : ∀ {α : Type} (a : α),
      Same (At uses place layer) (At uses place layer) (pure a) (pure a) := .pure fun _ hm => hm
  cases s with
  | declaration decl =>
    exact (declarators_same h hs (mem_of_declaration hvariables)).bind fun _ =>
      .pure (fun _ hm => hm) _
  | assignment target op e token =>
    simp only [Statement.uses, List.append_subset] at hs
    exact (assign_same h hcover hs.1 (hs.2 List.mem_cons_self) op _).bind fun _ => hstay _
  | conditional e body otherwise token =>
    simp only [Statement.uses, List.append_subset] at hs
    refine (condition_same h hs.1).bind fun b => ?_
    cases b with
    | true => exact blockInFrame_same h hs.2.1 _ _
    | false => exact alternative_same h hs.2.2
  | whileLoop e body token =>
    simp only [Statement.uses, List.append_subset] at hs
    exact whileRounds_same h hs.1 hs.2 fuel
  | forLoop loopVariable iterable body token => exact forLoop_same h hs _
  | returnFrom e token =>
    cases e with
    | none => exact hstay _
    | some e => exact (value_same h hs).bind fun _ => hstay _
  | function decl =>
    simp only [Statement.uses] at hs
    refine Same.bind ?_ fun _ => .pure (fun _ hm => hm) _
    intro m hm
    refine ⟨rfl, ?_⟩
    rintro _ _ ⟨⟩
    exact hm.declareFunction hs
  | expression e =>
    simp only [execStep, discard_eq, bind_assoc, pure_bind]
    exact (h.evaluation e place layer hs).bind fun _ => hstay _
  | empty => exact hstay _
  | breakLoop token => exact hstay _
  | continueLoop token => exact hstay _

end Rules

/-! ## Runs that are made to halt -/

section Until

variable {uses : List Use} (hcover : Rules.named.Cover uses) {stop : Moment → Machine → Prop}
  (hstop : ∀ moment m, moment.AtUse uses Use.Met m → ¬ stop moment m) (halt : Halt)
  {place : Place} {layer : Layer}

include hstop

theorem pass_same {moment : Moment} {inv : Machine → Prop}
    (h : ∀ m, inv m → moment.AtUse uses Use.Met m) :
    Same inv inv (pass stop halt moment) (pure ()) := by
  intro m hm
  refine ⟨pass_apply (hstop moment m (h m hm)), ?_⟩
  rintro _ _ ⟨⟩
  exact hm

include hcover

theorem evaluation_same {eval eval' : Expr → Exec (Option Value)}
    {exec exec' : Statement → Exec Flow} (h : Retraces uses eval eval' exec exec') {e : Expr}
    (he : e.uses (layer :: place) ⊆ uses) :
    Same (At uses place layer) (At uses place layer)
      (watched stop halt (.expression e)
        (evalStep eval (callUntil stop halt (call eval exec)) e))
      (evalStep eval' (call eval' exec') e) := by
  refine watched_rel (same_composes (At uses place layer)) (pass_same hstop halt ?_)
    (pass_same hstop halt fun _ _ => trivial)
    (evalStep_rel (same_composes (At uses place layer)) ?_ ?_ (parts_same h he))
  · intro m hm
    cases e with
    | var name token =>
      have hmem := he List.mem_cons_self
      exact ⟨_, hmem, rfl, rfl, met_of_at hcover hmem hm⟩
    | _ => trivial
  · intro name position
    exact same_of_confines (confines_respects.load name position) fun _ _ => rfl
  · intro name arguments position
    have hpass : Same (At uses place layer) (At uses place layer)
        (pass stop halt (.calling name arguments position)) (pure ()) :=
      pass_same hstop halt fun _ _ => trivial
    exact callUntil_rel (same_composes _) hpass (call_same h name arguments position)

theorem execution_same {eval eval' : Expr → Exec (Option Value)}
    {exec exec' : Statement → Exec Flow} (h : Retraces uses eval eval' exec exec') {s : Statement}
    (hs : s.uses place layer ⊆ uses) (hvariables : variablesOf [s] ⊆ layer.locals)
    (fuel : Nat) :
    Same (At uses place layer) (At uses place (layer.after s))
      (watched stop halt (.statement s) (execStep eval exec fuel s))
      (execStep eval' exec' fuel s) := by
  have hbefore : Same (At uses place layer) (At uses place layer)
      (pass stop halt (.before (.statement s))) (pure ()) := by
    refine pass_same hstop halt ?_
    intro m hm
    cases s with
    | assignment target op e token =>
      simp only [Statement.uses, List.append_subset] at hs
      have hmem := hs.2 List.mem_cons_self
      intro fuel v last hvalue
      have hlast := hm.confined (value_rel confines_respects.evaluation
        ((run_rel confines_respects fuel).1 e))
      unfold final at hlast
      rw [hvalue] at hlast
      exact ⟨_, hmem, rfl, rfl, met_of_at hcover hmem hlast⟩
    | _ => trivial
  have hafter : Same (At uses place (layer.after s)) (At uses place (layer.after s))
      (pass stop halt (.after (.statement s))) (pure ()) :=
    pass_same hstop halt fun _ _ => trivial
  have hall : Same (At uses place layer) (At uses place (layer.after s))
      (watched stop halt (.statement s) (execStep eval exec fuel s))
      (pure () >>= fun _ => execStep eval' exec' fuel s >>= fun flow =>
        pure () >>= fun _ => pure flow) :=
    hbefore.bind fun _ => (execStep_same h hcover hs hvariables fuel).bind
      fun flow => hafter.bind fun _ => .pure (fun _ hm => hm) flow
  simpa only [pure_bind, bind_pure] using hall

/-- Runs that are made to halt where a use does not meet what it should are the plain ones. -/
theorem until_retraces (fuel : Nat) : Retraces uses (evalUntil stop halt fuel) (eval fuel)
    (execUntil stop halt fuel) (exec fuel) := by
  induction fuel with
  | zero =>
    exact ⟨fun _ _ _ _ => .halt _, fun _ _ _ _ _ => .halt _,
      (run_rel confines_respects 0).1, (run_rel confines_respects 0).2⟩
  | succ fuel ih =>
    exact ⟨fun _ _ _ he => evaluation_same hcover hstop halt ih he,
      fun _ _ _ hs hvariables => execution_same hcover hstop halt ih hs hvariables fuel,
      (run_rel confines_respects (fuel + 1)).1, (run_rel confines_respects (fuel + 1)).2⟩

/-- So are the runs of a program whose uses are known. -/
theorem programUntil_eq {p : Program} (hp : p.uses ⊆ uses) (fuel : Nat) {m : Machine}
    (hempty : m.stack.frames = #[]) :
    programUntil stop halt fuel p m = program fuel p m := by
  have htop : m.stack.topIndex? = none := by
    rw [Stack.topIndex?, hempty]
    rfl
  have hentered : At uses [] (.start [] p) (m.pushFrame "global" .global) := by
    unfold At
    rw [Machine.pushFrame_stack, Stack.push]
    refine Stack.enter (.empty hempty) ?_ Stack.topIndex?_lt_depth ?_ rfl (List.nil_subset _) _ _
    · intro i name decl hname
      rw [Stack.functionAt?, hempty] at hname
      cases hname
    · rw [htop]
      exact .nil
  have hblock := block_same (until_retraces hcover hstop halt fuel) hp (List.Subset.refl _)
  exact programBy_congr (hblock _ hentered).1

end Until

/-- A run of a program comes to no use that does not meet what it should. -/
theorem not_meets_use {uses : List Use} (hcover : Rules.named.Cover uses)
    {meets : Use → Stack → Prop} (hmeets : ∀ use ∈ uses, ∀ stack, use.Met stack → meets use stack)
    {p : Program} (hp : p.uses ⊆ uses) (fuel : Nat) {m : Machine} (hempty : m.stack.frames = #[]) :
    ¬ Meets (fun moment m => ¬ moment.AtUse uses meets m) fuel p m := by
  intro h
  have hplain : ∀ halt, ∃ last, program fuel p m = .error halt last := by
    intro halt
    obtain ⟨last, hrun⟩ := h halt
    rw [programUntil_eq hcover (fun moment m hmet => not_not_intro (hmet.imp hmeets)) halt hp fuel
      hempty] at hrun
    exact ⟨last, hrun⟩
  -- the plain run cannot halt in two ways
  obtain ⟨_, hfuel⟩ := hplain .outOfFuel
  obtain ⟨_, hfault⟩ := hplain (.fault ⟨.unboundVariable "", ⟨0, 0⟩⟩)
  rw [hfuel] at hfault
  cases hfault

end Exec

end ScopedScript
