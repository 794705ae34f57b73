import ScopedScript.Proofs.Number.Terms
import ScopedScript.Proofs.Run.Termination

/-!
# The rounds of a `for` loop

What a `for` loop visits is a list of values that is settled before the first round. In each round
the variable is bound anew in the frame of the loop, whatever the rounds before have done to it or
to the variables that the values came from. Rounds come one after the other until the values are
used up, a value does not fit the type of the variable, or a body leaves the loop.

To say so, the loop is run once more with a record of the states in which its rounds begin. What is
recorded is not needed for the run itself: without the record it is the run of the loop.
-/

namespace ScopedScript

/-! ## Values -/

namespace Sequence

/-- The values that a loop visits, one after the other. -/
def toList : Sequence → List Value
  | integers p => p.toList.map .int
  | characters cs => cs.map fun c => .str (String.singleton c)

variable {visited rest : Sequence} {v : Value}

theorem toList_of_some (h : visited.next? = some (v, rest)) :
    visited.toList = v :: rest.toList := by
  cases visited with
  | integers p =>
    obtain ⟨⟨n, behind⟩, hnext, heq⟩ := Option.map_eq_some_iff.mp h
    cases heq
    have hless := Progression.remaining_of_next? hnext
    simp only [toList, Progression.toList, hless, Progression.take, hnext, List.map_cons]
  | characters cs =>
    cases cs with
    | nil => cases h
    | cons c cs =>
      cases h
      rfl

theorem toList_of_none (h : visited.next? = none) : visited.toList = [] := by
  cases visited with
  | integers p =>
    have hnext := Option.map_eq_none_iff.mp h
    have hzero := Progression.next?_eq_none_iff.mp hnext
    simp only [toList, Progression.toList, hzero, Progression.take, List.map_nil]
  | characters cs =>
    cases cs with
    | nil => rfl
    | cons c cs => cases h

end Sequence

/-! ## The variable -/

/-- What is declared in the top frame is what its name stands for. -/
theorem Stack.get?_declare_self {stack : Stack} (h : 0 < stack.depth) (name : String)
    (type : Option Ty) (value : Option Value) :
    (stack.declare name type value).get? name = some ⟨type, value⟩ := by
  have htop : stack.topIndex? = some (stack.depth - 1) := topIndex?_eq_some.mpr (by omega)
  generalize stack.depth - 1 = top at htop
  have hlive := topIndex?_lt_depth top htop
  obtain ⟨frame, hframe⟩ : ∃ frame, stack.frames[top]? = some frame :=
    ⟨_, Array.getElem?_eq_getElem hlive⟩
  have hbinding : (stack.declare name type value).bindingAt? name top = some ⟨type, value⟩ := by
    rw [declare, modifyTop, htop, bindingAt?, modifyFrame_frames, if_pos rfl, hframe]
    exact Table.find?_insert_self _ _ _
  have htop' : (stack.declare name type value).topIndex? = some top := by
    rw [topIndex?_eq_some] at htop ⊢
    rwa [declare, depth_modifyTop]
  simp only [get?, chain, htop', ScopedScript.chain, chainUpTo, List.findSome?_cons, hbinding]

namespace Exec

/-- The value that a name stands for in a state. -/
def valueOf? (name : String) (m : Machine) : Option Value :=
  (m.stack.get? name).bind (·.value)

section Fit

variable {name : String} {type : Ty} {v : Value} {position : Position} {m after : Machine}

/-- A variable that is declared stands for its value, made to fit its type. -/
theorem of_fit_ok (hm : 0 < m.stack.depth) (h : fit name type v position m = .ok () after) :
    valueOf? name after = v.coerce? type ∧ after.stack.depth = m.stack.depth := by
  unfold fit coerce at h
  cases hv : v.coerce? type with
  | none =>
    rw [hv] at h
    cases h
  | some w =>
    rw [hv] at h
    cases h
    refine ⟨?_, Stack.depth_modifyTop _ _⟩
    rw [valueOf?, Stack.get?_declare_self hm]
    rfl

/-- The declaration fails only if there is no such value. -/
theorem of_fit_error {halt : Halt} (h : fit name type v position m = .error halt after) :
    v.coerce? type = none ∧ halt = .fault ⟨.typeMismatch name type v.type, position⟩ := by
  unfold fit coerce at h
  cases hv : v.coerce? type with
  | none =>
    rw [hv] at h
    cases h
    exact ⟨rfl, rfl⟩
  | some w =>
    rw [hv] at h
    cases h

end Fit

/-! ## Frames of loops -/

open Regime

/-- Runs of which no more is known than which frames there are. -/
def free (limit : Nat) : Regime where
  limit := limit
  function _ := True
  event _ := True
  halt _ := True
  popped _ _ _ _ := trivial
  fault _ := trivial

theorem at_free (m : Machine) : (free m.maxCallDepth).At m.stack.kinds m.callDepth m :=
  ⟨rfl, rfl, rfl, fun _ _ _ _ _ _ => trivial, fun _ _ => trivial⟩

theorem keeps_free (limit fuel : Nat) : ∀ kinds calls,
    (∀ e, (free limit).Keeps kinds calls (eval fuel e) (eval fuel e)) ∧
      ∀ s, (free limit).Keeps kinds calls (exec fuel s) (exec fuel s) := by
  have hexhausted : ∀ {α : Type} kinds calls,
      (free limit).Keeps kinds calls (exhausted : Exec α) exhausted :=
    fun _ _ => .of_ends fun _ hm => ⟨trivial, hm⟩
  induction fuel with
  | zero =>
    exact fun kinds calls => ⟨fun _ => hexhausted kinds calls, fun _ => hexhausted kinds calls⟩
  | succ fuel ih =>
    intro kinds calls
    have heval := (ih kinds calls).1
    have hoperates := keeps_operates (free limit) kinds calls
    constructor
    · intro e
      refine evalStep_keep hoperates.evaluation keeps_load ?_ fun part _ => heval part
      intro name arguments position
      refine keeps_call (fun _ _ _ _ => trivial) (fun _ _ => trivial) fun decl _ _ => ?_
      obtain ⟨heval, hexec⟩ := ih (kinds ++ [.function]) (calls + 1)
      exact inside_keep (keeps_operates _ _ _) (fun e _ => heval e) (fun s _ => hexec s) arguments
        position
    · intro s
      cases hcompound : s.isCompound with
      | true =>
        exact compoundStep_keep (keeps_encloses fun _ _ _ => trivial) fuel hcompound
          (fun e _ => heval e) (fun s' _ kind _ => (ih _ _).2 s') fun _ _ _ _ => hexhausted _ _
      | false =>
        exact plainStep_keep hoperates fuel hcompound (fun e _ => heval e)
          fun _ _ => keeps_declareFunction trivial

/-- Behind statements there are as many frames as before. -/
theorem depth_of_block {fuel : Nat} {body : List Statement} {m after : Machine} {flow : Flow}
    (h : block (exec fuel) body m = .ok flow after) : after.stack.depth = m.stack.depth := by
  have hexec := (keeps_free m.maxCallDepth fuel m.stack.kinds m.callDepth).2
  have hends := (block_keep (keeps_combines _ _ _) (fun s (_ : s ∈ body) => hexec s) m
    (at_free m)).2
  rw [h] at hends
  rw [Stack.depth_eq_length_kinds, Stack.depth_eq_length_kinds, Regime.At.kinds hends]

/-! ## Traced rounds -/

section Traced

variable (exec : Statement → Exec Flow) (d : Declarator) (type : Ty) (body : List Statement)

/-- The rounds of a loop over some values, and the states in which they begin. -/
def tracedRounds : List Value → Machine → List Machine × EStateM.Result Halt Machine Flow
  | [], m => ([], .ok .normal m)
  | v :: rest, m =>
    match fit d.name type v d.token.position m with
    | .error halt after => ([], .error halt after)
    | .ok _ begun =>
      match block exec body begun with
      | .ok .normal after | .ok .continued after =>
        let ran := tracedRounds rest after
        (begun :: ran.1, ran.2)
      | .ok .broken after => ([begun], .ok .normal after)
      | .ok (.returned v) after => ([begun], .ok (.returned v) after)
      | .error halt after => ([begun], .error halt after)

theorem forRounds_succ {visited rest : Sequence} {v : Value}
    (h : visited.next? = some (v, rest)) (count : Nat) :
    forRounds exec d type body (count + 1) visited = (do
      fit d.name type v d.token.position
      match ← block exec body with
      | .broken => return .normal
      | .returned v => return .returned v
      | .normal | .continued => forRounds exec d type body count rest) := by
  rw [forRounds, h, fit]
  exact (bind_assoc _ _ _).symm

/-- Without the record of where they begin the rounds are those of the loop. -/
theorem forRounds_eq (visited : Sequence) (m : Machine) :
    forRounds exec d type body visited.remaining visited m =
      (tracedRounds exec d type body visited.toList m).2 := by
  induction hcount : visited.remaining generalizing visited m with
  | zero =>
    cases hnext : visited.next? with
    | none =>
      rw [forRounds, Sequence.toList_of_none hnext]
      rfl
    | some found =>
      obtain ⟨v, rest⟩ := found
      have hless := Sequence.remaining_of_next? hnext
      omega
  | succ count ih =>
    cases hnext : visited.next? with
    | none =>
      rw [forRounds_of_none hnext, Sequence.toList_of_none hnext]
      rfl
    | some found =>
      obtain ⟨v, rest⟩ := found
      have hless := Sequence.remaining_of_next? hnext
      rw [Sequence.toList_of_some hnext, forRounds_succ exec d type body hnext, bind_apply,
        tracedRounds]
      cases fit d.name type v d.token.position m with
      | error halt after => rfl
      | ok _ begun =>
        simp only [bind_apply]
        cases block exec body begun with
        | error halt after => rfl
        | ok flow after =>
          cases flow with
          | normal | continued => exact ih rest after (by omega)
          | broken | returned v => rfl

end Traced

/-- A body leaves its loop: it breaks, returns or fails. -/
def Leaves : EStateM.Result Halt Machine Flow → Prop
  | .ok .normal _ | .ok .continued _ => False
  | .ok .broken _ | .ok (.returned _) _ | .error _ _ => True

section Traced

variable (fuel : Nat) (d : Declarator) (type : Ty) (body : List Statement)

/-- Rounds begin with the values in their order, each made to fit the type of the variable. -/
theorem valueOf_tracedRounds (vs : List Value) {m : Machine} (hm : 0 < m.stack.depth) :
    (tracedRounds (exec fuel) d type body vs m).1.map (valueOf? d.name) <+:
      vs.map (·.coerce? type) := by
  induction vs generalizing m with
  | nil => exact List.prefix_rfl
  | cons v vs ih =>
    rw [tracedRounds, List.map_cons]
    cases hfit : fit d.name type v d.token.position m with
    | error halt after => exact List.nil_prefix
    | ok _ begun =>
      obtain ⟨hvalue, hdepth⟩ := of_fit_ok hm hfit
      rw [← hvalue]
      simp only
      cases hrun : block (exec fuel) body begun with
      | error halt after => exact List.prefix_append [_] _
      | ok flow after =>
        have hafter : 0 < after.stack.depth := by
          rw [depth_of_block hrun, hdepth]
          exact hm
        cases flow with
        | normal | continued => exact (List.prefix_cons_inj _).mpr (ih hafter)
        | broken | returned v => exact List.prefix_append [_] _

/-- They are cut short only by a body that leaves the loop, or by a value that does not fit. -/
theorem length_tracedRounds (vs : List Value) (m : Machine) :
    let ran := tracedRounds (exec fuel) d type body vs m
    ran.1.length = vs.length ∨
    (∃ begun ∈ ran.1.getLast?, Leaves (block (exec fuel) body begun)) ∨
    ∃ v after, vs[ran.1.length]? = some v ∧ v.coerce? type = none ∧
      ran.2 = .error (.fault ⟨.typeMismatch d.name type v.type, d.token.position⟩) after := by
  induction vs generalizing m with
  | nil => exact .inl rfl
  | cons v vs ih =>
    rw [tracedRounds]
    cases hfit : fit d.name type v d.token.position m with
    | error halt after =>
      obtain ⟨hv, rfl⟩ := of_fit_error hfit
      exact .inr (.inr ⟨v, after, rfl, hv, rfl⟩)
    | ok _ begun =>
      simp only
      cases hrun : block (exec fuel) body begun with
      | error halt after => exact .inr (.inl ⟨begun, rfl, by rw [hrun]; trivial⟩)
      | ok flow after =>
        cases flow with
        | broken | returned v => exact .inr (.inl ⟨begun, rfl, by rw [hrun]; trivial⟩)
        | normal | continued =>
          obtain hall | ⟨last, hlast, hleaves⟩ | hunfit := ih after
          · exact .inl (congrArg (· + 1) hall)
          · refine .inr (.inl ⟨last, ?_, hleaves⟩)
            rw [List.getLast?_cons, Option.mem_def.mp hlast]
            rfl
          · exact .inr (.inr hunfit)

/-- Without a first value that fits there is no round. -/
theorem tracedRounds_of_unfit {v : Value} {vs : List Value} {m : Machine}
    (h : v.coerce? type = none) : tracedRounds (exec fuel) d type body (v :: vs) m =
      ([], .error (.fault ⟨.typeMismatch d.name type v.type, d.token.position⟩) m) := by
  rw [tracedRounds, fit, coerce, h]
  rfl

end Traced

/-- The rounds of a loop run in its frame, over what it visits. -/
theorem forLoop_of_sequence {eval : Expr → Exec (Option Value)} (exec : Statement → Exec Flow)
    {iterable : Expr} {visited : Sequence} {m m' : Machine}
    (h : sequence eval iterable m = .ok visited m') {loopVariable : VarDecl} {d : Declarator}
    {ds : List Declarator} (hd : loopVariable.declarators = d :: ds) (body : List Statement)
    (position : Position) :
    forLoop eval exec loopVariable iterable body position m =
      inFrame "for" .forLoop (fun m => (tracedRounds exec d loopVariable.declared.type body
        visited.toList m).2) m' := by
  unfold forLoop
  rw [hd]
  simp only [bind_apply, h]
  congr
  funext m
  exact forRounds_eq exec d _ body visited m

/-- In the frame of a loop there is a frame. -/
theorem depth_pushFrame_pos (m : Machine) (name : String) (kind : FrameKind) :
    0 < (m.pushFrame name kind).stack.depth := by
  rw [Machine.pushFrame_stack, Stack.push, Stack.depth_pushLinked]
  exact Nat.succ_pos _

/-! ## Ranges -/

/-- The bounds of a range come to integers, from left to right. Without a step it is one. -/
inductive Spans (eval : Expr → Exec (Option Value)) (m : Machine) :
    Expr → Int64 → Int64 → Int64 → Machine → Prop where
  | range {start stop : Expr} {token : Token} {i j : Int64} {m₁ m₂ : Machine}
      (hstart : value eval start m = .ok (.int i) m₁)
      (hstop : value eval stop m₁ = .ok (.int j) m₂) :
      Spans eval m (.range start stop token) i j 1 m₂
  | steppedRange {start stop step : Expr} {token : Token} {i j k : Int64} {m₁ m₂ m₃ : Machine}
      (hstart : value eval start m = .ok (.int i) m₁)
      (hstop : value eval stop m₁ = .ok (.int j) m₂)
      (hstep : value eval step m₂ = .ok (.int k) m₃) :
      Spans eval m (.steppedRange start stop step token) i j k m₃

section Ranges

variable {eval : Expr → Exec (Option Value)} {exec : Statement → Exec Flow} {m m' : Machine}
  {iterable : Expr} {i j k : Int64} {p : Progression}

theorem integer_apply {role : String} {e : Expr} {n : Int64}
    (h : value eval e m = .ok (.int n) m') : integer eval role e m = .ok n m' := by
  rw [integer, bind_apply, h]
  rfl

/-- A loop over a range visits a progression. -/
theorem sequence_of_spans (h : Spans eval m iterable i j k m')
    (hp : Progression.make? i j k = some p) : sequence eval iterable m = .ok (.integers p) m' := by
  cases h with
  | range hstart hstop =>
    simp only [sequence, bind_apply, integer_apply hstart, integer_apply hstop, progression, hp]
    rfl
  | steppedRange hstart hstop hstep =>
    simp only [sequence, bind_apply, integer_apply hstart, integer_apply hstop,
      integer_apply hstep, progression, hp]
    rfl

/-- The rounds of a loop over a range run in its frame, over the terms of the progression. -/
theorem forLoop_of_spans (h : Spans eval m iterable i j k m')
    (hp : Progression.make? i j k = some p) {loopVariable : VarDecl} {d : Declarator}
    {ds : List Declarator} (hd : loopVariable.declarators = d :: ds) (body : List Statement)
    (position : Position) :
    forLoop eval exec loopVariable iterable body position m =
      inFrame "for" .forLoop (fun m => (tracedRounds exec d loopVariable.declared.type body
        (p.toList.map .int) m).2) m' :=
  forLoop_of_sequence exec (sequence_of_spans h hp) hd body position

end Ranges

end Exec

/-- Types that take no integer. -/
theorem Value.coerce?_int_eq_none_iff {n : Int64} {type : Ty} :
    (Value.int n).coerce? type = none ↔ type = .bool ∨ type = .str := by
  cases type <;> simp [coerce?, Value.type]

open Exec in
/-- A loop over a range visits its arithmetic progression. For a step other than zero there are as
many terms as steps to the bound, rounded up; they come in their order, and none after them. A loop
over the range makes its rounds in a frame of its own. They begin with the variable bound to the
terms in their order, made to fit its type, which widens them if it is that of floating-point
numbers, whatever has become of the variable in the rounds before. A variable whose type takes no
integer has no round: where there is a first term, it is a mismatch. All terms are visited, unless
the body of the last round that began leaves the loop, or the type of the variable takes none. -/
theorem range_visited {start stop step : Int64} (hstep : step ≠ 0) :
    let n := (⌈((stop.toInt - start.toInt) / step.toInt : ℚ)⌉).toNat
    ∃ p, Progression.make? start stop step = some p ∧
    (∀ k : Nat, ((p.drop k).next?).map (·.1.toInt) =
      if k < n then some (start.toInt + k * step.toInt) else none) ∧
    p.toList.map Int64.toInt = (List.range n).map (fun k : Nat => start.toInt + k * step.toInt) ∧
    ∀ (fuel : Nat) (loopVariable : VarDecl) (d : Declarator) (ds : List Declarator)
      (iterable : Expr) (body : List Statement) (token : Token) (m entered : Machine),
      loopVariable.declarators = d :: ds →
      Spans (eval fuel) m iterable start stop step entered →
      let type := loopVariable.declared.type
      let rounds := tracedRounds (exec fuel) d type body (p.toList.map .int)
      let begun := entered.pushFrame "for" .forLoop
      exec (fuel + 1) (.forLoop loopVariable iterable body token) m =
        inFrame "for" .forLoop (fun m => (rounds m).2) entered ∧
      (rounds begun).1.map (valueOf? d.name) <+:
        p.toList.map (fun term => (Value.int term).coerce? type) ∧
      (type = .bool ∨ type = .str → 0 < n → rounds begun =
        ([], .error (.fault ⟨.typeMismatch d.name type .int, d.token.position⟩) begun)) ∧
      ((rounds begun).1.length = n ∨
        (∃ last ∈ (rounds begun).1.getLast?, Leaves (block (exec fuel) body last)) ∨
        (type = .bool ∨ type = .str) ∧ rounds begun =
          ([], .error (.fault ⟨.typeMismatch d.name type .int, d.token.position⟩) begun)) := by
  obtain ⟨p, hp⟩ : ∃ p, Progression.make? start stop step = some p := ⟨_, dif_neg hstep⟩
  have hcount := Progression.remaining_of_make? hp
  obtain ⟨hfirst, -, rfl⟩ := Progression.of_make? hp
  rw [← hcount]
  refine ⟨p, hp, Progression.next?_drop hfirst, Progression.toList_eq hfirst, ?_⟩
  intro fuel loopVariable d ds iterable body token m entered hd hspans type rounds begun
  have hdepth : 0 < begun.stack.depth := depth_pushFrame_pos entered _ _
  have hterms : (p.toList.map Value.int).length = p.remaining := by
    rw [List.length_map, Progression.length_toList hfirst]
  have hunfit : type = .bool ∨ type = .str → 0 < p.remaining → rounds begun =
      ([], .error (.fault ⟨.typeMismatch d.name type .int, d.token.position⟩) begun) := by
    intro htype hmore
    obtain ⟨first, terms, hlist⟩ := List.exists_cons_of_length_pos (hterms ▸ hmore)
    have hnone := fun term => Value.coerce?_int_eq_none_iff (n := term).mpr htype
    obtain ⟨term, -, rfl⟩ := List.mem_map.mp (hlist ▸ List.mem_cons_self : first ∈ _)
    simp only [rounds, hlist]
    exact tracedRounds_of_unfit fuel d type body (hnone term)
  refine ⟨forLoop_of_spans hspans hp hd body token.position, ?_, hunfit, ?_⟩
  · have hprefix := valueOf_tracedRounds fuel d type body (p.toList.map .int) hdepth
    rwa [List.map_map] at hprefix
  · obtain hall | hleft | ⟨v, after, hv, hnone, -⟩ :=
      length_tracedRounds fuel d type body (p.toList.map .int) begun
    · exact .inl (hall.trans hterms)
    · exact .inr (.inl hleft)
    · have hmem := List.mem_of_getElem? hv
      obtain ⟨term, -, rfl⟩ := List.mem_map.mp hmem
      have htype := Value.coerce?_int_eq_none_iff.mp hnone
      exact .inr (.inr ⟨htype, hunfit htype (hterms ▸ List.length_pos_of_mem hmem)⟩)

open Exec in
/-- A body that assigns the variable of its loop has no influence on where the next round begins. -/
theorem range_visited_assigned : ∃ p, Progression.make? 5 0 (-2) = some p ∧
    ∀ (token : Token) (m : Machine),
      (tracedRounds (exec 2) ⟨"i", none, token⟩ .float
        [.assignment "i" .plain (.literal (.int 100) token) token] (p.toList.map .int)
        (m.pushFrame "for" .forLoop)).1.map (valueOf? "i") <+:
          [5, 3, 1].map fun term => (Value.int term).coerce? .float := by
  obtain ⟨p, hp, -, -, hloop⟩ := range_visited (by decide : (-2 : Int64) ≠ 0)
  refine ⟨p, hp, fun token m => ?_⟩
  cases hp
  have hrounds := hloop 2
    ⟨⟨.float, token⟩, [⟨"i", none, token⟩]⟩ _ _
    (.steppedRange (.literal (.int 5) token) (.literal (.int 0) token)
      (.literal (.int (-2)) token) token)
    [.assignment "i" .plain (.literal (.int 100) token) token] token m m rfl
    (.steppedRange rfl rfl rfl)
  exact hrounds.2.1

open Exec in
/-- A variable that holds texts takes no term of a range: there is no round, though no body leaves
the loop. -/
theorem range_unvisited : ¬ ∀ (start stop step : Int64) (p : Progression),
    Progression.make? start stop step = some p →
    ∀ (fuel : Nat) (loopVariable : VarDecl) (d : Declarator) (ds : List Declarator)
      (iterable : Expr) (body : List Statement) (m entered : Machine),
      loopVariable.declarators = d :: ds →
      Spans (eval fuel) m iterable start stop step entered →
      let ran := tracedRounds (exec fuel) d loopVariable.declared.type body (p.toList.map .int)
        (entered.pushFrame "for" .forLoop)
      ran.1.length = p.toList.length ∨
        ∃ last ∈ ran.1.getLast?, Leaves (block (exec fuel) body last) := by
  intro h
  have token : Token := ⟨.mark .colon, ":", .start⟩
  have hran := h 0 2 1 ⟨some 0, 2, 1, by decide⟩ rfl 1 ⟨⟨.str, token⟩, [⟨"i", none, token⟩]⟩
    ⟨"i", none, token⟩ []
    (.range (.literal (.int 0) token) (.literal (.int 2) token) token) []
    (.initial 1 none) (.initial 1 none) rfl (.range rfl rfl)
  obtain hlength | ⟨last, hlast, -⟩ := hran
  · cases hlength
  · cases hlast

end ScopedScript
