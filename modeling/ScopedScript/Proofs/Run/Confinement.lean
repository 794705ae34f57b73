import ScopedScript.Proofs.Run.Links
import ScopedScript.Proofs.Run.Moment
import ScopedScript.Proofs.Session

/-!
# What runs leave of the stack

Whatever comes of an expression or a statement, behind it the stack has the frames that it had, with
the same names, kinds, levels and links, and as many calls are under way. Frames that are entered
are left again, on faults as well.

What is not visible from the top frame is not touched at all. Of what is visible, an expression, a
conditional or a loop changes no more than values; any other statement can also add names, but to
the top frame alone. A call jumps to the frame in which its function was declared, which is visible,
and what that frame sees is visible too.

All of this is one relation between the states before and after, which every rule of the language
keeps.
-/

namespace ScopedScript

/-! ## What a run can do to the frames -/

namespace Stack

/-- Frames stay and keep their shapes and names. Those below a position get no names and change no
declared type, and those that are not visible do not change. -/
structure Touched (bound : Nat) (before after : Stack) : Prop
    extends Grows bound before after, SameShape before after where
  /-- Below the position the same names are bound, with the same declared types. -/
  types : ∀ i < bound, ∀ name, (after.bindingAt? name i).map (·.type) =
    (before.bindingAt? name i).map (·.type)
  /-- What is not visible is not touched. -/
  hidden : ∀ i, i ∉ before.chain → after.frames[i]? = before.frames[i]?

section Touched

variable {bound : Nat} {stack after : Stack}

theorem Touched.refl (bound : Nat) (stack : Stack) : stack.Touched bound stack where
  toGrows := .refl bound stack
  shape := (SameShape.refl stack).shape
  types _ _ _ := rfl
  hidden _ _ := rfl

theorem Touched.trans {last : Stack} (h : stack.Touched bound after)
    (h' : after.Touched bound last) : stack.Touched bound last where
  toGrows := h.toGrows.trans h'.toGrows
  shape := (h.toSameShape.trans h'.toSameShape).shape
  types i hi name := (h'.types i hi name).trans (h.types i hi name)
  hidden i hi := by
    rw [← h.toSameShape.chain] at hi
    rw [h'.hidden i hi, h.hidden i (h.toSameShape.chain ▸ hi)]

theorem Touched.mono {bound' : Nat} (h : stack.Touched bound after) (hle : bound' ≤ bound) :
    stack.Touched bound' after where
  toGrows := h.toGrows.mono hle
  shape := h.shape
  types i hi := h.types i (by omega)
  hidden := h.hidden

/-! ## Changes of one frame -/

theorem modifyFrame_sameShape {i : Nat} {change : Frame → Frame}
    (hshape : ∀ frame : Frame, (change frame).shape = frame.shape) :
    stack.SameShape (stack.modifyFrame i change) where
  size := by rw [modifyFrame, Array.size_modify]
  shape j := by
    rw [shapeAt?, shapeAt?, modifyFrame_frames]
    split
    · cases stack.frames[j]? with
      | none => rfl
      | some frame => exact congrArg some (hshape frame)
    · rfl

/-- A change of a visible frame that loses no names. -/
theorem modifyFrame_touched {i : Nat} (hi : i ∈ stack.chain) {change : Frame → Frame}
    (hshape : ∀ frame : Frame, (change frame).shape = frame.shape)
    (hgrows : ∀ frame : Frame, frame.Grows (change frame))
    (hfunctions : i < bound → ∀ frame : Frame, (change frame).functions = frame.functions)
    (htypes : i < bound → ∀ frame : Frame, stack.frames[i]? = some frame →
      ∀ name, ((change frame).bindings.find? name).map (·.type) =
        (frame.bindings.find? name).map (·.type)) :
    stack.Touched bound (stack.modifyFrame i change) where
  toGrows := modifyFrame_grows hgrows hfunctions
  shape := (modifyFrame_sameShape hshape).shape
  types j hj name := by
    rw [bindingAt?, bindingAt?, modifyFrame_frames]
    split
    next hij =>
      subst hij
      cases hframe : stack.frames[i]? with
      | none => rfl
      | some frame => exact htypes hj frame hframe name
    next => rfl
  hidden j hj := by
    rw [modifyFrame_frames, if_neg]
    rintro rfl
    exact hj hi

theorem topIndex?_mem_chain {top : Nat} (htop : stack.topIndex? = some top) :
    top ∈ stack.chain := by
  rw [chain, htop]
  exact List.mem_cons_self

/-- A change of the top frame that loses no names. -/
theorem modifyTop_touched {change : Frame → Frame}
    (hshape : ∀ frame : Frame, (change frame).shape = frame.shape)
    (hgrows : ∀ frame : Frame, frame.Grows (change frame)) :
    stack.Touched (stack.depth - 1) (stack.modifyTop change) := by
  unfold modifyTop
  cases htop : stack.topIndex? with
  | none => exact .refl _ stack
  | some top =>
    have hmem := topIndex?_mem_chain htop
    rw [topIndex?_eq_some] at htop
    have hnot : ¬ top < stack.depth - 1 := by omega
    exact modifyFrame_touched hmem hshape hgrows (fun h => absurd h hnot) fun h => absurd h hnot

theorem declare_touched (name : String) (type : Option Ty) (value : Option Value) :
    stack.Touched (stack.depth - 1) (stack.declare name type value) :=
  modifyTop_touched (fun _ => rfl) (bind_grows name ⟨type, value⟩)

theorem declareFunction_touched (decl : FunctionDecl) :
    stack.Touched (stack.depth - 1) (stack.declareFunction decl) :=
  modifyTop_touched (fun _ => rfl) fun _ =>
    ⟨rfl, fun _ h => h, fun _ h => Table.isSome_find?_insert h decl.name decl⟩

/-- A new value for a variable that a frame binds changes no declared type. -/
theorem store_types {frame : Frame} {name : String} (hbound : (frame.bindings.find? name).isSome)
    (value : Value) (other : String) :
    ((store name value frame).bindings.find? other).map (·.type) =
      (frame.bindings.find? other).map (·.type) := by
  obtain ⟨binding, hbinding⟩ := Option.isSome_iff_exists.mp hbound
  simp only [store, bind, Table.find?_insert, hbinding, Option.bind_some]
  split
  next heq =>
    rw [heq, hbinding]
    rfl
  next => rfl

/-- An assignment to a variable that is there. -/
theorem set_touched_of_resolve {name : String} {i : Nat} (hresolve : stack.resolve? name = some i)
    (value : Value) : stack.Touched bound (stack.set name value) := by
  simp only [set, hresolve]
  refine modifyFrame_touched (List.mem_of_find?_eq_some hresolve) (fun _ => rfl)
    (fun frame => bind_grows name _ frame) (fun _ _ => rfl) ?_
  intro _ frame hframe other
  have hbound := List.find?_some hresolve
  rw [bindingAt?_eq hframe] at hbound
  exact store_types hbound value other

/-- An assignment. A variable that is not there is added to the top frame. -/
theorem set_touched (name : String) (value : Value) :
    stack.Touched (stack.depth - 1) (stack.set name value) := by
  cases hresolve : stack.resolve? name with
  | none =>
    simp only [set, hresolve]
    exact modifyTop_touched (fun _ => rfl) fun frame => bind_grows name _ frame
  | some i => exact set_touched_of_resolve hresolve value

/-! ## Frames that are entered and left -/

theorem pop_frames {i : Nat} (hi : i < after.depth - 1) :
    after.pop.frames[i]? = after.frames[i]? := by
  rw [pop, Array.getElem?_pop]
  exact if_pos hi

/-- Behind a frame that sees what is visible anyway, what was visible before has been touched. -/
theorem Touched.leave (hlinked : stack.Linked) {outer : Option Nat}
    (hlive : ∀ i, outer = some i → i < stack.depth)
    (hvisible : ∀ i ∈ stack.visibleFrom outer, i ∈ stack.chain) {name : String} {kind : FrameKind}
    (h : (stack.pushLinked name kind outer).Touched stack.depth after) :
    stack.Touched stack.depth after.pop := by
  have hdepth : after.depth = stack.depth + 1 := by
    rw [h.toSameShape.depth, depth_pushLinked]
  have hpop : ∀ i < stack.depth, after.pop.frames[i]? = after.frames[i]? :=
    fun i hi => pop_frames (by omega)
  have hpushed : ∀ i < stack.depth,
      (stack.pushLinked name kind outer).frames[i]? = stack.frames[i]? := by
    intro i hi
    rw [pushLinked_frames, if_neg (by omega)]
  have hsize : after.pop.frames.size = stack.frames.size := by
    rw [pop, Array.size_pop]
    exact Nat.sub_eq_of_eq_add hdepth
  have hbeyond : ∀ i, ¬ i < stack.depth → after.pop.frames[i]? = stack.frames[i]? := by
    intro i hi
    unfold depth at hi
    rw [Array.getElem?_eq_none (by omega), Array.getElem?_eq_none (by omega)]
  refine { size := hsize, frame := ?_, shape := ?_, types := ?_, hidden := ?_ }
  · intro i frame hframe
    have hi : i < stack.depth := (Array.getElem?_eq_some_iff.mp hframe).1
    rw [← hpushed i hi] at hframe
    rw [hpop i hi]
    exact h.frame i frame hframe
  · intro i
    by_cases hi : i < stack.depth
    · have hshape := h.shape i
      rw [shapeAt?, shapeAt?, hpushed i hi] at hshape
      rw [shapeAt?, shapeAt?, hpop i hi, hshape]
    · rw [shapeAt?, shapeAt?, hbeyond i hi]
  · intro i hi other
    have htypes := h.types i hi other
    rw [bindingAt?, bindingAt?, hpushed i hi] at htypes
    rw [bindingAt?, bindingAt?, hpop i hi, htypes]
  · intro i hi
    by_cases hlt : i < stack.depth
    · rw [hpop i hlt, ← hpushed i hlt]
      refine h.hidden i ?_
      rw [hlinked.chain_pushLinked hlive, List.mem_cons]
      rintro (heq | hmem)
      · omega
      · exact hi (hvisible i hmem)
    · exact hbeyond i hlt

end Touched

end Stack

/-! ## What a run can do to the state -/

/-- Frames are touched as far as allowed, as many calls are under way, and as many can be. -/
structure Machine.Returned (bound : Nat) (before after : Machine) : Prop where
  stack : before.stack.Touched bound after.stack
  callDepth : after.callDepth = before.callDepth
  maxCallDepth : after.maxCallDepth = before.maxCallDepth

namespace Machine

section Returned

variable {bound : Nat} {m after : Machine}

theorem Returned.of_stack {stack : Stack} (h : m.stack.Touched bound stack) :
    m.Returned bound { m with stack } :=
  ⟨h, rfl, rfl⟩

theorem Returned.refl (bound : Nat) (m : Machine) : m.Returned bound m := .of_stack (.refl _ _)

theorem Returned.trans {last : Machine} (h : m.Returned bound after)
    (h' : after.Returned bound last) : m.Returned bound last where
  stack := h.stack.trans h'.stack
  callDepth := h'.callDepth.trans h.callDepth
  maxCallDepth := h'.maxCallDepth.trans h.maxCallDepth

theorem Returned.mono {bound' : Nat} (h : m.Returned bound after) (hle : bound' ≤ bound) :
    m.Returned bound' after :=
  ⟨h.stack.mono hle, h.callDepth, h.maxCallDepth⟩

theorem Returned.linked (h : m.Returned bound after) (hlinked : m.stack.Linked) :
    after.stack.Linked :=
  hlinked.sameShape h.stack.toSameShape

variable (hlinked : m.stack.Linked)

include hlinked

theorem linked_pushFrame (name : String) (kind : FrameKind) :
    (m.pushFrame name kind).stack.Linked := by
  rw [pushFrame_stack]
  exact hlinked.pushLinked Stack.topIndex?_lt_depth name kind

theorem linked_pushCall {outer : Nat} (houter : outer ∈ m.stack.chain) (name : String) :
    (m.pushCall name outer).stack.Linked := by
  rw [pushCall_stack]
  refine hlinked.pushLinked ?_ name .function
  rintro _ ⟨⟩
  exact hlinked.lt_depth houter

/-- Behind a frame inside the top one. -/
theorem Returned.popFrame {name : String} {kind : FrameKind}
    (h : (m.pushFrame name kind).Returned m.stack.depth after) :
    m.Returned m.stack.depth after.popFrame := by
  obtain ⟨_, hpush⟩ := pushFrame_eq m name kind
  obtain ⟨_, hpop⟩ := popFrame_eq after
  rw [hpush] at h
  rw [hpop]
  refine ⟨h.stack.leave hlinked Stack.topIndex?_lt_depth ?_, h.callDepth, h.maxCallDepth⟩
  intro i hi
  rw [Stack.chain_eq_visibleFrom]
  exact hi

/-- Behind the frame of a program. -/
theorem Returned.finish {name : String} {kind : FrameKind}
    (h : (m.pushFrame name kind).Returned m.stack.depth after) (ok : Bool) :
    m.Returned m.stack.depth (after.finish ok) := by
  have hpopped := Returned.popFrame hlinked h
  obtain ⟨_, hpop⟩ := popFrame_eq after
  obtain ⟨_, _, hfinish⟩ := finish_eq after ok
  rw [hpop] at hpopped
  rw [hfinish]
  exact ⟨hpopped.stack, hpopped.callDepth, hpopped.maxCallDepth⟩

/-- Behind the frame of a call. -/
theorem Returned.popCall {outer : Nat} (houter : outer ∈ m.stack.chain) {name : String}
    (h : (m.pushCall name outer).Returned m.stack.depth after) :
    m.Returned m.stack.depth after.popCall := by
  obtain ⟨_, hpush⟩ := pushCall_eq m name outer
  obtain ⟨_, hpop⟩ := popCall_eq after
  rw [hpush] at h
  rw [hpop]
  refine ⟨h.stack.leave hlinked ?_ ?_, Nat.sub_eq_of_eq_add h.callDepth, h.maxCallDepth⟩
  · rintro _ ⟨⟩
    exact hlinked.lt_depth houter
  · rw [Stack.chain_eq_visibleFrom] at houter ⊢
    exact Stack.visibleFrom_subset hlinked.downward houter

end Returned

end Machine

/-! ## Runs that do no more -/

namespace Exec

/-- The state in which a run ends, whatever comes of it. -/
def final {α : Type} (x : Exec α) (m : Machine) : Machine :=
  match x m with
  | .ok _ after => after
  | .error _ after => after

/-- A program ends where its statements do, and its frame is left. -/
theorem final_program (fuel : Nat) (p : Program) (m : Machine) :
    ∃ ok, final (program fuel p) m =
      (final (block (exec fuel) p) (m.pushFrame "global" .global)).finish ok := by
  unfold final program programBy
  cases block (exec fuel) p (m.pushFrame "global" .global) with
  | ok _ _ => exact ⟨true, rfl⟩
  | error _ _ => exact ⟨false, rfl⟩

/-- From linked stacks two runs are the same, and return to the state they came from. As many of the
top frames as `slack` says can get names. -/
def Confines (slack : Nat) {α : Type} (x y : Exec α) : Prop :=
  ∀ m : Machine, m.stack.Linked → x m = y m ∧ m.Returned (m.stack.depth - slack) (final y m)

section Confines

variable {α β : Type} {slack : Nat}

theorem Confines.of_returned {x : Exec α}
    (h : ∀ m : Machine, m.Returned (m.stack.depth - slack) (final x m)) : Confines slack x x :=
  fun m _ => ⟨rfl, h m⟩

theorem Confines.returned {x y : Exec α} (h : Confines slack x y) {m : Machine}
    (hlinked : m.stack.Linked) : m.Returned (m.stack.depth - slack) (final x m) := by
  obtain ⟨heq, hreturned⟩ := h m hlinked
  unfold final at hreturned ⊢
  rw [heq]
  exact hreturned

theorem Confines.bind {x y : Exec α} {f g : α → Exec β} (h : Confines slack x y)
    (hf : ∀ a, Confines slack (f a) (g a)) : Confines slack (x >>= f) (y >>= g) := by
  intro m hlinked
  obtain ⟨heq, hreturned⟩ := h m hlinked
  unfold final at hreturned ⊢
  rw [bind_apply, bind_apply, heq]
  cases hy : y m with
  | error halt after =>
    rw [hy] at hreturned
    exact ⟨rfl, hreturned⟩
  | ok a after =>
    rw [hy] at hreturned
    obtain ⟨heq', hreturned'⟩ := hf a after (hreturned.linked hlinked)
    refine ⟨heq', hreturned.trans ?_⟩
    rw [← hreturned.stack.toSameShape.depth]
    exact hreturned'

theorem confines_composes (slack : Nat) : Composes (Confines slack) where
  pure _ := .of_returned fun _ => .refl _ _
  halt _ := .of_returned fun _ => .refl _ _
  bind := .bind

/-- A run between two changes of state, the second of which takes the first one back. -/
theorem Confines.bracket {x y : Exec α} (h : Confines slack x y) {enter leave : Machine → Machine}
    {m : Machine} (hlinked : (enter m).stack.Linked) {bound : Nat}
    (hleave : ∀ after, (enter m).Returned ((enter m).stack.depth - slack) after →
      m.Returned bound (leave after)) :
    Exec.bracket enter leave x m = Exec.bracket enter leave y m ∧
      m.Returned bound (final (Exec.bracket enter leave y) m) := by
  obtain ⟨heq, hreturned⟩ := h (enter m) hlinked
  unfold final at hreturned ⊢
  unfold Exec.bracket
  rw [heq]
  cases hy : y (enter m) with
  | error halt after =>
    rw [hy] at hreturned
    exact ⟨rfl, hleave after hreturned⟩
  | ok a after =>
    rw [hy] at hreturned
    exact ⟨rfl, hleave after hreturned⟩

theorem Confines.inFrame {x y : Exec α} (h : Confines 1 x y) (name : String) (kind : FrameKind) :
    Confines 0 (inFrame name kind x) (inFrame name kind y) := by
  intro m hlinked
  refine h.bracket (Machine.linked_pushFrame hlinked name kind) ?_
  intro after hreturned
  rw [Machine.pushFrame_stack, Stack.push, Stack.depth_pushLinked] at hreturned
  exact hreturned.popFrame hlinked

theorem Confines.inCall {x y : Exec α} (h : Confines 1 x y) (name : String) {outer : Nat}
    {m : Machine} (hlinked : m.stack.Linked) (houter : outer ∈ m.stack.chain) :
    inCall name outer x m = inCall name outer y m ∧
      m.Returned m.stack.depth (final (inCall name outer y) m) := by
  refine h.bracket (Machine.linked_pushCall hlinked houter name) ?_
  intro after hreturned
  rw [Machine.pushCall_stack, Stack.pushFunction, Stack.depth_pushLinked] at hreturned
  exact hreturned.popCall hlinked houter

end Confines

/-! ## Operations -/

theorem final_load (name : String) (position : Position) (m : Machine) :
    final (load name position) m = m := by
  unfold final load
  simp only [bind_apply, get_apply]
  cases (m.stack.get? name).bind (·.value) <;> rfl

theorem final_write (text : String) (position : Position) (m : Machine) :
    ∃ output, final (write text position) m = { m with output } := by
  unfold final write
  simp only [bind_apply, get_apply, set_apply]
  cases (m.output.write text).1 <;> exact ⟨_, rfl⟩

theorem final_store (name : String) (v : Value) (position : Position) (m : Machine) :
    final (store name v position) m = m ∨
      ∃ v', final (store name v position) m = { m with stack := m.stack.set name v' } := by
  unfold final store
  simp only [bind_apply, get_apply]
  cases (m.stack.get? name).bind (·.type) with
  | none => exact .inr ⟨v, rfl⟩
  | some type =>
    simp only [coerce]
    cases v.coerce? type with
    | none => exact .inl rfl
    | some v' => exact .inr ⟨v', rfl⟩

theorem mem_chain_of_findFunction? {stack : Stack} {name : String} {found : Nat × FunctionDecl}
    (h : stack.findFunction? name = some found) : found.1 ∈ stack.chain := by
  obtain ⟨i, hi, hfound⟩ := List.exists_of_findSome?_eq_some h
  obtain ⟨decl, _, rfl⟩ := Option.map_eq_some_iff.mp hfound
  exact hi

theorem confines_declare (name : String) (type : Ty) (v : Option Value) :
    Confines 1 (declare name type v) (declare name type v) :=
  .of_returned fun _ => .of_stack (Stack.declare_touched name (some type) v)

/-- All rules are confined: evaluation adds no names, and execution adds them to the top frame. -/
theorem confines_respects : Respects (Confines 0) (Confines 1) where
  evaluation := confines_composes 0
  execution := confines_composes 1
  weaken h m hlinked := ⟨(h m hlinked).1, (h m hlinked).2.mono (Nat.sub_le _ _)⟩
  load name position := .of_returned fun m => by
    rw [final_load]
    exact .refl _ _
  write text position := .of_returned fun m => by
    obtain ⟨output, hfinal⟩ := final_write text position m
    rw [hfinal]
    exact ⟨.refl _ _, rfl, rfl⟩
  store name v position := .of_returned fun m => by
    obtain hfinal | ⟨v', hfinal⟩ := final_store name v position m
    · rw [hfinal]
      exact .refl _ _
    · rw [hfinal]
      exact .of_stack (Stack.set_touched name v')
  declare name type := confines_declare name type none
  fit name type := fit_rel (confines_composes 1) (confines_declare name type)
  declareFunction decl := .of_returned fun _ => .of_stack (Stack.declareFunction_touched decl)
  inFrame name kind h := h.inFrame name kind
  call name arguments position hinside hbuiltin := by
    intro m hlinked
    unfold call
    rw [bind_apply, bind_apply, final, bind_apply]
    simp only [get_apply]
    cases hfound : m.stack.findFunction? name with
    | none =>
      cases Builtin.ofName? name with
      | none => exact ⟨rfl, .refl _ _⟩
      | some b => exact hbuiltin b m hlinked
    | some found =>
      simp only [callFunction_apply]
      split
      · split
        · exact ⟨rfl, .refl _ _⟩
        · exact (hinside found.2).inCall _ hlinked (mem_chain_of_findFunction? hfound)
      · exact ⟨rfl, .refl _ _⟩

end Exec

/-! ## All runs -/

/-- Links point at frames below, one level up, and the walk from the top through what is visible
stays among the live frames and ends. -/
def Stack.Orderly (stack : Stack) : Prop :=
  stack.Linked ∧ stack.Walk stack.topIndex? stack.chain

/-- The frames that were there are there again, apart from what they hold, and as many calls are
under way. -/
def Machine.Unwound (before after : Machine) : Prop :=
  before.stack.SameShape after.stack ∧ after.callDepth = before.callDepth

theorem Machine.Returned.unwound {bound : Nat} {m after : Machine} (h : m.Returned bound after) :
    m.Unwound after :=
  ⟨h.stack.toSameShape, h.callDepth⟩

theorem Machine.Unwound.empty {m after : Machine} (h : m.Unwound after)
    (hempty : m.stack.frames = #[]) : after.stack.frames = #[] := by
  rw [← Array.size_eq_zero_iff, h.1.size, hempty]
  rfl

namespace Exec

/-- A run that is made to halt once its stack is out of order passes all moments. -/
theorem pass_confines (halt : Halt) (moment : Moment) :
    Confines 0 (pass (fun _ now => ¬ now.stack.Orderly) halt moment) (pure ()) := by
  intro m hlinked
  exact ⟨pass_apply (not_not_intro ⟨hlinked, hlinked.walk⟩), .refl _ _⟩

theorem until_confines (halt : Halt) (fuel : Nat) :
    (∀ e, Confines 0 (evalUntil (fun _ now => ¬ now.stack.Orderly) halt fuel e) (eval fuel e)) ∧
      ∀ s, Confines 1 (execUntil (fun _ now => ¬ now.stack.Orderly) halt fuel s)
        (exec fuel s) := by
  refine until_rel confines_respects (fun _ => pass_confines halt _) (fun _ => pass_confines halt _)
    ?_ fuel
  intro eval eval' exec exec' heval hexec name arguments position
  exact callUntil_rel confines_respects.evaluation (pass_confines halt _)
    (call_rel confines_respects heval hexec name arguments position)

/-- A program is left with the state that it was entered with. -/
theorem program_confines (halt : Halt) (fuel : Nat) (p : Program) :
    Confines 0 (programUntil (fun _ now => ¬ now.stack.Orderly) halt fuel p)
      (program fuel p) := by
  intro m hlinked
  obtain ⟨heq, hreturned⟩ := block_rel confines_respects (until_confines halt fuel).2 p
    (m.pushFrame "global" .global) (Machine.linked_pushFrame hlinked _ _)
  rw [Machine.pushFrame_stack, Stack.push, Stack.depth_pushLinked] at hreturned
  obtain ⟨ok, hfinal⟩ := final_program fuel p m
  rw [hfinal]
  exact ⟨programBy_congr heq, hreturned.finish hlinked ok⟩

end Exec

open Exec in
/-- Frames and calls are left on every way out. From a state with links in order, whatever comes of
an expression, a statement or a program, the frames behind it are those that were there, with their
names, kinds, levels and links, and as many calls are under way. Links are in order at every moment
on the way: a run that is made to halt once they are not is the plain one. So no frame and no call
is left over from a program that began with none. -/
theorem frames_unwound (fuel : Nat) {m : Machine} (hlinked : m.stack.Linked) :
    (∀ e, m.Unwound (final (eval fuel e) m)) ∧
    (∀ s, m.Unwound (final (exec fuel s) m)) ∧
    (∀ p, m.Unwound (final (program fuel p) m)) ∧
    (∀ halt,
      (∀ e, evalUntil (fun _ now => ¬ now.stack.Orderly) halt fuel e m = eval fuel e m) ∧
      (∀ s, execUntil (fun _ now => ¬ now.stack.Orderly) halt fuel s m = exec fuel s m) ∧
      ∀ p, programUntil (fun _ now => ¬ now.stack.Orderly) halt fuel p m = program fuel p m) ∧
    (m.stack.frames = #[] → m.callDepth = 0 → ∀ p,
      (final (program fuel p) m).stack.frames = #[] ∧
        (final (program fuel p) m).callDepth = 0) := by
  have hprogram : ∀ p, m.Unwound (final (program fuel p) m) :=
    fun p => (program_confines .outOfFuel fuel p m hlinked).2.unwound
  refine ⟨?_, ?_, hprogram, ?_, ?_⟩
  · intro e
    exact ((until_confines .outOfFuel fuel).1 e m hlinked).2.unwound
  · intro s
    exact ((until_confines .outOfFuel fuel).2 s m hlinked).2.unwound
  · intro halt
    obtain ⟨heval, hexec⟩ := until_confines halt fuel
    exact ⟨fun e => (heval e m hlinked).1, fun s => (hexec s m hlinked).1,
      fun p => (program_confines halt fuel p m hlinked).1⟩
  · intro hempty hdepth p
    exact ⟨(hprogram p).empty hempty, (hprogram p).2.trans hdepth⟩

/-- A division by zero in a loop in a call: nothing is left of their frames. -/
theorem frames_unwound_division : ∃ p, ∃ d : Diagnostic RuntimeFault, ∃ last,
    read "func(int) f(var(int) d) { for var(int) i in 0:1 { return 1 // d; } } f(0);" = .ok p ∧
    d.cause = .divisionByZero ∧
    Exec.program 20 p (.initial 100 none) = .error (.fault d) last ∧
    last.stack.frames = #[] ∧ last.callDepth = 0 ∧
    ∀ s, ((Machine.initial 100 none).pushFrame "global" .global).Unwound
      (Exec.final (Exec.exec 20 s) ((Machine.initial 100 none).pushFrame "global" .global)) := by
  obtain ⟨ts, p, htokenize, hparse, hfault⟩ := exists_read
    "func(int) f(var(int) d) { for var(int) i in 0:1 { return 1 // d; } } f(0);" rfl
    (fun p => match Exec.program 20 p (.initial 100 none) with
      | .error (.fault d) _ => decide (d.cause = .divisionByZero)
      | _ => false) (by decide +kernel)
  have hempty : (Machine.initial 100 none).stack.Linked := .empty rfl
  have hunwound := (frames_unwound 20 hempty).2.2.2.2 rfl rfl p
  unfold Exec.final at hunwound
  cases hrun : Exec.program 20 p (.initial 100 none) with
  | ok _ last =>
    simp only [hrun] at hfault
    cases hfault
  | error halt last =>
    simp only [hrun] at hfault
    rw [hrun] at hunwound
    cases halt with
    | outOfFuel => cases hfault
    | fault d =>
      exact ⟨p, d, last, read_eq_ok.mpr ⟨ts, htokenize, hparse⟩, of_decide_eq_true hfault, hrun,
        hunwound.1, hunwound.2, (frames_unwound 20 (Machine.linked_pushFrame hempty _ _)).2.1⟩

open Exec in
/-- Only what is visible is touched, and nothing leaks out of a block. From a state with links in
order, whatever comes of it, an expression changes no more than values of variables, and only of
those in frames that are visible from the top. The same goes for a conditional and a loop. Any other
statement can also add names and functions to the top frame, which loses none. -/
theorem touches_visible_only (fuel : Nat) {m : Machine} (hlinked : m.stack.Linked) :
    (∀ e, m.stack.Touched m.stack.depth (final (eval fuel e) m).stack) ∧
    (∀ s : Statement, s.isCompound →
      m.stack.Touched m.stack.depth (final (exec fuel s) m).stack) ∧
    ∀ s, m.stack.Touched (m.stack.depth - 1) (final (exec fuel s) m).stack := by
  obtain ⟨heval, hexec⟩ := run_rel confines_respects fuel
  refine ⟨?_, ?_, ?_⟩
  · intro e
    exact (heval e m hlinked).2.stack
  · intro s hs
    exact (compound_rel confines_respects fuel hs m hlinked).2.stack
  · intro s
    exact (hexec s m hlinked).2.stack

/-- The body of a function does not touch a block from which the function is called. -/
theorem touches_visible_only_call : ∃ m : Machine, m.stack.chain = [2, 0] ∧ m.stack.Linked ∧
    ∀ s, (Exec.final (Exec.exec 20 s) m).stack.frames[1]? = m.stack.frames[1]? := by
  have hempty : (Machine.initial 100 none).stack.Linked := .empty rfl
  have hblock := Machine.linked_pushFrame (Machine.linked_pushFrame hempty "global" .global) "if"
    .conditional
  have hseen : 0 ∈ (((Machine.initial 100 none).pushFrame "global" .global).pushFrame "if"
      .conditional).stack.chain := by decide
  have hlinked := Machine.linked_pushCall hblock hseen "f"
  refine ⟨_, by decide, hlinked, fun s => ?_⟩
  exact ((touches_visible_only 20 hlinked).2.2 s).hidden 1 (by decide)

end ScopedScript
