import Mathlib.Data.List.Find
import ScopedScript.Proofs.Run.Invariant
import ScopedScript.Proofs.Run.Rounds
import ScopedScript.Proofs.Run.Typing

/-!
# Laws of the stack as a store

A stack is a store of variables and functions under names. Which frame a name is found in depends on
the links, and these can skip frames: an assignment can land in any frame below the top. The laws
here do not speak of frames. They tell what is found under each name before and behind an operation,
for every stack that the operations can build.

A frame that is entered and left again leaves behind what was assigned through it. While names are
assigned and declared in it, the stack is always some stack below with one frame more, and each
change changes the one or the other.
-/

namespace ScopedScript

/-- A variable with the value that it was last assigned, if it was assigned any. -/
def Binding.assign (binding : Binding) (last? : Option Value) : Binding :=
  { binding with value := last?.or binding.value }

namespace Stack

/-! ## Operations -/

/-- The stacks that the operations build. -/
inductive Reachable : Stack → Prop where
  | empty : Reachable .empty
  | push {stack : Stack} (name : String) (kind : FrameKind) (h : stack.Reachable) :
      (stack.push name kind).Reachable
  /-- A frame is entered that sees a live frame. -/
  | pushFunction {stack : Stack} (name : String) {outer : Nat} (houter : outer < stack.depth)
      (h : stack.Reachable) : (stack.pushFunction name outer).Reachable
  | pop {stack : Stack} (h : stack.Reachable) : stack.pop.Reachable
  | set {stack : Stack} (name : String) (value : Value) (h : stack.Reachable) :
      (stack.set name value).Reachable
  | declare {stack : Stack} (name : String) (type : Option Ty) (value : Option Value)
      (h : stack.Reachable) : (stack.declare name type value).Reachable
  | declareFunction {stack : Stack} (decl : FunctionDecl) (h : stack.Reachable) :
      (stack.declareFunction decl).Reachable

/-- The links of every such stack are in order. -/
theorem Reachable.linked {stack : Stack} (h : stack.Reachable) : stack.Linked := by
  induction h with
  | empty => exact .empty rfl
  | push name kind _ ih => exact ih.pushLinked topIndex?_lt_depth name kind
  | pushFunction name houter _ ih =>
    refine ih.pushLinked ?_ name .function
    rintro _ ⟨⟩
    exact houter
  | pop _ ih => exact ih.pop
  | set name value _ ih => exact ih.sameShape (set_touched name value).toSameShape
  | declare name type value _ ih => exact ih.sameShape (declare_touched name type value).toSameShape
  | declareFunction decl _ ih => exact ih.sameShape (declareFunction_touched decl).toSameShape

/-- A change of what frames hold. -/
inductive Change where
  | set (name : String) (value : Value)
  | declare (name : String) (type : Option Ty) (value : Option Value)
  | declareFunction (decl : FunctionDecl)

/-- A stack with a change made. -/
def apply (stack : Stack) : Change → Stack
  | .set name value => stack.set name value
  | .declare name type value => stack.declare name type value
  | .declareFunction decl => stack.declareFunction decl

/-- The value that a change assigns to a name, if it assigns one. -/
def Change.assigned? (name : String) : Change → Option Value
  | set other value => if other = name then some value else none
  | _ => none

/-- Whether the top frame binds a name. -/
def topBinds (stack : Stack) (name : String) : Bool :=
  (stack.top?.bind (·.bindings.find? name)).isSome

/-- The value that a change assigns to a name, if the top frame does not bind that. -/
def outside? (stack : Stack) (change : Change) (name : String) : Option Value :=
  if stack.topBinds name then none else change.assigned? name

/-- The last value that changes assign to a name while the top frame does not bind it. -/
def lastOutside? (name : String) : Stack → List Change → Option Value
  | _, [] => none
  | stack, change :: rest =>
    (lastOutside? name (stack.apply change) rest).or (stack.outside? change name)

/-! ## What is found under names -/

section Lookups

variable {before after : Stack} {name : String}

theorem get?_of_same (hshape : before.SameShape after)
    (hsame : ∀ i, after.bindingAt? name i = before.bindingAt? name i) :
    after.get? name = before.get? name := by
  rw [get?, get?, hshape.chain, funext hsame]

theorem findFunction?_of_same (hshape : before.SameShape after)
    (hsame : ∀ i, after.functionAt? name i = before.functionAt? name i) :
    after.findFunction? name = before.findFunction? name := by
  simp only [findFunction?, hshape.chain, hsame]

/-- A variable is visible exactly when a frame is found that binds it. -/
theorem isSome_resolve? (stack : Stack) (name : String) :
    (stack.resolve? name).isSome = (stack.get? name).isSome := by
  rw [resolve?, List.isSome_find?, get?, List.isSome_findSome?]

/-- How often frames were entered does not matter. -/
theorem get?_of_frames (h : after.frames = before.frames) :
    after.get? name = before.get? name := by
  obtain ⟨frames, pushed⟩ := after
  cases h
  rfl

theorem findFunction?_of_frames (h : after.frames = before.frames) :
    after.findFunction? name = before.findFunction? name := by
  obtain ⟨frames, pushed⟩ := after
  cases h
  rfl

end Lookups

variable {stack : Stack}

/-- A change of a frame that leaves links and a name alone leaves what is found under the name. -/
theorem get?_modifyFrame_of_same {i : Nat} {change : Frame → Frame} {name : String}
    (hshape : ∀ frame : Frame, (change frame).shape = frame.shape)
    (h : ∀ frame : Frame, (change frame).bindings.find? name = frame.bindings.find? name) :
    (stack.modifyFrame i change).get? name = stack.get? name := by
  refine get?_of_same (modifyFrame_sameShape hshape) fun j => ?_
  rw [bindingAt?_modifyFrame]
  simp only [h, ite_self, bindingAt?]

theorem findFunction?_modifyFrame_of_same {i : Nat} {change : Frame → Frame}
    (hshape : ∀ frame : Frame, (change frame).shape = frame.shape)
    (h : ∀ frame : Frame, (change frame).functions = frame.functions) (name : String) :
    (stack.modifyFrame i change).findFunction? name = stack.findFunction? name := by
  refine findFunction?_of_same (modifyFrame_sameShape hshape) fun j => ?_
  rw [functionAt?, functionAt?, modifyFrame_frames]
  split
  · cases stack.frames[j]? with
    | none => rfl
    | some frame => simp [h]
  · rfl

/-! ## Assignments -/

/-- What an assignment leaves. -/
structure Assigned (before : Stack) (name : String) (value : Value) (after : Stack) : Prop where
  visible : ∀ binding, before.get? name = some binding →
    after.get? name = some ⟨binding.type, some value⟩
  /-- If the variable is not visible, the top frame has got an undeclared one. -/
  added : before.get? name = none → after.get? name = some ⟨none, some value⟩ ∧
    ∃ top, after.topIndex? = some top ∧ after.bindingAt? name top = some ⟨none, some value⟩
  others : ∀ other, other ≠ name → after.get? other = before.get? other
  functions : ∀ other, after.findFunction? other = before.findFunction? other

/-- An assignment changes one frame: the nearest visible one that binds the name, and the top one if
there is none. -/
theorem exists_target (h : 0 < stack.depth) (name : String) :
    ∃ nearer i farther, stack.chain = nearer ++ i :: farther ∧ i < stack.depth ∧
      (∀ j ∈ nearer, i ≠ j ∧ stack.bindingAt? name j = none) ∧
      stack.get? name = stack.bindingAt? name i ∧
      (stack.get? name = none → stack.topIndex? = some i) ∧
      ∀ value, stack.set name value = stack.modifyFrame i (store name value) := by
  cases hresolve : stack.resolve? name with
  | some i =>
    obtain ⟨hbinds, nearer, farther, hchain, hnearer⟩ := List.find?_eq_some_iff_append.mp hresolve
    obtain ⟨binding, hbinding⟩ := Option.isSome_iff_exists.mp hbinds
    have hget : stack.get? name = some binding := by
      rw [get?_eq, hresolve, Option.bind_some, hbinding]
    obtain ⟨frame, hframe, -⟩ := Option.bind_eq_some_iff.mp hbinding
    refine ⟨nearer, i, farther, hchain, (Array.getElem?_eq_some_iff.mp hframe).1, ?_, ?_, ?_, ?_⟩
    · intro j hj
      have hnone : stack.bindingAt? name j = none := by simpa using hnearer j hj
      refine ⟨?_, hnone⟩
      rintro rfl
      rw [hnone] at hbinding
      cases hbinding
    · rw [hget, hbinding]
    · intro hnone
      rw [hget] at hnone
      cases hnone
    · intro value
      simp only [Stack.set, hresolve]
  | none =>
    have htop : stack.topIndex? = some (stack.depth - 1) := topIndex?_eq_some.mpr (by omega)
    have hget : stack.get? name = none := by
      rw [get?_eq, hresolve, Option.bind_none]
    have hchain : ∃ farther, stack.chain = (stack.depth - 1) :: farther := by
      rw [chain, htop]
      exact ⟨_, rfl⟩
    obtain ⟨farther, hchain⟩ := hchain
    have hbinding : stack.bindingAt? name (stack.depth - 1) = none := by
      rw [get?, hchain, List.findSome?_cons] at hget
      cases hat : stack.bindingAt? name (stack.depth - 1) with
      | none => rfl
      | some binding =>
        rw [hat] at hget
        cases hget
    refine ⟨[], stack.depth - 1, farther, hchain, by omega, ?_, ?_, fun _ => htop, ?_⟩
    · intro j hj
      cases hj
    · rw [hget, hbinding]
    · intro value
      simp only [Stack.set, hresolve, modifyTop, htop]

theorem bindingAt?_store {i : Nat} (hi : i < stack.depth) (name : String) (value : Value) :
    (stack.modifyFrame i (store name value)).bindingAt? name i =
      some ⟨(stack.bindingAt? name i).bind (·.type), some value⟩ := by
  obtain ⟨frame, hframe⟩ := exists_frame hi
  rw [bindingAt?_modifyFrame, if_pos rfl, bindingAt?, hframe]
  exact Table.find?_insert_self _ _ _

theorem assigned_set (h : 0 < stack.depth) (name : String) (value : Value) :
    stack.Assigned name value (stack.set name value) := by
  have hshape : stack.SameShape (stack.set name value) := (set_touched name value).toSameShape
  obtain ⟨nearer, i, farther, hchain, hi, hnearer, hget, htop, hset⟩ := exists_target h name
  have hstored := bindingAt?_store hi name value
  have hafter : (stack.set name value).get? name =
      some ⟨(stack.get? name).bind (·.type), some value⟩ := by
    -- The nearer frames did not bind the name, and they are not the one that changes.
    have hnone : nearer.findSome? ((stack.modifyFrame i (store name value)).bindingAt? name) =
        none := by
      refine List.findSome?_eq_none_iff.mpr fun j hj => ?_
      obtain ⟨hne, hnone⟩ := hnearer j hj
      rw [bindingAt?_modifyFrame, if_neg hne, hnone]
    rw [hget, get?, hshape.chain, hchain, List.findSome?_append, hset, hnone, Option.none_or,
      List.findSome?_cons, hstored]
  refine ⟨?_, ?_, ?_, ?_⟩
  · intro binding hbinding
    rw [hafter, hbinding]
    rfl
  · intro hnone
    rw [hafter, hnone]
    refine ⟨rfl, i, hshape.topIndex?.trans (htop hnone), ?_⟩
    rw [hset, hstored, ← hget, hnone]
    rfl
  · intro other hother
    rw [hset]
    exact get?_modifyFrame_of_same (fun _ => rfl) fun _ => Table.find?_insert_of_ne _ _ hother
  · intro other
    rw [hset]
    refine findFunction?_modifyFrame_of_same ?_ ?_ other
    all_goals
      intro frame
      rfl

/-! ## Declarations -/

/-- What a declaration of a variable leaves. -/
structure DeclaredAs (before : Stack) (name : String) (binding : Binding) (after : Stack) :
    Prop where
  found : after.get? name = some binding
  others : ∀ other, other ≠ name → after.get? other = before.get? other
  functions : ∀ other, after.findFunction? other = before.findFunction? other

theorem declared_declare (h : 0 < stack.depth) (name : String) (type : Option Ty)
    (value : Option Value) :
    stack.DeclaredAs name ⟨type, value⟩ (stack.declare name type value) := by
  have htop : stack.topIndex? = some (stack.depth - 1) := topIndex?_eq_some.mpr (by omega)
  have hdeclare : stack.declare name type value =
      stack.modifyFrame (stack.depth - 1) (bind name ⟨type, value⟩) := by
    rw [declare, modifyTop, htop]
  refine ⟨get?_declare_self h name type value, ?_, ?_⟩
  · intro other hother
    rw [hdeclare]
    exact get?_modifyFrame_of_same (fun _ => rfl) fun _ => Table.find?_insert_of_ne _ _ hother
  · intro other
    rw [hdeclare]
    refine findFunction?_modifyFrame_of_same ?_ ?_ other
    all_goals
      intro frame
      rfl

/-! ## A frame on top -/

/-- A stack is a stack below and one frame more, which links to the top of that. -/
structure Over (below : Stack) (frame : Frame) (stack : Stack) : Prop where
  frames : stack.frames = below.frames.push frame
  outer : frame.outer = below.topIndex?

section Over

variable {below : Stack} {frame : Frame} (h : below.Over frame stack) (hlinked : below.Linked)

include h

theorem Over.getElem? (i : Nat) :
    stack.frames[i]? = if i = below.depth then some frame else below.frames[i]? := by
  rw [h.frames, Array.getElem?_push]
  rfl

theorem Over.top? : stack.top? = some frame := by
  rw [Stack.top?, h.frames, Array.back?_push]

theorem Over.topIndex? : stack.topIndex? = some below.depth := by
  rw [topIndex?_eq_some, depth, h.frames, Array.size_push]
  rfl

theorem Over.pop_frames : stack.pop.frames = below.frames := by
  rw [pop, h.frames, Array.pop_push]

theorem Over.link (i : Nat) :
    stack.link i = if i = below.depth then below.topIndex? else below.link i := by
  rw [Stack.link, h.getElem?]
  split
  · exact h.outer
  · rfl

theorem Over.bindingAt? (name : String) (i : Nat) :
    stack.bindingAt? name i =
      if i = below.depth then frame.bindings.find? name else below.bindingAt? name i := by
  rw [Stack.bindingAt?, h.getElem?]
  split <;> rfl

include hlinked

theorem Over.downward : Downward stack.link := by
  intro i outer hlink
  rw [h.link] at hlink
  split at hlink
  next hi =>
    rw [hi]
    exact topIndex?_lt_depth outer hlink
  next => exact hlinked.downward i outer hlink

/-- From the frame on top its own contents are seen first, and then what is seen below. -/
theorem Over.chain : stack.chain = below.depth :: below.chain := by
  rw [chain_eq_visibleFrom, h.topIndex?, visibleFrom_some (h.downward hlinked), h.link, if_pos rfl,
    chain_eq_visibleFrom]
  congr 1
  -- What is visible below lies below the frame on top, and has the links that it had.
  refine visibleFrom_congr fun i hi => ?_
  have hlt := hlinked.lt_depth (chain_eq_visibleFrom below ▸ hi)
  rw [h.link, if_neg (Nat.ne_of_lt hlt)]

theorem Over.resolve? (name : String) : stack.resolve? name =
    if (frame.bindings.find? name).isSome then some below.depth else below.resolve? name := by
  rw [Stack.resolve?, h.chain hlinked, List.find?_cons, h.bindingAt?, if_pos rfl]
  cases (frame.bindings.find? name).isSome with
  | true => rfl
  | false =>
    refine List.find?_congr fun i hi => ?_
    rw [h.bindingAt?, if_neg (Nat.ne_of_lt (hlinked.lt_depth hi))]

omit hlinked

/-- A change of the frame on top. -/
theorem Over.modifyFrame_top {change : Frame → Frame}
    (hchange : (change frame).outer = frame.outer) :
    below.Over (change frame) (stack.modifyFrame below.depth change) where
  outer := hchange.trans h.outer
  frames := by
    refine Array.ext_getElem? fun i => ?_
    rw [modifyFrame_frames, h.getElem?, Array.getElem?_push]
    change _ = if i = below.depth then _ else _
    by_cases hi : i = below.depth
    · simp only [hi, if_true, Option.map_some]
    · simp only [hi, Ne.symm hi, if_false]

theorem Over.modifyTop (change : Frame → Frame) (hchange : (change frame).outer = frame.outer) :
    below.Over (change frame) (stack.modifyTop change) := by
  rw [Stack.modifyTop, h.topIndex?]
  exact h.modifyFrame_top hchange

/-- A change of a frame below. -/
theorem Over.modifyFrame_below {i : Nat} (hi : i < below.depth) {change : Frame → Frame}
    (hchange : ∀ frame : Frame, (change frame).shape = frame.shape) :
    (below.modifyFrame i change).Over frame (stack.modifyFrame i change) where
  outer := h.outer.trans (modifyFrame_sameShape hchange).topIndex?.symm
  frames := by
    refine Array.ext_getElem? fun j => ?_
    have hsize : (below.modifyFrame i change).frames.size = below.depth :=
      (modifyFrame_sameShape hchange).size
    rw [modifyFrame_frames, h.getElem?, Array.getElem?_push, modifyFrame_frames, hsize]
    by_cases hj : j = below.depth
    · have hij : i ≠ j := by omega
      simp only [hj ▸ hij, hj, if_true, if_false]
    · simp only [hj, if_false]

end Over

/-! ## Changes while a frame is on top -/

/-- What is left below a frame: functions are found as before, and so are variables, with the values
that they were last assigned. -/
structure Left (before : Stack) (last? : String → Option Value) (after : Stack) : Prop where
  /-- Variables are found as before, up to their values. -/
  bindings : ∀ name, after.get? name = (before.get? name).map (·.assign (last? name))
  functions : ∀ name, after.findFunction? name = before.findFunction? name

theorem Left.refl (stack : Stack) {last? : String → Option Value}
    (h : ∀ name, (stack.get? name).isSome → last? name = none) : stack.Left last? stack where
  bindings name := by
    cases hget : stack.get? name with
    | none => rfl
    | some binding =>
      rw [h name (by rw [hget]; rfl)]
      rfl
  functions _ := rfl

theorem Left.trans {before middle after : Stack} {first? last? : String → Option Value}
    (h : before.Left first? middle) (h' : middle.Left last? after) :
    before.Left (fun name => (last? name).or (first? name)) after where
  bindings name := by
    rw [h'.bindings, h.bindings, Option.map_map]
    simp only [Function.comp_def, Binding.assign, Option.or_assoc]
  functions name := (h'.functions name).trans (h.functions name)

/-- An assignment to a visible variable is what is left of it. -/
theorem Assigned.left {after : Stack} {name : String} {value : Value}
    (h : stack.Assigned name value after) (hvisible : (stack.get? name).isSome) :
    stack.Left (Change.set name value).assigned? after where
  bindings other := by
    rw [Change.assigned?]
    split
    next heq =>
      obtain ⟨binding, hbinding⟩ := Option.isSome_iff_exists.mp hvisible
      rw [← heq, h.visible binding hbinding, hbinding]
      rfl
    next hne =>
      rw [h.others other (Ne.symm hne)]
      cases stack.get? other <;> rfl
  functions := h.functions

section Changes

variable {below : Stack} {frame : Frame} (h : below.Over frame stack) (hlinked : below.Linked)

include h

theorem Over.topBinds (name : String) :
    stack.topBinds name = (frame.bindings.find? name).isSome := by
  rw [Stack.topBinds, h.top?, Option.bind_some]

include hlinked

/-- An assignment to a name that the frame on top binds changes that frame. -/
theorem Over.set_of_topBinds {name : String} (hbinds : stack.topBinds name) (value : Value) :
    ∃ below' frame', below'.Over frame' (stack.set name value) ∧ below'.Linked ∧
      below.Left (stack.outside? (.set name value)) below' := by
  have hresolve : stack.resolve? name = some below.depth := by
    rw [h.resolve? hlinked name, ← h.topBinds, if_pos hbinds]
  refine ⟨below, Stack.store name value frame, ?_, hlinked, .refl below fun other _ => ?_⟩
  · rw [Stack.set, hresolve]
    exact h.modifyFrame_top rfl
  · rw [outside?, Change.assigned?, ite_eq_left_iff]
    intro hother
    refine if_neg ?_
    rintro rfl
    exact hother hbinds

/-- Otherwise it changes the frame below that binds the name, if there is one. -/
theorem Over.set_of_visible {name : String} (hbinds : ¬ stack.topBinds name)
    (hvisible : (below.get? name).isSome) (value : Value) :
    ∃ below' frame', below'.Over frame' (stack.set name value) ∧ below'.Linked ∧
      below.Left (stack.outside? (.set name value)) below' := by
  obtain ⟨i, hbelow⟩ := Option.isSome_iff_exists.mp ((isSome_resolve? below name).trans hvisible)
  have hresolve : stack.resolve? name = some i := by
    rw [h.resolve? hlinked name, ← h.topBinds, if_neg hbinds, hbelow]
  have hi : i < below.depth := hlinked.lt_depth (List.mem_of_find?_eq_some hbelow)
  have hset : below.set name value = below.modifyFrame i (Stack.store name value) := by
    rw [Stack.set, hbelow]
  have hshape : below.SameShape (below.set name value) := (set_touched name value).toSameShape
  have hdepth : 0 < below.depth := by omega
  have houtside : stack.outside? (.set name value) = (Change.set name value).assigned? := by
    funext other
    rw [outside?, ite_eq_right_iff, Change.assigned?]
    intro hother
    refine (if_neg ?_).symm
    rintro rfl
    exact hbinds hother
  refine ⟨below.set name value, frame, ?_, hlinked.sameShape hshape, ?_⟩
  · rw [hset, Stack.set, hresolve]
    exact h.modifyFrame_below hi fun _ => rfl
  · rw [houtside]
    exact (assigned_set hdepth name value).left hvisible

/-- And if there is none, the frame on top gets the variable, which is not seen below. -/
theorem Over.set_of_not_visible {name : String} (hbinds : ¬ stack.topBinds name)
    (hnone : below.get? name = none) (value : Value) :
    ∃ below' frame', below'.Over frame' (stack.set name value) ∧ below'.Linked ∧
      below.Left (stack.outside? (.set name value)) below' := by
  have hbelow : below.resolve? name = none := by
    rw [← Option.not_isSome_iff_eq_none, isSome_resolve?, hnone]
    exact Bool.false_ne_true
  have hresolve : stack.resolve? name = none := by
    rw [h.resolve? hlinked name, ← h.topBinds, if_neg hbinds, hbelow]
  refine ⟨below, Stack.store name value frame, ?_, hlinked, .refl below fun other hother => ?_⟩
  · rw [Stack.set, hresolve]
    exact h.modifyTop _ rfl
  · have hne : name ≠ other := by
      rintro rfl
      rw [hnone] at hother
      cases hother
    rw [outside?, Change.assigned?, if_neg hne, ite_self]

/-- A change in the frame on top leaves below what it assigns, if the frame does not bind it. -/
theorem Over.apply (change : Change) : ∃ below' frame', below'.Over frame' (stack.apply change) ∧
    below'.Linked ∧ below.Left (stack.outside? change) below' := by
  cases change with
  | set name value =>
    by_cases hbinds : stack.topBinds name
    · exact h.set_of_topBinds hlinked hbinds value
    · cases hget : below.get? name with
      | some binding => exact h.set_of_visible hlinked hbinds (by rw [hget]; rfl) value
      | none => exact h.set_of_not_visible hlinked hbinds hget value
  | declare name type value =>
    exact ⟨below, bind name ⟨type, value⟩ frame, h.modifyTop _ rfl, hlinked,
      .refl below fun other _ => ite_self _⟩
  | declareFunction decl =>
    have hover := h.modifyTop
      (fun frame => { frame with functions := frame.functions.insert decl.name decl }) rfl
    exact ⟨below, _, hover, hlinked, .refl below fun other _ => ite_self _⟩

/-- Changes in the frame on top leave below the last values that they assign while the frame does
not bind them. -/
theorem Over.changes (changes : List Change) : ∃ below' frame',
    below'.Over frame' (changes.foldl Stack.apply stack) ∧
      below.Left (fun name => stack.lastOutside? name changes) below' := by
  -- Each change leaves a stack with one frame more again, though both can be other ones.
  induction changes generalizing stack below frame with
  | nil => exact ⟨below, frame, h, .refl below fun _ _ => rfl⟩
  | cons change rest ih =>
    obtain ⟨middle, frame', hover, hlinked', hleft⟩ := h.apply hlinked change
    obtain ⟨below', frame'', hover', hleft'⟩ := ih hover hlinked'
    exact ⟨below', frame'', hover', hleft.trans hleft'⟩

end Changes

/-- What was entered is on top. -/
theorem over_push (stack : Stack) (name : String) (kind : FrameKind) :
    stack.Over (stack.newFrame name kind stack.topIndex?) (stack.push name kind) :=
  ⟨rfl, rfl⟩

/-- A frame that is entered and left leaves what was assigned while it did not bind the name. -/
theorem left_pop (hlinked : stack.Linked) (name : String) (kind : FrameKind)
    (changes : List Change) :
    stack.Left (fun other => (stack.push name kind).lastOutside? other changes)
      (changes.foldl Stack.apply (stack.push name kind)).pop := by
  obtain ⟨below, frame, hover, hleft⟩ := (stack.over_push name kind).changes hlinked changes
  constructor
  · intro other
    rw [get?_of_frames hover.pop_frames, hleft.bindings]
  · intro other
    rw [findFunction?_of_frames hover.pop_frames, hleft.functions]

end Stack

/-- The laws of the stack as a store. Of every stack that the operations build, the links point
downward; in one that has frames, an assignment gives the visible variable its value, or else the
top frame an undeclared one, a declaration binds its name, and neither changes what is found under
other names; and a frame that is entered and left again leaves everything as it was, but for the
values that variables were last assigned while the frame did not bind them. -/
theorem stack_laws {stack : Stack} (h : stack.Reachable) :
    (∀ (i : Nat) (frame : Frame), stack.frames[i]? = some frame →
        ∀ outer, frame.outer = some outer → outer < i) ∧
      (0 < stack.depth → ∀ name,
        (∀ value, stack.Assigned name value (stack.set name value)) ∧
        ∀ type value, stack.DeclaredAs name ⟨type, value⟩ (stack.declare name type value)) ∧
      ∀ name kind (changes : List Stack.Change),
        stack.Left (fun other => (stack.push name kind).lastOutside? other changes)
          (changes.foldl Stack.apply (stack.push name kind)).pop := by
  refine ⟨?_, ?_, ?_⟩
  · intro i frame hframe outer houter
    refine h.linked.downward i outer ?_
    rw [Stack.link, hframe, Option.bind_some, houter]
  · intro hdepth name
    exact ⟨Stack.assigned_set hdepth name, Stack.declared_declare hdepth name⟩
  · exact Stack.left_pop h.linked

/-- A call from within a loop. Its frame sees the variable of the program and not that of the
loop. -/
def Stack.inCall : Stack :=
  let program := (Stack.empty.push "global" .global).declare "x" (some .int) (some (.int 1))
  let round := (program.push "while" .whileRound).declare "y" (some .int) (some (.int 5))
  round.pushFunction "f" 0

/-- The variable of the program can be assigned from there, and from a branch in the call until the
branch declares one of the same name; the variable of the loop cannot be. -/
theorem stack_laws_inCall : Stack.inCall.Reachable ∧ 0 < Stack.inCall.depth ∧
    (Stack.inCall.set "x" (.int 2)).get? "x" = some ⟨some .int, some (.int 2)⟩ ∧
    (Stack.inCall.set "y" (.int 2)).get? "y" = some ⟨none, some (.int 2)⟩ ∧
    ([.set "x" (.int 3), .declare "x" (some .str) none, .set "x" (.str "")].foldl Stack.apply
      (Stack.inCall.push "if" .conditional)).pop.get? "x" = some ⟨some .int, some (.int 3)⟩ := by
  have hreachable : Stack.inCall.Reachable :=
    .pushFunction "f" (by decide) (.declare _ _ _ (.push _ _ (.declare _ _ _ (.push _ _ .empty))))
  have hdepth : 0 < Stack.inCall.depth := by decide
  have hx : Stack.inCall.get? "x" = some ⟨some .int, some (.int 1)⟩ := by decide
  have hy : Stack.inCall.get? "y" = none := by decide
  obtain ⟨-, hstore, hleft⟩ := stack_laws hreachable
  refine ⟨hreachable, hdepth, ?_, ?_, ?_⟩
  · exact ((hstore hdepth "x").1 (.int 2)).visible _ hx
  · exact (((hstore hdepth "y").1 (.int 2)).added hy).1
  · rw [(hleft "if" .conditional _).bindings, hx]
    decide

end ScopedScript
