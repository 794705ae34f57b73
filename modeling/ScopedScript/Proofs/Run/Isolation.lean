import Mathlib.Data.List.Basic
import Mathlib.Data.List.Find
import ScopedScript.Proofs.Run.Confinement

/-!
# What is not visible makes no difference

Two states are alike if they have as many frames, and the same frames on what is visible from the
top; the others can hold anything. From such states an expression or a statement comes to the same
end with the same output, and leaves states that are alike.

A call is decided by even less: its function sees the frame it was declared in and what that frame
sees, so frames of the caller that are not among those make no difference.

When a frame is left, frames come into sight again that were hidden while it was there. They are
alike still, since neither run has touched them.
-/

namespace ScopedScript

/-! ## Stacks that look the same -/

namespace Stack

/-- Two stacks have as many frames, and the same ones on what is seen from a position. -/
structure AlikeFrom (start : Option Nat) (s t : Stack) : Prop where
  depth : t.depth = s.depth
  frames : ∀ i ∈ s.visibleFrom start, t.frames[i]? = s.frames[i]?

section AlikeFrom

variable {start : Option Nat} {s t : Stack} (h : s.AlikeFrom start t)

include h

theorem AlikeFrom.visibleFrom : t.visibleFrom start = s.visibleFrom start := by
  refine visibleFrom_congr ?_
  intro i hi
  rw [link, link, h.frames i hi]

theorem AlikeFrom.topIndex? : t.topIndex? = s.topIndex? := by
  have hdepth := h.depth
  unfold Stack.depth at hdepth
  simp only [Stack.topIndex?, Array.isEmpty_iff_size_eq_zero, Stack.depth, hdepth]

omit h in
theorem AlikeFrom.chain (h : s.AlikeFrom s.topIndex? t) : t.chain = s.chain := by
  rw [chain_eq_visibleFrom, chain_eq_visibleFrom, h.topIndex?, h.visibleFrom]

omit h in
theorem AlikeFrom.frames_chain (h : s.AlikeFrom s.topIndex? t) {i : Nat} (hi : i ∈ s.chain) :
    t.frames[i]? = s.frames[i]? :=
  h.frames i (s.chain_eq_visibleFrom ▸ hi)

/-- What sees less is alike. -/
theorem AlikeFrom.narrow {inner : Option Nat}
    (hsees : ∀ i ∈ s.visibleFrom inner, i ∈ s.visibleFrom start) : s.AlikeFrom inner t :=
  ⟨h.depth, fun i hi => h.frames i (hsees i hi)⟩

end AlikeFrom

/-! ## Looking names up -/

section Lookup

variable {s t : Stack} (h : s.AlikeFrom s.topIndex? t)

include h

/-- A search that asks each visible frame alone finds the same. -/
theorem AlikeFrom.findSome? {α : Type} (ask : Nat → Option Frame → Option α) :
    t.chain.findSome? (fun i => ask i t.frames[i]?) =
      s.chain.findSome? fun i => ask i s.frames[i]? := by
  rw [h.chain, ← List.head?_filterMap, ← List.head?_filterMap]
  refine congrArg List.head? (List.filterMap_congr ?_)
  intro i hi
  rw [h.frames_chain hi]

theorem AlikeFrom.get? (name : String) : t.get? name = s.get? name :=
  h.findSome? fun _ frame => frame.bind (·.bindings.find? name)

theorem AlikeFrom.findFunction? (name : String) : t.findFunction? name = s.findFunction? name :=
  h.findSome? fun i frame => (frame.bind (·.functions.find? name)).map (i, ·)

theorem AlikeFrom.resolve? (name : String) : t.resolve? name = s.resolve? name := by
  unfold Stack.resolve?
  rw [h.chain]
  refine List.find?_congr ?_
  intro i hi
  rw [bindingAt?, bindingAt?, h.frames_chain hi]

end Lookup

/-! ## Changes of one frame -/

section Changes

variable {s t : Stack} (h : s.AlikeFrom s.topIndex? t)

include h

theorem AlikeFrom.modifyFrame {i : Nat} {change : Frame → Frame}
    (hshape : ∀ frame : Frame, (change frame).shape = frame.shape) :
    (s.modifyFrame i change).AlikeFrom (s.modifyFrame i change).topIndex?
      (t.modifyFrame i change) where
  depth := by rw [depth_modifyFrame, depth_modifyFrame, h.depth]
  frames j hj := by
    have hsame : s.SameShape (s.modifyFrame i change) := modifyFrame_sameShape hshape
    rw [hsame.topIndex?, hsame.visibleFrom] at hj
    rw [modifyFrame_frames, modifyFrame_frames, h.frames j hj]

theorem AlikeFrom.modifyTop {change : Frame → Frame}
    (hshape : ∀ frame : Frame, (change frame).shape = frame.shape) :
    (s.modifyTop change).AlikeFrom (s.modifyTop change).topIndex? (t.modifyTop change) := by
  unfold Stack.modifyTop
  rw [h.topIndex?]
  cases s.topIndex? with
  | none => exact h
  | some top => exact h.modifyFrame hshape

theorem AlikeFrom.set (name : String) (value : Value) :
    (s.set name value).AlikeFrom (s.set name value).topIndex? (t.set name value) := by
  unfold Stack.set
  rw [h.resolve?]
  cases s.resolve? name with
  | none => exact h.modifyTop fun _ => rfl
  | some i => exact h.modifyFrame fun _ => rfl

end Changes

/-! ## Frames that are entered and left -/

section Enter

variable {s t : Stack} {outer : Option Nat} (hs : s.Linked)
  (hlive : ∀ i, outer = some i → i < s.depth)

include hs hlive

omit hlive in
theorem AlikeFrom.newFrame (h : s.AlikeFrom outer t) (name : String) (kind : FrameKind) :
    t.newFrame name kind outer = s.newFrame name kind outer := by
  unfold Stack.newFrame levelAbove
  cases outer with
  | none => rfl
  | some i =>
    rw [Option.bind_some, Option.bind_some, h.frames i (mem_visibleFrom_self hs.downward i)]

/-- New frames that link to what looks the same. -/
theorem AlikeFrom.pushLinked (h : s.AlikeFrom outer t) (name : String) (kind : FrameKind) :
    (s.pushLinked name kind outer).AlikeFrom (s.pushLinked name kind outer).topIndex?
      (t.pushLinked name kind outer) where
  depth := by rw [depth_pushLinked, depth_pushLinked, h.depth]
  frames i hi := by
    rw [← chain_eq_visibleFrom, hs.chain_pushLinked hlive, List.mem_cons] at hi
    rw [pushLinked_frames, pushLinked_frames, h.depth, h.newFrame hs]
    split
    · rfl
    next hne => exact h.frames i (hi.resolve_left hne)

/-- Behind two frames that were entered and left, what comes into sight again looks the same. -/
theorem AlikeFrom.pop {start : Option Nat} (ht : t.Linked) (h : s.AlikeFrom start t)
    (hstart : ∀ i, start = some i → i < s.depth)
    (hsees : ∀ i ∈ s.visibleFrom outer, i ∈ s.visibleFrom start) {name : String} {kind : FrameKind}
    {s' t' : Stack} (hs' : (s.pushLinked name kind outer).Touched s.depth s')
    (ht' : (t.pushLinked name kind outer).Touched t.depth t')
    (hpop : s.SameShape s'.pop) (h' : s'.AlikeFrom s'.topIndex? t') :
    s'.pop.AlikeFrom start t'.pop := by
  have hdepth : s'.depth = s.depth + 1 := by rw [hs'.toSameShape.depth, depth_pushLinked]
  have hdepth' : t'.depth = s.depth + 1 := by rw [h'.depth, hdepth]
  have hnarrow := h.narrow hsees
  constructor
  · rw [hpop.depth]
    exact Array.size_pop.trans (Nat.sub_eq_of_eq_add hdepth')
  · intro i hi
    rw [hpop.visibleFrom] at hi
    have hlt : i < s.depth := by
      cases start with
      | none => cases hi
      | some top =>
        exact Nat.lt_of_le_of_lt (le_of_mem_visibleFrom hs.downward hi) (hstart top rfl)
    rw [pop_frames (by omega), pop_frames (by omega)]
    by_cases hseen : i ∈ s.visibleFrom outer
    · refine h'.frames_chain ?_
      rw [hs'.toSameShape.chain, hs.chain_pushLinked hlive]
      exact List.mem_cons_of_mem _ hseen
    · -- neither run saw the frame, so both left it as it was
      have hnot : ∀ u : Stack, u.depth = s.depth → u.visibleFrom outer = s.visibleFrom outer →
          i ∉ u.depth :: u.visibleFrom outer := by
        intro u hdepth hsame hmem
        rw [hdepth, hsame, List.mem_cons] at hmem
        exact hmem.elim (fun heq => by omega) hseen
      have hlive' : ∀ i, outer = some i → i < t.depth := by
        intro i hi
        rw [h.depth]
        exact hlive i hi
      rw [ht'.hidden i (by
          rw [ht.chain_pushLinked hlive']
          exact hnot t h.depth hnarrow.visibleFrom),
        hs'.hidden i (by
          rw [hs.chain_pushLinked hlive]
          exact hnot s rfl rfl),
        pushLinked_frames, pushLinked_frames, if_neg (by rw [h.depth]; omega), if_neg (by omega)]
      exact h.frames i hi

end Enter

end Stack

/-! ## States that look the same -/

/-- Two states have as many frames, and the same ones on what is seen from a position. They have the
same output, as many calls are under way, and as many can be. -/
structure Machine.AlikeFrom (start : Option Nat) (m n : Machine) : Prop where
  stack : m.stack.AlikeFrom start n.stack
  output : n.output = m.output
  callDepth : n.callDepth = m.callDepth
  maxCallDepth : n.maxCallDepth = m.maxCallDepth

/-- Two states look the same from the top. -/
def Machine.Alike (m n : Machine) : Prop := m.AlikeFrom m.stack.topIndex? n

namespace Machine

section Alike

variable {m n : Machine}

theorem Alike.of_stack {s t : Stack} (h : m.Alike n) (hstack : s.AlikeFrom s.topIndex? t) :
    Alike { m with stack := s } { n with stack := t } :=
  ⟨hstack, h.output, h.callDepth, h.maxCallDepth⟩

/-- What looks the same from where the top was looks the same from the top. -/
theorem AlikeFrom.alike {start : Machine} (h : m.AlikeFrom start.stack.topIndex? n) {bound : Nat}
    (hreturned : start.Returned bound m) : m.Alike n := by
  unfold Alike
  rw [hreturned.stack.toSameShape.topIndex?]
  exact h

variable (hm : m.stack.Linked)

include hm

theorem Alike.pushFrame (h : m.Alike n) (name : String) (kind : FrameKind) :
    (m.pushFrame name kind).Alike (n.pushFrame name kind) := by
  obtain ⟨_, hpush⟩ := pushFrame_eq m name kind
  obtain ⟨_, hpush'⟩ := pushFrame_eq n name kind
  rw [hpush, hpush']
  refine ⟨?_, h.output, h.callDepth, h.maxCallDepth⟩
  have hstack := h.stack.pushLinked hm Stack.topIndex?_lt_depth name kind
  unfold Stack.push
  rw [h.stack.topIndex?]
  exact hstack

theorem AlikeFrom.pushCall {outer : Nat} (h : m.AlikeFrom (some outer) n)
    (hlive : outer < m.stack.depth) (name : String) :
    (m.pushCall name outer).Alike (n.pushCall name outer) := by
  obtain ⟨_, hpush⟩ := pushCall_eq m name outer
  obtain ⟨_, hpush'⟩ := pushCall_eq n name outer
  rw [hpush, hpush']
  refine ⟨?_, h.output, congrArg (· + 1) h.callDepth, h.maxCallDepth⟩
  refine h.stack.pushLinked hm ?_ name .function
  rintro _ ⟨⟩
  exact hlive

variable {m' n' : Machine} (hn : n.stack.Linked)

include hn

theorem Alike.popFrame (h : m.Alike n) {name : String} {kind : FrameKind}
    (hm' : (m.pushFrame name kind).Returned m.stack.depth m')
    (hn' : (n.pushFrame name kind).Returned n.stack.depth n') (h' : m'.Alike n') :
    m'.popFrame.AlikeFrom m.stack.topIndex? n'.popFrame := by
  have hpop := (hm'.popFrame hm).stack.toSameShape
  rw [popFrame_stack] at hpop
  obtain ⟨_, heq⟩ := popFrame_eq m'
  obtain ⟨_, heq'⟩ := popFrame_eq n'
  have hmStack := hm'.stack
  have hnStack := hn'.stack
  rw [pushFrame_stack, Stack.push] at hmStack hnStack
  rw [h.stack.topIndex?] at hnStack
  rw [heq, heq']
  refine ⟨?_, h'.output, h'.callDepth, h'.maxCallDepth⟩
  exact h.stack.pop hm Stack.topIndex?_lt_depth hn Stack.topIndex?_lt_depth (fun _ hi => hi)
    hmStack hnStack hpop h'.stack

theorem AlikeFrom.popCall {start : Option Nat} (h : m.AlikeFrom start n)
    (hstart : ∀ i, start = some i → i < m.stack.depth) {outer : Nat}
    (houter : outer ∈ m.stack.chain)
    (hsees : ∀ i ∈ m.stack.visibleFrom (some outer), i ∈ m.stack.visibleFrom start)
    {name : String} (hm' : (m.pushCall name outer).Returned m.stack.depth m')
    (hn' : (n.pushCall name outer).Returned n.stack.depth n') (h' : m'.Alike n') :
    m'.popCall.AlikeFrom start n'.popCall := by
  have hpop := (hm'.popCall hm houter).stack.toSameShape
  rw [popCall_stack] at hpop
  obtain ⟨_, heq⟩ := popCall_eq m'
  obtain ⟨_, heq'⟩ := popCall_eq n'
  have hmStack := hm'.stack
  have hnStack := hn'.stack
  rw [pushCall_stack, Stack.pushFunction] at hmStack hnStack
  rw [heq, heq']
  refine ⟨?_, h'.output, congrArg (· - 1) h'.callDepth, h'.maxCallDepth⟩
  refine h.stack.pop hm ?_ hn hstart hsees hmStack hnStack hpop h'.stack
  rintro _ ⟨⟩
  exact hm.lt_depth houter

end Alike

end Machine

/-! ## Runs that do the same -/

namespace Exec

/-- What comes of a run, apart from the state. -/
def outcome {α : Type} (x : Exec α) (m : Machine) : Except Halt α :=
  match x m with
  | .ok a _ => .ok a
  | .error halt _ => .error halt

/-- Two runs are confined and the same, and from states that look the same they come to the same end
and leave such states. -/
def Isolates (slack : Nat) {α : Type} (x y : Exec α) : Prop :=
  Confines slack x y ∧ ∀ m n : Machine, m.stack.Linked → n.stack.Linked → m.Alike n →
    outcome x m = outcome y n ∧ (final x m).Alike (final y n)

section Isolates

variable {α β : Type} {slack : Nat}

theorem Isolates.bind {x y : Exec α} {f g : α → Exec β} (h : Isolates slack x y)
    (hf : ∀ a, Isolates slack (f a) (g a)) : Isolates slack (x >>= f) (y >>= g) := by
  refine ⟨h.1.bind fun a => (hf a).1, ?_⟩
  intro m n hm hn halike
  have hm' := h.1.returned hm
  have hn' := (h.1 n hn).2
  obtain ⟨houtcome, hfinal⟩ := h.2 m n hm hn halike
  unfold final at hm' hn' hfinal ⊢
  unfold outcome at houtcome ⊢
  rw [bind_apply, bind_apply]
  cases hx : x m with
  | error halt after =>
    rw [hx] at houtcome hfinal
    cases hy : y n with
    | ok b last =>
      rw [hy] at houtcome
      cases houtcome
    | error halt' last =>
      rw [hy] at houtcome hfinal
      cases houtcome
      exact ⟨rfl, hfinal⟩
  | ok a after =>
    rw [hx] at houtcome hfinal hm'
    cases hy : y n with
    | error halt' last =>
      rw [hy] at houtcome
      cases houtcome
    | ok b last =>
      rw [hy] at houtcome hfinal hn'
      cases houtcome
      exact (hf a).2 after last (hm'.linked hm) (hn'.linked hn) hfinal

theorem isolates_composes (slack : Nat) : Composes (Isolates slack) where
  pure a := ⟨(confines_composes slack).pure a, fun _ _ _ _ h => ⟨rfl, h⟩⟩
  halt reason := ⟨(confines_composes slack).halt reason, fun _ _ _ _ h => ⟨rfl, h⟩⟩
  bind := .bind

/-- A run between two changes of state that both lead to states that look the same. -/
theorem Isolates.bracket {x y : Exec α} (h : Isolates slack x y) {enter leave : Machine → Machine}
    {m n : Machine} (hm : (enter m).stack.Linked) (hn : (enter n).stack.Linked)
    (henter : (enter m).Alike (enter n)) {start : Option Nat}
    (hleave : ∀ m' n', (enter m).Returned ((enter m).stack.depth - slack) m' →
      (enter n).Returned ((enter n).stack.depth - slack) n' → m'.Alike n' →
        (leave m').AlikeFrom start (leave n')) :
    outcome (Exec.bracket enter leave x) m = outcome (Exec.bracket enter leave y) n ∧
      (final (Exec.bracket enter leave x) m).AlikeFrom start
        (final (Exec.bracket enter leave y) n) := by
  obtain ⟨houtcome, hfinal⟩ := h.2 (enter m) (enter n) hm hn henter
  have hlast := hleave _ _ (h.1.returned hm) (h.1 (enter n) hn).2 hfinal
  unfold final at hlast ⊢
  unfold outcome at houtcome ⊢
  unfold Exec.bracket
  cases hx : x (enter m) <;> cases hy : y (enter n) <;> rw [hx, hy] at houtcome hlast <;>
    exact ⟨houtcome, hlast⟩

theorem Isolates.inFrame {x y : Exec α} (h : Isolates 1 x y) (name : String) (kind : FrameKind) :
    Isolates 0 (inFrame name kind x) (inFrame name kind y) := by
  have hconfines := h.1.inFrame name kind
  refine ⟨hconfines, ?_⟩
  intro m n hm hn halike
  have hdepth : ∀ m : Machine, (m.pushFrame name kind).stack.depth - 1 = m.stack.depth := by
    intro m
    rw [Machine.pushFrame_stack, Stack.push, Stack.depth_pushLinked]
    rfl
  have hboth : outcome (Exec.inFrame name kind x) m = outcome (Exec.inFrame name kind y) n ∧
      (final (Exec.inFrame name kind x) m).AlikeFrom m.stack.topIndex?
        (final (Exec.inFrame name kind y) n) := by
    refine h.bracket (Machine.linked_pushFrame hm name kind)
      (Machine.linked_pushFrame hn name kind) (halike.pushFrame hm name kind) ?_
    intro m' n' hm' hn' halike'
    rw [hdepth] at hm' hn'
    exact halike.popFrame hm hn hm' hn' halike'
  exact ⟨hboth.1, hboth.2.alike (hconfines.returned hm)⟩

/-- A call of a function that was declared in a frame that both states show. -/
theorem Isolates.inCall {x y : Exec α} (h : Isolates 1 x y) (name : String) {m n : Machine}
    (hm : m.stack.Linked) (hn : n.stack.Linked) {start : Option Nat} (halike : m.AlikeFrom start n)
    (hstart : ∀ i, start = some i → i < m.stack.depth) {outer : Nat}
    (houter : outer ∈ m.stack.chain) (houter' : outer ∈ n.stack.chain)
    (hsees : ∀ i ∈ m.stack.visibleFrom (some outer), i ∈ m.stack.visibleFrom start) :
    outcome (inCall name outer x) m = outcome (inCall name outer y) n ∧
      (final (inCall name outer x) m).AlikeFrom start (final (inCall name outer y) n) := by
  have hdepth : ∀ m : Machine, (m.pushCall name outer).stack.depth - 1 = m.stack.depth := by
    intro m
    rw [Machine.pushCall_stack, Stack.pushFunction, Stack.depth_pushLinked]
    rfl
  have hnarrow : m.AlikeFrom (some outer) n :=
    ⟨halike.stack.narrow hsees, halike.output, halike.callDepth, halike.maxCallDepth⟩
  refine h.bracket (Machine.linked_pushCall hm houter name)
    (Machine.linked_pushCall hn houter' name)
    (hnarrow.pushCall hm (hm.lt_depth houter) name) ?_
  intro m' n' hm' hn' halike'
  exact halike.popCall hm hn hstart houter hsees (hdepth m ▸ hm') (hdepth n ▸ hn') halike'

end Isolates

/-! ## Operations -/

theorem isolates_load (name : String) (position : Position) :
    Isolates 0 (load name position) (load name position) := by
  refine ⟨confines_respects.load name position, ?_⟩
  intro m n _ _ halike
  rw [final_load, final_load]
  refine ⟨?_, halike⟩
  unfold outcome load
  simp only [bind_apply, get_apply, halike.stack.get?]
  cases (m.stack.get? name).bind (·.value) <;> rfl

theorem isolates_write (text : String) (position : Position) :
    Isolates 0 (write text position) (write text position) := by
  refine ⟨confines_respects.write text position, ?_⟩
  intro m n _ _ halike
  unfold outcome final write
  simp only [bind_apply, get_apply, set_apply, halike.output]
  cases (m.output.write text).1 <;>
    exact ⟨rfl, halike.stack, rfl, halike.callDepth, halike.maxCallDepth⟩

theorem isolates_store (name : String) (v : Value) (position : Position) :
    Isolates 1 (store name v position) (store name v position) := by
  refine ⟨confines_respects.store name v position, ?_⟩
  intro m n _ _ halike
  unfold outcome final store
  simp only [bind_apply, get_apply, halike.stack.get?]
  cases (m.stack.get? name).bind (·.type) with
  | none => exact ⟨rfl, halike.of_stack (halike.stack.set name v)⟩
  | some type =>
    simp only [coerce]
    cases v.coerce? type with
    | none => exact ⟨rfl, halike⟩
    | some v' => exact ⟨rfl, halike.of_stack (halike.stack.set name v')⟩

theorem isolates_declare (name : String) (type : Ty) (v : Option Value) :
    Isolates 1 (declare name type v) (declare name type v) :=
  ⟨confines_declare name type v, fun _ _ _ _ halike =>
    ⟨rfl, halike.of_stack (halike.stack.modifyTop fun _ => rfl)⟩⟩

/-- A call of a function that both states find in the same frame. -/
theorem isolates_callFunction {eval eval' : Expr → Exec (Option Value)}
    {exec exec' : Statement → Exec Flow} {decl : FunctionDecl} {arguments : List Value}
    {position : Position} (hinside : Isolates 1 (inside eval exec decl arguments position)
      (inside eval' exec' decl arguments position)) {m n : Machine} (hm : m.stack.Linked)
    (hn : n.stack.Linked) {start : Option Nat} (halike : m.AlikeFrom start n)
    (hstart : ∀ i, start = some i → i < m.stack.depth) {outer : Nat}
    (houter : outer ∈ m.stack.chain) (houter' : outer ∈ n.stack.chain)
    (hsees : ∀ i ∈ m.stack.visibleFrom (some outer), i ∈ m.stack.visibleFrom start) :
    outcome (callFunction eval exec decl outer arguments position) m =
      outcome (callFunction eval' exec' decl outer arguments position) n ∧
    (final (callFunction eval exec decl outer arguments position) m).AlikeFrom start
      (final (callFunction eval' exec' decl outer arguments position) n) := by
  have hcall := hinside.inCall decl.name hm hn halike hstart houter houter' hsees
  unfold outcome final at hcall ⊢
  rw [callFunction_apply, callFunction_apply, halike.callDepth, halike.maxCallDepth]
  by_cases haccepts : decl.arity.accepts arguments.length
  · rw [if_pos haccepts, if_pos haccepts]
    by_cases hlimit : m.maxCallDepth ≤ m.callDepth
    · rw [if_pos hlimit, if_pos hlimit]
      exact ⟨rfl, halike⟩
    · rw [if_neg hlimit, if_neg hlimit]
      exact hcall
  · rw [if_neg haccepts, if_neg haccepts]
    exact ⟨rfl, halike⟩

/-- All rules are isolated from what is not visible. -/
theorem isolates_respects : Respects (Isolates 0) (Isolates 1) where
  evaluation := isolates_composes 0
  execution := isolates_composes 1
  weaken h := ⟨confines_respects.weaken h.1, h.2⟩
  load := isolates_load
  write := isolates_write
  store := isolates_store
  declare name type := isolates_declare name type none
  fit name type := fit_rel (isolates_composes 1) (isolates_declare name type)
  declareFunction decl := ⟨confines_respects.declareFunction decl, fun m n _ _ halike =>
    ⟨rfl, halike.of_stack (halike.stack.modifyTop fun _ => rfl)⟩⟩
  inFrame name kind h := h.inFrame name kind
  call {eval eval' exec exec'} name arguments position hinside hbuiltin := by
    have hconfines : Confines 0 (call eval exec name arguments position)
        (call eval' exec' name arguments position) :=
      confines_respects.call name arguments position (fun decl => (hinside decl).1)
        fun b => (hbuiltin b).1
    refine ⟨hconfines, ?_⟩
    intro m n hm hn halike
    have hfind := halike.stack.findFunction? name
    cases hfound : m.stack.findFunction? name with
    | none =>
      rw [hfound] at hfind
      unfold outcome final call
      simp only [bind_apply, get_apply, hfound, hfind]
      cases Builtin.ofName? name with
      | none => exact ⟨rfl, halike⟩
      | some b => exact (hbuiltin b).2 m n hm hn halike
    | some found =>
      rw [hfound] at hfind
      have houter := mem_chain_of_findFunction? hfound
      have hcall := isolates_callFunction (hinside found.2) hm hn halike Stack.topIndex?_lt_depth
        houter (mem_chain_of_findFunction? hfind)
        (Stack.visibleFrom_subset hm.downward (m.stack.chain_eq_visibleFrom ▸ houter))
      have hreturned := hconfines.returned hm
      unfold outcome final call at *
      simp only [bind_apply, get_apply, hfound, hfind]
        at hcall hreturned ⊢
      exact ⟨hcall.1, hcall.2.alike hreturned⟩

end Exec

open Exec in
/-- What is not visible makes no difference. From two states with links in order that are alike,
whatever the frames that are not visible hold, an expression or a statement comes to the same end,
and leaves states that are alike, with the same output. A call that finds the same function from
both needs even less: the states have to look the same from the frame that the function was declared
in, and then do so again, whatever the other frames of the caller hold. -/
theorem hidden_frames_irrelevant (fuel : Nat) {m n : Machine} (hm : m.stack.Linked)
    (hn : n.stack.Linked) :
    (m.Alike n →
      (∀ e, outcome (eval fuel e) m = outcome (eval fuel e) n ∧
        (final (eval fuel e) m).Alike (final (eval fuel e) n)) ∧
      ∀ s, outcome (exec fuel s) m = outcome (exec fuel s) n ∧
        (final (exec fuel s) m).Alike (final (exec fuel s) n)) ∧
    ∀ name arguments position outer decl, m.stack.findFunction? name = some (outer, decl) →
      n.stack.findFunction? name = some (outer, decl) → m.AlikeFrom (some outer) n →
        outcome (call (eval fuel) (exec fuel) name arguments position) m =
          outcome (call (eval fuel) (exec fuel) name arguments position) n ∧
        (final (call (eval fuel) (exec fuel) name arguments position) m).AlikeFrom (some outer)
          (final (call (eval fuel) (exec fuel) name arguments position) n) := by
  obtain ⟨heval, hexec⟩ := run_rel isolates_respects fuel
  constructor
  · intro halike
    exact ⟨fun e => (heval e).2 m n hm hn halike, fun s => (hexec s).2 m n hm hn halike⟩
  · intro name arguments position outer decl hfound hfound' halike
    have houter := mem_chain_of_findFunction? hfound
    have hlive : ∀ i, some outer = some i → i < m.stack.depth := by
      rintro _ ⟨⟩
      exact hm.lt_depth houter
    have hcall := isolates_callFunction (inside_rel isolates_respects heval hexec decl arguments
      position) hm hn halike hlive houter (mem_chain_of_findFunction? hfound') fun _ hi => hi
    unfold outcome final call at *
    simp only [bind_apply, get_apply, hfound, hfound'] at hcall ⊢
    exact hcall

/-- A block from which a function is called has a variable with one value or another. What the body
of the function evaluates is the same. -/
theorem hidden_frames_irrelevant_locals : ∃ m n : Machine,
    m.stack.Linked ∧ n.stack.Linked ∧ m.stack.chain = [2, 0] ∧
    m.stack.bindingAt? "x" 1 = some ⟨some .int, some (.int 1)⟩ ∧
    n.stack.bindingAt? "x" 1 = some ⟨some .int, some (.int 2)⟩ ∧
    ∀ e, Exec.outcome (Exec.eval 20 e) m = Exec.outcome (Exec.eval 20 e) n := by
  have hempty : (Machine.initial 100 none).stack.Linked := .empty rfl
  have hblock := Machine.linked_pushFrame (Machine.linked_pushFrame hempty "global" .global) "if"
    .conditional
  have hdeclared := fun v : Value =>
    (Machine.Returned.of_stack (Stack.declare_touched "x" (some .int) (some v))).linked hblock
  have hm := Machine.linked_pushCall (hdeclared (.int 1)) (show 0 ∈ _ by decide) "f"
  have hn := Machine.linked_pushCall (hdeclared (.int 2)) (show 0 ∈ _ by decide) "f"
  refine ⟨_, _, hm, hn, by decide, by decide, by decide, fun e => ?_⟩
  refine (((hidden_frames_irrelevant 20 hm hn).1 ⟨⟨rfl, ?_⟩, rfl, rfl, rfl⟩).1 e).1
  intro i hi
  rw [← Stack.chain_eq_visibleFrom, show Stack.chain _ = [2, 0] by decide] at hi
  rcases hi with _ | ⟨_, _ | ⟨_, ⟨⟩⟩⟩
  · rfl
  · rfl

end ScopedScript
