import ScopedScript.Proofs.Run.Invariant
import ScopedScript.Proofs.Session

/-!
# Declared types are never violated

A variable that was declared with a type holds values of that type only. Values come to variables by
declarations, assignments, parameters and loops, and each of them makes its value fit first. An
assignment looks the declared type up on its own, before it looks for the variable to change; both
find the same variable, since both take the nearest visible one.

What a function returns is made to fit as well, so a call yields a value of the type that its
function was declared with, and none if it was declared without.
-/

namespace ScopedScript

/-! ## Values of the declared types -/

/-- The value of a variable is of its declared type, if it has both. -/
def Binding.WellTyped (binding : Binding) : Prop :=
  ∀ type v, binding.type = some type → binding.value = some v → v.type = type

/-- All variables of all frames hold values of their declared types. -/
def Stack.WellTyped (stack : Stack) : Prop :=
  ∀ i name binding, stack.bindingAt? name i = some binding → binding.WellTyped

/-- All variables hold values of their declared types, those of the last program included. -/
structure Machine.WellTyped (m : Machine) : Prop where
  stack : m.stack.WellTyped
  /-- The variables of the last program that came to its end. -/
  globals : ∀ name binding, m.globals.find? name = some binding → binding.WellTyped

theorem Machine.wellTyped_initial (maxCallDepth : Nat) (outputLimit : Option Nat) :
    (Machine.initial maxCallDepth outputLimit).WellTyped :=
  ⟨nofun, nofun⟩

namespace Stack

/-! ## Reading and assigning find the same variable -/

theorem findSome?_eq_find?_bind {α β : Type} (f : α → Option β) (l : List α) :
    l.findSome? f = (l.find? fun a => (f a).isSome).bind f := by
  induction l with
  | nil => rfl
  | cons a l ih =>
    rw [List.findSome?_cons, List.find?_cons, ih]
    cases hf : f a with
    | none => rfl
    | some b => exact hf.symm

/-- The variable that is read is the one in the frame that an assignment changes. -/
theorem get?_eq (stack : Stack) (name : String) :
    stack.get? name = (stack.resolve? name).bind (stack.bindingAt? name) :=
  findSome?_eq_find?_bind _ _

variable {stack : Stack} {i : Nat} {name : String}

/-! ## What operations do to bindings -/

theorem bindingAt?_modifyFrame (change : Frame → Frame) (other : String) (j : Nat) :
    (stack.modifyFrame i change).bindingAt? other j =
      if i = j then (stack.frames[j]?).bind fun frame => (change frame).bindings.find? other
      else stack.bindingAt? other j := by
  rw [bindingAt?, modifyFrame_frames]
  split
  · cases stack.frames[j]? <;> rfl
  · rfl

/-- An assignment gives one frame a new value for the variable; without frames it does nothing. -/
theorem set_eq (stack : Stack) (name : String) (v : Value) :
    stack.set name v = stack ∨ ∃ i, stack.set name v = stack.modifyFrame i (store name v) := by
  unfold set modifyTop
  cases stack.resolve? name with
  | some i => exact .inr ⟨i, rfl⟩
  | none =>
    cases stack.topIndex? with
    | some top => exact .inr ⟨top, rfl⟩
    | none => exact .inl rfl

/-- A new value for a variable of a frame changes no declared type that is there. -/
theorem store_keeps_type {frame : Frame} {other : String} {binding : Binding}
    (h : frame.bindings.find? other = some binding) (v : Value) :
    ((store name v frame).bindings.find? other).map (·.type) = some binding.type := by
  simp only [store, bind, Table.find?_insert]
  split
  next heq =>
    rw [heq] at h
    rw [h]
    rfl
  next => rw [h]; rfl

/-- Variables that are there keep their declared types. -/
def KeepsTypes (before after : Stack) : Prop :=
  ∀ i name binding, before.bindingAt? name i = some binding →
    (after.bindingAt? name i).map (·.type) = some binding.type

theorem KeepsTypes.trans {a b c : Stack} (hab : a.KeepsTypes b) (hbc : b.KeepsTypes c) :
    a.KeepsTypes c := by
  intro i name binding hbinding
  obtain ⟨binding', hbinding', htype⟩ := Option.map_eq_some_iff.mp (hab i name binding hbinding)
  rw [hbc i name binding' hbinding', htype]

/-- Evaluation changes no declared type. -/
theorem Touched.keepsTypes {after : Stack} (h : stack.Touched stack.depth after) :
    stack.KeepsTypes after := by
  intro i name binding hbinding
  obtain ⟨frame, hframe, _⟩ := Option.bind_eq_some_iff.mp hbinding
  have hi : i < stack.depth := (Array.getElem?_eq_some_iff.mp hframe).1
  rw [h.types i hi name, hbinding]
  rfl

/-- An assignment changes no declared type. -/
theorem keepsTypes_set (stack : Stack) (name : String) (v : Value) :
    stack.KeepsTypes (stack.set name v) := by
  intro i other binding hbinding
  obtain hset | ⟨j, hset⟩ := set_eq stack name v
  · rw [hset, hbinding]
    rfl
  · rw [hset, bindingAt?_modifyFrame]
    split
    next =>
      obtain ⟨frame, hframe, hfind⟩ := Option.bind_eq_some_iff.mp hbinding
      rw [hframe, Option.bind_some]
      exact store_keeps_type hfind v
    next =>
      rw [hbinding]
      rfl

end Stack

/-! ## Every operation keeps values of the declared types -/

namespace Stack.WellTyped

variable {stack : Stack} (h : stack.WellTyped)

include h

/-- A change of a frame that binds nothing but what fits. -/
theorem modifyFrame {i : Nat} {change : Frame → Frame}
    (hchange : ∀ frame, stack.frames[i]? = some frame → ∀ name binding,
      (change frame).bindings.find? name = some binding →
        frame.bindings.find? name = some binding ∨ binding.WellTyped) :
    (stack.modifyFrame i change).WellTyped := by
  intro j name binding hbinding
  rw [bindingAt?_modifyFrame] at hbinding
  split at hbinding
  next hij =>
    subst hij
    obtain ⟨frame, hframe, hfind⟩ := Option.bind_eq_some_iff.mp hbinding
    obtain hsame | hfits := hchange frame hframe name binding hfind
    · exact h i name binding ((bindingAt?_eq hframe).trans hsame)
    · exact hfits
  next => exact h j name binding hbinding

theorem modifyTop {change : Frame → Frame}
    (hchange : ∀ frame name binding, (change frame).bindings.find? name = some binding →
      frame.bindings.find? name = some binding ∨ binding.WellTyped) :
    (stack.modifyTop change).WellTyped := by
  unfold Stack.modifyTop
  split
  · exact h
  · exact h.modifyFrame fun frame _ => hchange frame

theorem declare (name : String) {type : Ty} {v : Option Value}
    (hv : ∀ first, v = some first → first.type = type) :
    (stack.declare name (some type) v).WellTyped := by
  refine h.modifyTop fun frame other binding hbinding => ?_
  rw [bind, Table.find?_insert] at hbinding
  split at hbinding
  next =>
    obtain rfl := Option.some.inj hbinding
    right
    rintro _ first ⟨⟩ hfirst
    exact hv first hfirst
  next => exact .inl hbinding

/-- An assigned value fits the type of the variable that is there, since that is the nearest one. A
variable that is not there gets no type. -/
theorem set {name : String} {v : Value}
    (hv : ∀ type, (stack.get? name).bind (·.type) = some type → v.type = type) :
    (stack.set name v).WellTyped := by
  have hstore : ∀ i, (stack.resolve? name = some i ∨ stack.resolve? name = none ∧
      stack.topIndex? = some i) → (stack.modifyFrame i (store name v)).WellTyped := by
    intro i hi
    refine h.modifyFrame fun frame hframe other binding hbinding => ?_
    rw [store, bind, Table.find?_insert] at hbinding
    split at hbinding
    next =>
      obtain rfl := Option.some.inj hbinding
      right
      rintro type _ htype ⟨⟩
      refine hv type ?_
      rw [get?_eq]
      obtain hresolve | ⟨hresolve, htop⟩ := hi
      · rw [hresolve, Option.bind_some, bindingAt?_eq hframe]
        exact htype
      · -- The top frame is visible, so it does not bind the name.
        have hnone := List.find?_eq_none.mp hresolve i (topIndex?_mem_chain htop)
        rw [bindingAt?_eq hframe, Bool.not_eq_true, Option.isSome_eq_false_iff,
          Option.isNone_iff_eq_none] at hnone
        rw [hnone] at htype
        cases htype
    next => exact .inl hbinding
  unfold Stack.set Stack.modifyTop
  cases hresolve : stack.resolve? name with
  | some i => exact hstore i (.inl hresolve)
  | none =>
    cases htop : stack.topIndex? with
    | some top => exact hstore top (.inr ⟨hresolve, htop⟩)
    | none => exact h

theorem pushLinked (name : String) (kind : FrameKind) (outer : Option Nat) :
    (stack.pushLinked name kind outer).WellTyped := by
  intro i other binding hbinding
  rw [bindingAt?, pushLinked_frames] at hbinding
  split at hbinding
  · cases hbinding
  · exact h i other binding hbinding

theorem pop : stack.pop.WellTyped := by
  intro i name binding hbinding
  rw [bindingAt?, Stack.pop, Array.getElem?_pop] at hbinding
  split at hbinding
  · exact h i name binding hbinding
  · cases hbinding

end Stack.WellTyped

/-- The variables of a program that comes to its end are those of its frame. -/
theorem Machine.WellTyped.finish {m : Machine} (h : m.WellTyped) (ok : Bool) :
    (m.finish ok).WellTyped := by
  obtain ⟨events, hpop⟩ := popFrame_eq m
  unfold Machine.finish
  rw [hpop]
  refine ⟨h.stack.pop, fun name binding hbinding => ?_⟩
  cases htop : m.stack.top? with
  | none =>
    simp only [htop] at hbinding
    exact h.globals name binding hbinding
  | some frame =>
    simp only [htop] at hbinding
    rw [Stack.top?, Array.back?] at htop
    exact h.stack _ name binding ((Stack.bindingAt?_eq htop).trans hbinding)

namespace Exec

/-- Every operation keeps values of the declared types. -/
theorem wellTyped_invariant : Invariant Machine.WellTyped where
  write _ h := ⟨h.stack, h.globals⟩
  store h hadmits := ⟨h.stack.set hadmits, h.globals⟩
  declare h hfits := ⟨h.stack.declare _ hfits, h.globals⟩
  declareFunction _ h := ⟨h.stack.modifyTop fun _ _ _ => .inl, h.globals⟩
  pushFrame {m} name kind h := by
    obtain ⟨events, hpush⟩ := Machine.pushFrame_eq m name kind
    rw [hpush]
    exact ⟨h.stack.pushLinked name kind _, h.globals⟩
  popFrame {m} h := by
    obtain ⟨events, hpop⟩ := Machine.popFrame_eq m
    rw [hpop]
    exact ⟨h.stack.pop, h.globals⟩
  pushCall {m} name outer h _ := by
    obtain ⟨events, hpush⟩ := Machine.pushCall_eq m name outer
    rw [hpush]
    exact ⟨h.stack.pushLinked name .function _, h.globals⟩
  popCall {m} h := by
    obtain ⟨events, hpop⟩ := Machine.popCall_eq m
    rw [hpop]
    exact ⟨h.stack.pop, h.globals⟩
  finish ok h := h.finish ok

/-! ## Assignments and calls -/

/-- From linked stacks a run leaves links in order and declared types as they are. -/
def KeepsTypes {α : Type} (x : Exec α) : Prop :=
  ∀ m : Machine, m.stack.Linked →
    (final x m).stack.Linked ∧ m.stack.KeepsTypes (final x m).stack

section KeepsTypes

variable {α β : Type}

theorem KeepsTypes.of_confines {x : Exec α} (h : Confines 0 x x) : KeepsTypes x := by
  intro m hlinked
  have hreturned := h.returned hlinked
  exact ⟨hreturned.linked hlinked, hreturned.stack.keepsTypes⟩

theorem KeepsTypes.bind {x : Exec α} {f : α → Exec β} (h : KeepsTypes x)
    (hf : ∀ a, KeepsTypes (f a)) : KeepsTypes (x >>= f) := by
  intro m hlinked
  obtain ⟨hlinked', hkeeps⟩ := h m hlinked
  unfold final at hlinked' hkeeps ⊢
  rw [bind_apply]
  cases hx : x m with
  | error halt after =>
    rw [hx] at hlinked' hkeeps
    exact ⟨hlinked', hkeeps⟩
  | ok a after =>
    rw [hx] at hlinked' hkeeps
    obtain ⟨hlast, hkeeps'⟩ := hf a after hlinked'
    exact ⟨hlast, hkeeps.trans hkeeps'⟩

theorem keepsTypes_store (name : String) (v : Value) (position : Position) :
    KeepsTypes (store name v position) := by
  intro m hlinked
  refine ⟨((confines_respects.store name v position).returned hlinked).linked hlinked, ?_⟩
  obtain hfinal | ⟨v', hfinal⟩ := final_store name v position m
  · rw [hfinal]
    exact (Stack.Touched.refl _ _).keepsTypes
  · rw [hfinal]
    exact m.stack.keepsTypes_set name v'

/-- An assignment changes no declared type, nor does what is called on the way. -/
theorem keepsTypes_assignment (fuel : Nat) (target : String) (op : AssignOp) (e : Expr)
    (token : Token) : KeepsTypes (exec fuel (.assignment target op e token)) := by
  cases fuel with
  | zero => exact .of_confines ((confines_composes 0).halt _)
  | succ fuel =>
    have hvalue : KeepsTypes (value (eval fuel) e) :=
      .of_confines (value_rel (confines_composes 0) ((run_rel confines_respects fuel).1 e))
    have hassign : KeepsTypes (assign (eval fuel) target op e token.position) := by
      refine hvalue.bind fun v => ?_
      cases op with
      | plain => exact keepsTypes_store target v _
      | compound op =>
        refine (KeepsTypes.of_confines (confines_respects.load target _)).bind fun old => ?_
        refine (KeepsTypes.of_confines (located_rel (confines_composes 0) _ _)).bind fun v => ?_
        exact keepsTypes_store target v _
    exact hassign.bind fun _ => .of_confines ((confines_composes 0).pure _)

end KeepsTypes

/-- What the end of a body is made into is of the declared type, or nothing without one. -/
theorem type_of_result {decl : FunctionDecl} {position : Position} {flow : Flow}
    {m last : Machine} {v : Option Value} (h : result decl position flow m = .ok v last) :
    v.map (·.type) = decl.returns.type := by
  unfold result at h
  cases hreturns : decl.returns.type with
  | none =>
    simp only [hreturns] at h
    cases h
    rfl
  | some type =>
    simp only [hreturns] at h
    cases flow with
    | returned result =>
      cases result with
      | none => cases h
      | some returned =>
        obtain ⟨fitting, after, hcoerce, h⟩ := bind_eq_ok.mp h
        cases h
        unfold coerce at hcoerce
        cases hfits : returned.coerce? type with
        | none =>
          simp only [hfits] at hcoerce
          cases hcoerce
        | some v =>
          simp only [hfits] at hcoerce
          cases hcoerce
          exact congrArg some (Value.type_of_coerce? hfits)
    | _ => cases h

/-- A call that finds a function of the program yields a value of its declared type. -/
theorem type_of_call {eval : Expr → Exec (Option Value)} {exec : Statement → Exec Flow}
    {name : String} {arguments : List Value} {position : Position} {m last : Machine}
    {outer : Nat} {decl : FunctionDecl} {v : Option Value}
    (hfound : m.stack.findFunction? name = some (outer, decl))
    (h : call eval exec name arguments position m = .ok v last) :
    v.map (·.type) = decl.returns.type := by
  unfold call at h
  simp only [bind_apply, get_apply, hfound, callFunction_apply] at h
  split at h
  next =>
    split at h
    next => cases h
    next =>
      unfold inCall bracket at h
      split at h
      next result after hinside =>
        cases h
        obtain ⟨_, _, _, hinside⟩ := bind_eq_ok.mp hinside
        obtain ⟨flow, _, _, hresult⟩ := bind_eq_ok.mp hinside
        exact type_of_result hresult
      next => cases h
  next => cases h

end Exec

/-- Links are in order, and variables hold values of their declared types. -/
def Machine.InOrder (m : Machine) : Prop := m.stack.Linked ∧ m.WellTyped

open Exec in
/-- Declared types are never violated. A run that begins with links in order and with values of the
declared types, as one that begins with nothing does, has both at every moment and behind it,
whatever comes of it: no variable holds a value that is not of its declared type, neither in a frame
nor among those of the last program. In such a state no assignment changes the declared type of a
variable that is there, and a call of a function of the program that returns yields a value of the
type that the function was declared with, and none if it was declared without. -/
theorem types_respected (fuel : Nat) {m : Machine} (horder : m.InOrder) :
    (∀ halt,
      (∀ e, evalUntil (fun _ now => ¬ now.InOrder) halt fuel e m = eval fuel e m) ∧
      (∀ s, execUntil (fun _ now => ¬ now.InOrder) halt fuel s m = exec fuel s m) ∧
      ∀ p, programUntil (fun _ now => ¬ now.InOrder) halt fuel p m = program fuel p m) ∧
    ((∀ e, (final (eval fuel e) m).InOrder) ∧
      (∀ s, (final (exec fuel s) m).InOrder) ∧
      ∀ p, (final (program fuel p) m).InOrder) ∧
    (∀ target op e token,
      m.stack.KeepsTypes (final (exec fuel (.assignment target op e token)) m).stack) ∧
    ∀ name outer decl, m.stack.findFunction? name = some (outer, decl) →
      ∀ arguments position v last,
        call (eval fuel) (exec fuel) name arguments position m = .ok v last →
          v.map (·.type) = decl.returns.type := by
  have hinvariant : Invariant Machine.InOrder := linked_invariant.and wellTyped_invariant
  obtain ⟨heval, hexec⟩ := hinvariant.until_upholds .outOfFuel fuel
  have hprogram := hinvariant.program_upholds .outOfFuel fuel
  refine ⟨?_, ⟨fun e => (heval e m horder).2, fun s => (hexec s m horder).2,
    fun p => (hprogram p m horder).2⟩, ?_, ?_⟩
  · intro halt
    obtain ⟨heval, hexec⟩ := hinvariant.until_upholds halt fuel
    exact ⟨fun e => (heval e m horder).1, fun s => (hexec s m horder).1,
      fun p => (hinvariant.program_upholds halt fuel p m horder).1⟩
  · exact fun target op e token => (keepsTypes_assignment fuel target op e token m horder.1).2
  · exact fun name outer decl hfound arguments position v last => type_of_call hfound

/-- An integer that is passed, returned and assigned where a floating-point number is declared. -/
theorem types_respected_widened : ∃ p last,
    read "var(float) x = 0; func(float) twice(var(float) d) \x7b return d + d; \x7d x = twice(2);" =
      .ok p ∧
    Exec.program 20 p (.initial 100 none) = .ok () last ∧
    last.globals.find? "x" = some ⟨some .float, some (.float (Binary.ofInt 4))⟩ ∧
    last.InOrder := by
  obtain ⟨ts, p, htokenize, hparse, hend⟩ := exists_read
    "var(float) x = 0; func(float) twice(var(float) d) \x7b return d + d; \x7d x = twice(2);" rfl
    (fun p => match Exec.program 20 p (.initial 100 none) with
      | .ok _ last => decide (last.globals.find? "x" =
          some ⟨some .float, some (.float (Binary.ofInt 4))⟩)
      | _ => false) (by decide +kernel)
  have horder : (Machine.initial 100 none).InOrder :=
    ⟨.empty rfl, Machine.wellTyped_initial 100 none⟩
  have hlast := (types_respected 20 horder).2.1.2.2 p
  unfold Exec.final at hlast
  cases hrun : Exec.program 20 p (.initial 100 none) with
  | error halt last =>
    simp only [hrun] at hend
    cases hend
  | ok _ last =>
    simp only [hrun, decide_eq_true_eq] at hend
    rw [hrun] at hlast
    exact ⟨p, last, read_eq_ok.mpr ⟨ts, htokenize, hparse⟩, hrun, hend, hlast⟩

end ScopedScript
