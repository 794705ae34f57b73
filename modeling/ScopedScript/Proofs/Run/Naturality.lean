import ScopedScript.Proofs.Run.Rules

/-!
# Runs do not depend on tokens

The rules read a token for the position of a fault and for nothing else. So a program with other
tokens runs in the same way: from a state whose functions have those other tokens it prints the same
text, ends with the same variables and records the same, and a fault has the same cause, at the
position that stands in the place of the first.
-/

namespace ScopedScript

/-! ## Tables -/

namespace Table

variable {α β : Type} (change : α → β)

/-- The table with every entry changed. -/
def map (table : Table α) : Table β :=
  ⟨table.entries.map fun (name, entry) => (name, change entry)⟩

theorem find?_map (table : Table α) (name : String) :
    (table.map change).find? name = (table.find? name).map change := by
  obtain ⟨entries⟩ := table
  simp only [map, find?]
  induction entries with
  | nil => rfl
  | cons head rest ih =>
    rw [List.map_cons, findIn, findIn, ih]
    split <;> rfl

theorem map_insert (table : Table α) (name : String) (entry : α) :
    (table.insert name entry).map change = (table.map change).insert name (change entry) := by
  obtain ⟨entries⟩ := table
  simp only [map, insert, mk.injEq]
  induction entries with
  | nil => rfl
  | cons head rest ih =>
    rw [insertIn, List.map_cons, insertIn]
    split
    · rfl
    · rw [List.map_cons, ih]

end Table

/-! ## States with other tokens -/

variable (f : Relabeling)

/-- A frame whose functions have other tokens. -/
def Frame.relabel (frame : Frame) : Frame :=
  { frame with functions := frame.functions.map (FunctionDecl.relabel f) }

/-- A stack whose functions have other tokens. -/
def Stack.relabel (stack : Stack) : Stack :=
  { stack with frames := stack.frames.map (Frame.relabel f) }

/-- A state whose functions have other tokens. -/
def Machine.relabel (m : Machine) : Machine := { m with stack := m.stack.relabel f }

/-- The halt of a run with other tokens. -/
def Halt.relabel : Halt → Halt
  | .fault d => .fault (d.relabel f)
  | .outOfFuel => .outOfFuel

namespace Stack

variable (stack : Stack)

theorem getElem?_relabel (i : Nat) :
    (stack.relabel f).frames[i]? = (stack.frames[i]?).map (Frame.relabel f) :=
  Array.getElem?_map

@[simp] theorem depth_relabel : (stack.relabel f).depth = stack.depth := Array.size_map

@[simp] theorem topIndex?_relabel : (stack.relabel f).topIndex? = stack.topIndex? := by
  have hempty : (stack.relabel f).frames.isEmpty = stack.frames.isEmpty := by
    simp only [Array.isEmpty, relabel, Array.size_map]
  rw [topIndex?, topIndex?, depth_relabel, hempty]

@[simp] theorem top?_relabel : (stack.relabel f).top? = stack.top?.map (Frame.relabel f) :=
  Array.back?_map

@[simp] theorem chain_relabel : (stack.relabel f).chain = stack.chain := by
  have hlink : (stack.relabel f).link = stack.link := by
    funext i
    rw [link, link, getElem?_relabel, Option.bind_map]
    rfl
  rw [chain, chain, topIndex?_relabel, hlink]

@[simp] theorem bindingAt?_relabel (name : String) :
    (stack.relabel f).bindingAt? name = stack.bindingAt? name := by
  funext i
  rw [bindingAt?, bindingAt?, getElem?_relabel, Option.bind_map]
  rfl

theorem functionAt?_relabel (name : String) (i : Nat) :
    (stack.relabel f).functionAt? name i =
      (stack.functionAt? name i).map (FunctionDecl.relabel f) := by
  rw [functionAt?, functionAt?, getElem?_relabel, Option.bind_map, Option.map_bind]
  congr 1
  funext frame
  exact Table.find?_map _ _ _

@[simp] theorem get?_relabel (name : String) : (stack.relabel f).get? name = stack.get? name := by
  rw [get?, get?, chain_relabel, bindingAt?_relabel]

theorem findFunction?_relabel (name : String) :
    (stack.relabel f).findFunction? name =
      (stack.findFunction? name).map fun (i, decl) => (i, decl.relabel f) := by
  simp only [findFunction?, chain_relabel, List.map_findSome?, functionAt?_relabel,
    Option.map_map, Function.comp_def]

/-! Changes of the stack -/

theorem relabel_modifyFrame {change change' : Frame → Frame}
    (h : ∀ frame : Frame, (change frame).relabel f = change' (frame.relabel f)) (i : Nat) :
    (stack.modifyFrame i change).relabel f = (stack.relabel f).modifyFrame i change' := by
  have hframes : ((stack.frames.modify i change).map (Frame.relabel f)) =
      (stack.frames.map (Frame.relabel f)).modify i change' := by
    refine Array.ext_getElem? fun j => ?_
    simp only [Array.getElem?_modify, Array.getElem?_map]
    split
    · simp only [Option.map_map, Function.comp_def, h]
    · rfl
  simp only [modifyFrame, relabel, hframes]

theorem relabel_modifyTop {change change' : Frame → Frame}
    (h : ∀ frame : Frame, (change frame).relabel f = change' (frame.relabel f)) :
    (stack.modifyTop change).relabel f = (stack.relabel f).modifyTop change' := by
  rw [modifyTop, modifyTop, topIndex?_relabel]
  cases stack.topIndex? with
  | none => rfl
  | some top => exact stack.relabel_modifyFrame f h top

theorem relabel_set (name : String) (value : Value) :
    (stack.set name value).relabel f = (stack.relabel f).set name value := by
  have hstore : ∀ frame : Frame,
      (store name value frame).relabel f = store name value (frame.relabel f) := fun _ => rfl
  simp only [set, resolve?, chain_relabel, bindingAt?_relabel]
  split
  · exact stack.relabel_modifyFrame f hstore _
  · exact stack.relabel_modifyTop f hstore

theorem relabel_declare (name : String) (type : Option Ty) (value : Option Value) :
    (stack.declare name type value).relabel f = (stack.relabel f).declare name type value :=
  stack.relabel_modifyTop f fun _ => rfl

theorem relabel_declareFunction (decl : FunctionDecl) :
    (stack.declareFunction decl).relabel f =
      (stack.relabel f).declareFunction (decl.relabel f) := by
  refine stack.relabel_modifyTop f fun frame => ?_
  simp only [Frame.relabel, Table.map_insert, decl.relabel_name]

theorem relabel_pushLinked (name : String) (kind : FrameKind) (outer : Option Nat) :
    (stack.pushLinked name kind outer).relabel f =
      (stack.relabel f).pushLinked name kind outer := by
  have hlevel : (stack.relabel f).levelAbove outer = stack.levelAbove outer := by
    simp only [levelAbove, getElem?_relabel]
    cases outer with
    | none => rfl
    | some i =>
      simp only [Option.bind_some]
      cases stack.frames[i]? <;> rfl
  rw [pushLinked, pushLinked, newFrame, newFrame, hlevel]
  simp only [relabel, Array.map_push]
  rfl

theorem relabel_pop : stack.pop.relabel f = (stack.relabel f).pop := by
  simp only [pop, relabel, Array.map_pop]

end Stack

namespace Machine

variable (m : Machine)

@[simp] theorem callDepth_relabel : (m.relabel f).callDepth = m.callDepth := rfl

@[simp] theorem maxCallDepth_relabel : (m.relabel f).maxCallDepth = m.maxCallDepth := rfl

theorem relabel_log (event : Event) : (m.log event).relabel f = (m.relabel f).log event := rfl

theorem relabel_logPush : m.logPush.relabel f = (m.relabel f).logPush := by
  simp only [logPush, relabel, Stack.top?_relabel, Stack.depth_relabel]
  cases m.stack.top? <;> rfl

theorem relabel_pushFrame (name : String) (kind : FrameKind) :
    (m.pushFrame name kind).relabel f = (m.relabel f).pushFrame name kind := by
  rw [pushFrame, relabel_logPush, pushFrame]
  simp only [relabel, Stack.push, Stack.relabel_pushLinked, Stack.topIndex?_relabel]

theorem relabel_pushCall (name : String) (outer : Nat) :
    (m.pushCall name outer).relabel f = (m.relabel f).pushCall name outer := by
  rw [pushCall, pushCall]
  dsimp only
  rw [relabel_log, ← callDepth_relabel f (logPush _), relabel_logPush]
  simp only [relabel, Stack.pushFunction, Stack.relabel_pushLinked]

theorem relabel_popFrame : m.popFrame.relabel f = (m.relabel f).popFrame := by
  simp only [popFrame, relabel, Stack.top?_relabel, ← Stack.relabel_pop, Stack.depth_relabel]
  cases m.stack.top? <;> rfl

theorem relabel_popCall : m.popCall.relabel f = (m.relabel f).popCall := by
  simp only [popCall, ← relabel_popFrame]
  rfl

theorem relabel_finish (ok : Bool) : (m.finish ok).relabel f = (m.relabel f).finish ok := by
  simp only [finish, ← relabel_popFrame]
  simp only [relabel, Stack.top?_relabel, log]
  cases m.stack.top? <;> rfl

end Machine

/-! ## Runs -/

namespace Exec

/-- The end of a run with other tokens. -/
def relabelEnd {α : Type} : EStateM.Result Halt Machine α → EStateM.Result Halt Machine α
  | .ok a after => .ok a (after.relabel f)
  | .error halt after => .error (halt.relabel f) (after.relabel f)

/-- The second run does what the first does, with other tokens. -/
def Natural {α : Type} (x y : Exec α) : Prop := ∀ m : Machine, y (m.relabel f) = relabelEnd f (x m)

variable {f}

theorem Natural.bind {α β : Type} {x y : Exec α} {g k : α → Exec β} (h : Natural f x y)
    (hg : ∀ a, Natural f (g a) (k a)) : Natural f (x >>= g) (y >>= k) := by
  intro m
  rw [bind_apply, bind_apply, h m]
  cases x m with
  | ok a after => exact hg a after
  | error halt after => rfl

theorem natural_combines : Combines f (Natural f) where
  pure _ _ := rfl
  fail _ _ _ := rfl
  bind := Natural.bind

theorem Natural.bracket {α : Type} {x y : Exec α} (h : Natural f x y)
    {enter leave : Machine → Machine}
    (henter : ∀ m : Machine, (enter m).relabel f = enter (m.relabel f))
    (hleave : ∀ m : Machine, (leave m).relabel f = leave (m.relabel f)) :
    Natural f (bracket enter leave x) (bracket enter leave y) := by
  intro m
  unfold Exec.bracket
  rw [← henter, h (enter m)]
  cases x (enter m) <;> simp only [relabelEnd, hleave]

theorem natural_load (name : String) (position : Position) :
    Natural f (load name position) (load name (f.position position)) := by
  intro m
  unfold load
  simp only [bind_apply, get_apply, Machine.relabel, Stack.get?_relabel]
  cases (m.stack.get? name).bind (·.value) <;> rfl

theorem natural_write (text : String) (position : Position) :
    Natural f (write text position) (write text (f.position position)) := by
  intro m
  unfold write
  simp only [bind_apply, get_apply, set_apply, Machine.relabel]
  cases (m.output.write text).1 <;> rfl

theorem natural_modify {change change' : Machine → Machine}
    (h : ∀ m : Machine, (change m).relabel f = change' (m.relabel f)) :
    Natural f (modify change) (modify change') :=
  fun m => congrArg (EStateM.Result.ok ()) (h m).symm

theorem natural_store (name : String) (v : Value) (position : Position) :
    Natural f (store name v position) (store name v (f.position position)) := by
  intro m
  have hget : (m.relabel f).stack.get? name = m.stack.get? name := m.stack.get?_relabel f name
  have hset : ∀ v, Natural f (modify fun m => { m with stack := m.stack.set name v })
      (modify fun m => { m with stack := m.stack.set name v }) :=
    fun v => natural_modify fun m => by simp only [Machine.relabel, Stack.relabel_set]
  unfold store
  rw [bind_apply, bind_apply]
  simp only [get_apply, hget]
  cases (m.stack.get? name).bind (·.type) with
  | none => exact hset v m
  | some type => exact (coerce_along natural_combines name type v position).bind hset m

theorem natural_declare (name : String) (type : Ty) (v : Option Value) :
    Natural f (declare name type v) (declare name type v) :=
  natural_modify fun m => by simp only [Machine.relabel, Stack.relabel_declare]

theorem natural_declareFunction (decl : FunctionDecl) :
    Natural f (declareFunction decl) (declareFunction (decl.relabel f)) :=
  natural_modify fun m => by simp only [Machine.relabel, Stack.relabel_declareFunction]

theorem natural_operates : Operates f (Natural f) (Natural f) where
  evaluation := natural_combines
  execution := natural_combines
  weaken h := h
  load := natural_load
  store := natural_store
  declare name type := natural_declare name type none
  fit name type v position := fit_along natural_combines (natural_declare name type) v position

theorem natural_encloses : Encloses f (Natural f) (Natural f) where
  outside := natural_combines
  inside := natural_combines
  fit := natural_operates.fit
  inFrame name kind _ h :=
    h.bracket (Machine.relabel_pushFrame f · name kind) (Machine.relabel_popFrame f)

theorem natural_call {eval eval' : Expr → Exec (Option Value)} {exec exec' : Statement → Exec Flow}
    (heval : ∀ e, Natural f (eval e) (eval' (e.relabel f)))
    (hexec : ∀ s, Natural f (exec s) (exec' (s.relabel f))) (name : String)
    (arguments : List Value) (position : Position) :
    Natural f (call eval exec name arguments position)
      (call eval' exec' name arguments (f.position position)) := by
  intro m
  have hfind := m.stack.findFunction?_relabel f name
  unfold call
  rw [bind_apply, bind_apply]
  simp only [get_apply]
  rw [show (m.relabel f).stack = m.stack.relabel f from rfl, hfind]
  cases m.stack.findFunction? name with
  | none =>
    cases Builtin.ofName? name with
    | none => exact natural_combines.fail _ position m
    | some b => exact builtin_along natural_combines natural_write b arguments position m
  | some found =>
    obtain ⟨outer, decl⟩ := found
    have hinside : Natural f (inside eval exec decl arguments position)
        (inside eval' exec' (decl.relabel f) arguments (f.position position)) :=
      inside_along natural_operates (fun e _ => heval e) (fun s _ => hexec s) arguments position
    simp only [Option.map_some, callFunction_apply, FunctionDecl.relabel_arity,
      FunctionDecl.relabel_name, Machine.callDepth_relabel, Machine.maxCallDepth_relabel]
    split
    · split
      · exact natural_combines.fail _ position m
      · exact hinside.bracket (Machine.relabel_pushCall f · decl.name outer)
          (Machine.relabel_popCall f) m
    · exact natural_combines.fail _ position m

/-- Evaluation and execution with other tokens do the same. -/
theorem run_natural (fuel : Nat) :
    (∀ e, Natural f (eval fuel e) (eval fuel (e.relabel f))) ∧
      ∀ s, Natural f (exec fuel s) (exec fuel (s.relabel f)) := by
  induction fuel with
  | zero => exact ⟨fun _ _ => rfl, fun _ _ => rfl⟩
  | succ fuel ih =>
    obtain ⟨heval, hexec⟩ := ih
    constructor
    · intro e
      exact evalStep_along natural_combines natural_load (natural_call heval hexec)
        fun part _ => heval part
    · intro s
      cases hs : s.isCompound with
      | true =>
        exact compoundStep_along natural_encloses fuel hs (fun e _ => heval e)
          (fun s _ => hexec s) fun _ _ _ _ _ => rfl
      | false =>
        exact plainStep_along natural_operates fuel hs (fun e _ => heval e)
          fun decl _ => natural_declareFunction decl

/-- So do programs. -/
theorem program_natural (fuel : Nat) (p : Program) :
    Natural f (program fuel p) (program fuel (p.map (Statement.relabel f))) := by
  have hblock : Natural f (block (exec fuel) p) (block (exec fuel) (p.map (Statement.relabel f))) :=
    block_along natural_combines fun s _ => (run_natural fuel).2 s
  intro m
  unfold program programBy
  rw [← Machine.relabel_pushFrame, hblock]
  cases block (exec fuel) p (m.pushFrame "global" .global) <;>
    simp only [relabelEnd, Machine.relabel_finish]

end Exec

end ScopedScript
