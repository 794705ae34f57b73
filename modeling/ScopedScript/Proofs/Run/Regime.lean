import ScopedScript.Proofs.Run.Confinement

/-!
# Runs that keep to a regime

Which frames are on the stack and how many calls are under way is known at every moment of a run
from the place in the program that it is at: a rule that enters a frame leaves it again. What is not
known from the place alone is which functions the frames hold, what has been recorded, and how the
run can halt. A regime says what is allowed of these three, and a run keeps to it if it leads from
states that do to states that do.

## Main definitions

* `Stack.kinds` : what the frames of a stack were entered for.
* `Stack.HasOnly` : all functions on a stack have a property.
* `Regime`, `Regime.At` : what is allowed, and states with known frames that comply.
* `Regime.Keeps` : two runs that are the same and keep to a regime.

## Main statements

* `Regime.keeps_operates`, `Regime.keeps_encloses` : operations and frames keep to a regime.
* `Regime.keeps_call` : a call does, if the functions that are allowed do.
-/

namespace ScopedScript

namespace Stack

/-! ## What frames were entered for -/

/-- What the frames were entered for, the top one last. -/
def kinds (stack : Stack) : List FrameKind := stack.frames.toList.map (·.kind)

/-- How many frames of calls there are. -/
def functionFrames (stack : Stack) : Nat := stack.kinds.count .function

theorem depth_eq_length_kinds (stack : Stack) : stack.depth = stack.kinds.length := by
  rw [kinds, List.length_map, Array.length_toList, depth]

theorem getElem?_kinds (stack : Stack) (i : Nat) :
    stack.kinds[i]? = (stack.frames[i]?).map (·.kind) := by
  rw [kinds, List.getElem?_map, Array.getElem?_toList]

theorem kinds_modifyFrame {change : Frame → Frame}
    (h : ∀ frame : Frame, (change frame).kind = frame.kind) (stack : Stack) (i : Nat) :
    (stack.modifyFrame i change).kinds = stack.kinds := by
  refine List.ext_getElem? fun j => ?_
  rw [getElem?_kinds, getElem?_kinds, modifyFrame_frames]
  split
  · cases stack.frames[j]? with
    | none => rfl
    | some frame => exact congrArg some (h frame)
  · rfl

theorem kinds_modifyTop {change : Frame → Frame}
    (h : ∀ frame : Frame, (change frame).kind = frame.kind) (stack : Stack) :
    (stack.modifyTop change).kinds = stack.kinds := by
  unfold modifyTop
  split
  · rfl
  · exact kinds_modifyFrame h _ _

@[simp] theorem kinds_set (stack : Stack) (name : String) (value : Value) :
    (stack.set name value).kinds = stack.kinds := by
  unfold set
  split
  · exact kinds_modifyFrame (by exact fun _ => rfl) _ _
  · exact kinds_modifyTop (by exact fun _ => rfl) _

@[simp] theorem kinds_declare (stack : Stack) (name : String) (type : Option Ty)
    (value : Option Value) : (stack.declare name type value).kinds = stack.kinds :=
  kinds_modifyTop (by exact fun _ => rfl) _

@[simp] theorem kinds_declareFunction (stack : Stack) (decl : FunctionDecl) :
    (stack.declareFunction decl).kinds = stack.kinds :=
  kinds_modifyTop (by exact fun _ => rfl) _

@[simp] theorem kinds_pushLinked (stack : Stack) (name : String) (kind : FrameKind)
    (outer : Option Nat) : (stack.pushLinked name kind outer).kinds = stack.kinds ++ [kind] := by
  simp only [kinds, pushLinked, Array.toList_push, List.map_append, List.map_cons, List.map_nil,
    newFrame]

@[simp] theorem kinds_pop (stack : Stack) : stack.pop.kinds = stack.kinds.dropLast := by
  simp only [kinds, pop, Array.toList_pop, List.map_dropLast]

/-! ## Which functions frames hold -/

/-- All functions that the frames hold have a property. -/
def HasOnly (property : FunctionDecl → Prop) (stack : Stack) : Prop :=
  ∀ (i : Nat) (frame : Frame), stack.frames[i]? = some frame →
    ∀ name decl, frame.functions.find? name = some decl → property decl

section HasOnly

variable {property : FunctionDecl → Prop} {stack : Stack}

theorem HasOnly.empty (h : stack.frames = #[]) : stack.HasOnly property := by
  intro i frame hframe
  rw [h] at hframe
  cases hframe

variable (h : stack.HasOnly property)

include h

theorem HasOnly.findFunction? {name : String} {found : Nat × FunctionDecl}
    (hfound : stack.findFunction? name = some found) : property found.2 := by
  obtain ⟨i, _, hthere⟩ := List.exists_of_findSome?_eq_some hfound
  obtain ⟨decl, hdecl, rfl⟩ := Option.map_eq_some_iff.mp hthere
  obtain ⟨frame, hframe, hfunction⟩ := Option.bind_eq_some_iff.mp hdecl
  exact h i frame hframe name decl hfunction

theorem HasOnly.modifyFrame {change : Frame → Frame}
    (hchange : ∀ frame : Frame, (∀ name decl, frame.functions.find? name = some decl →
      property decl) → ∀ name decl, (change frame).functions.find? name = some decl →
        property decl) (i : Nat) : (stack.modifyFrame i change).HasOnly property := by
  intro j frame hframe
  rw [modifyFrame_frames] at hframe
  split at hframe
  · obtain ⟨before, hbefore, rfl⟩ := Option.map_eq_some_iff.mp hframe
    exact hchange before (h j before hbefore)
  · exact h j frame hframe

theorem HasOnly.modifyTop {change : Frame → Frame}
    (hchange : ∀ frame : Frame, (∀ name decl, frame.functions.find? name = some decl →
      property decl) → ∀ name decl, (change frame).functions.find? name = some decl →
        property decl) : (stack.modifyTop change).HasOnly property := by
  unfold Stack.modifyTop
  split
  · exact h
  · exact h.modifyFrame hchange _

theorem HasOnly.set (name : String) (value : Value) :
    (stack.set name value).HasOnly property := by
  unfold Stack.set
  split
  · exact h.modifyFrame (by exact fun _ hframe => hframe) _
  · exact h.modifyTop fun _ hframe => hframe

theorem HasOnly.declare (name : String) (type : Option Ty) (value : Option Value) :
    (stack.declare name type value).HasOnly property :=
  h.modifyTop fun _ hframe => hframe

theorem HasOnly.declareFunction {decl : FunctionDecl} (hdecl : property decl) :
    (stack.declareFunction decl).HasOnly property := by
  refine h.modifyTop fun frame hframe name found hfound => ?_
  rw [Table.find?_insert] at hfound
  split at hfound
  · obtain rfl := Option.some.inj hfound
    exact hdecl
  · exact hframe name found hfound

theorem HasOnly.pushLinked (name : String) (kind : FrameKind) (outer : Option Nat) :
    (stack.pushLinked name kind outer).HasOnly property := by
  intro i frame hframe
  rw [pushLinked_frames] at hframe
  split at hframe
  · obtain rfl := Option.some.inj hframe
    exact nofun
  · exact h i frame hframe

theorem HasOnly.pop : stack.pop.HasOnly property := by
  intro i frame hframe
  have hi := (Array.getElem?_eq_some_iff.mp hframe).1
  rw [Stack.pop, Array.size_pop] at hi
  rw [pop_frames hi] at hframe
  exact h i frame hframe

end HasOnly

end Stack

/-! ## What is recorded -/

namespace Machine

/-- What is recorded of a frame that is entered inside the top one. -/
theorem pushFrame_recorded (m : Machine) (name : String) (kind : FrameKind) :
    (m.pushFrame name kind).events =
      .framePushed name kind (m.stack.levelAbove m.stack.topIndex?) (m.stack.depth + 1) ::
        m.events := by
  simp only [pushFrame, logPush, Stack.top?, Stack.push, Stack.pushLinked, Array.back?_push, log,
    Stack.newFrame, Stack.depth, Array.size_push]

theorem pushFrame_events (m : Machine) (name : String) (kind : FrameKind) :
    ∃ level, (m.pushFrame name kind).events =
      .framePushed name kind level (m.stack.depth + 1) :: m.events :=
  ⟨_, m.pushFrame_recorded name kind⟩

/-- What is recorded of a call that is entered. -/
theorem pushCall_recorded (m : Machine) (name : String) (outer : Nat) :
    (m.pushCall name outer).events = .called name (m.callDepth + 1) ::
      .framePushed name .function (m.stack.levelAbove (some outer)) (m.stack.depth + 1) ::
        m.events := by
  simp only [pushCall, logPush, Stack.top?, Stack.pushFunction, Stack.pushLinked, Array.back?_push,
    log, Stack.newFrame, Stack.depth, Array.size_push]

theorem pushCall_events (m : Machine) (name : String) (outer : Nat) :
    ∃ level, (m.pushCall name outer).events = .called name (m.callDepth + 1) ::
      .framePushed name .function level (m.stack.depth + 1) :: m.events :=
  ⟨_, m.pushCall_recorded name outer⟩

/-- What is recorded of a frame that is left. -/
theorem popFrame_recorded {m : Machine} {frame : Frame} (htop : m.stack.top? = some frame) :
    m.popFrame.events =
      .framePopped frame.name frame.kind frame.level (m.stack.depth - 1) :: m.events := by
  simp only [popFrame, htop, log, Stack.pop, Stack.depth, Array.size_pop]

theorem popFrame_events (m : Machine) : m.popFrame.events = m.events ∨
    ∃ name kind level depth,
      m.popFrame.events = .framePopped name kind level depth :: m.events := by
  unfold popFrame
  split
  · exact .inr ⟨_, _, _, _, rfl⟩
  · exact .inl rfl

end Machine

/-! ## Regimes -/

/-- What is allowed in a run. -/
structure Regime where
  limit : Nat
  function : FunctionDecl → Prop
  event : Event → Prop
  halt : Halt → Prop
  popped : ∀ name kind level depth, event (.framePopped name kind level depth)
  fault : ∀ d, halt (.fault d)

namespace Regime

/-- A state with frames of such kinds and so many calls that complies with a regime. -/
structure At (G : Regime) (kinds : List FrameKind) (calls : Nat) (m : Machine) : Prop where
  kinds : m.stack.kinds = kinds
  calls : m.callDepth = calls
  limit : m.maxCallDepth = G.limit
  functions : m.stack.HasOnly G.function
  events : ∀ event ∈ m.events, G.event event

section At

variable {G : Regime} {kinds : List FrameKind} {calls : Nat} {m : Machine}

theorem At.depth (h : G.At kinds calls m) : m.stack.depth = kinds.length := by
  rw [Stack.depth_eq_length_kinds, h.kinds]

/-- A state in which nothing runs. -/
theorem At.of_empty (hempty : m.stack.frames = #[]) (hlimit : m.maxCallDepth = G.limit)
    (hevents : ∀ event ∈ m.events, G.event event) : G.At [] m.callDepth m := by
  refine ⟨?_, rfl, hlimit, .empty hempty, hevents⟩
  rw [Stack.kinds, hempty]
  rfl

variable (h : G.At kinds calls m)

include h

theorem At.write (output : Output) : G.At kinds calls { m with output } :=
  ⟨h.kinds, h.calls, h.limit, h.functions, h.events⟩

theorem At.set (name : String) (value : Value) :
    G.At kinds calls { m with stack := m.stack.set name value } :=
  ⟨(Stack.kinds_set ..).trans h.kinds, h.calls, h.limit, h.functions.set name value, h.events⟩

theorem At.declare (name : String) (type : Option Ty) (value : Option Value) :
    G.At kinds calls { m with stack := m.stack.declare name type value } :=
  ⟨(Stack.kinds_declare ..).trans h.kinds, h.calls, h.limit, h.functions.declare name type value,
    h.events⟩

theorem At.declareFunction {decl : FunctionDecl} (hdecl : G.function decl) :
    G.At kinds calls { m with stack := m.stack.declareFunction decl } :=
  ⟨(Stack.kinds_declareFunction ..).trans h.kinds, h.calls, h.limit,
    h.functions.declareFunction hdecl, h.events⟩

theorem At.pushFrame {name : String} {kind : FrameKind}
    (hpushed : ∀ level, G.event (.framePushed name kind level (kinds.length + 1))) :
    G.At (kinds ++ [kind]) calls (m.pushFrame name kind) := by
  obtain ⟨_, heq⟩ := m.pushFrame_eq name kind
  obtain ⟨level, hevents⟩ := m.pushFrame_events name kind
  refine ⟨?_, ?_, ?_, ?_, ?_⟩
  · rw [Machine.pushFrame_stack, Stack.push, Stack.kinds_pushLinked, h.kinds]
  · rw [heq]
    exact h.calls
  · rw [heq]
    exact h.limit
  · rw [Machine.pushFrame_stack]
    exact h.functions.pushLinked _ _ _
  · rw [hevents, List.forall_mem_cons, h.depth]
    exact ⟨hpushed level, h.events⟩

theorem At.popFrame_events : ∀ event ∈ m.popFrame.events, G.event event := by
  obtain hevents | ⟨_, _, _, _, hevents⟩ := m.popFrame_events
  · rw [hevents]
    exact h.events
  · rw [hevents, List.forall_mem_cons]
    exact ⟨G.popped _ _ _ _, h.events⟩

theorem At.finish_events {ok : Bool} (hfinished : G.event (.programFinished ok)) :
    ∀ event ∈ (m.finish ok).events, G.event event := by
  change ∀ event ∈ Event.programFinished ok :: m.popFrame.events, G.event event
  exact List.forall_mem_cons.mpr ⟨hfinished, h.popFrame_events⟩

theorem At.pushCall {name : String} {outer : Nat}
    (hpushed : ∀ level, G.event (.framePushed name .function level (kinds.length + 1)))
    (hcalled : G.event (.called name (calls + 1))) :
    G.At (kinds ++ [.function]) (calls + 1) (m.pushCall name outer) := by
  obtain ⟨_, heq⟩ := m.pushCall_eq name outer
  obtain ⟨level, hevents⟩ := m.pushCall_events name outer
  refine ⟨?_, ?_, ?_, ?_, ?_⟩
  · rw [Machine.pushCall_stack, Stack.pushFunction, Stack.kinds_pushLinked, h.kinds]
  · rw [heq]
    exact congrArg (· + 1) h.calls
  · rw [heq]
    exact h.limit
  · rw [Machine.pushCall_stack]
    exact h.functions.pushLinked _ _ _
  · rw [hevents, List.forall_mem_cons, List.forall_mem_cons, h.depth, h.calls]
    exact ⟨hcalled, hpushed level, h.events⟩

end At

theorem At.popFrame {G : Regime} {kinds : List FrameKind} {kind : FrameKind} {calls : Nat}
    {m : Machine} (h : G.At (kinds ++ [kind]) calls m) : G.At kinds calls m.popFrame := by
  obtain ⟨_, heq⟩ := m.popFrame_eq
  refine ⟨?_, ?_, ?_, ?_, ?_⟩
  · rw [Machine.popFrame_stack, Stack.kinds_pop, h.kinds, List.dropLast_concat]
  · rw [heq]
    exact h.calls
  · rw [heq]
    exact h.limit
  · rw [Machine.popFrame_stack]
    exact h.functions.pop
  · exact h.popFrame_events

theorem At.popCall {G : Regime} {kinds : List FrameKind} {kind : FrameKind} {calls : Nat}
    {m : Machine} (h : G.At (kinds ++ [kind]) (calls + 1) m) : G.At kinds calls m.popCall := by
  have hpopped := h.popFrame
  exact ⟨hpopped.kinds, Nat.sub_eq_of_eq_add hpopped.calls, hpopped.limit, hpopped.functions,
    hpopped.events⟩

/-! ## Runs -/

/-- An end of a run that complies with a regime. -/
def Ends (G : Regime) (kinds : List FrameKind) (calls : Nat) {α : Type} :
    EStateM.Result Halt Machine α → Prop
  | .ok _ after => G.At kinds calls after
  | .error halt after => G.halt halt ∧ G.At kinds calls after

theorem Ends.final {G : Regime} {kinds : List FrameKind} {calls : Nat} {α : Type} {x : Exec α}
    {m : Machine} (h : G.Ends kinds calls (x m)) : G.At kinds calls (Exec.final x m) := by
  unfold Exec.final
  cases hx : x m with
  | ok a after =>
    rw [hx] at h
    exact h
  | error halt after =>
    rw [hx] at h
    exact h.2

/-- From states that comply with a regime two runs are the same, and end in such states. -/
def Keeps (G : Regime) (kinds : List FrameKind) (calls : Nat) {α : Type} (x y : Exec α) : Prop :=
  ∀ m, G.At kinds calls m → x m = y m ∧ G.Ends kinds calls (y m)

theorem Keeps.of_ends {G : Regime} {kinds : List FrameKind} {calls : Nat} {α : Type} {x : Exec α}
    (h : ∀ m, G.At kinds calls m → G.Ends kinds calls (x m)) : G.Keeps kinds calls x x :=
  fun m hm => ⟨rfl, h m hm⟩

end Regime

namespace Exec

open Regime

section Keeps

variable {G : Regime} {kinds : List FrameKind} {calls : Nat}

theorem keeps_bind {α β : Type} {x y : Exec α} {f g : α → Exec β} (h : G.Keeps kinds calls x y)
    (hf : ∀ a, G.Keeps kinds calls (f a) (g a)) : G.Keeps kinds calls (x >>= f) (y >>= g) := by
  intro m hm
  obtain ⟨heq, hends⟩ := h m hm
  rw [bind_apply, bind_apply, heq]
  cases hy : y m with
  | error halt after =>
    rw [hy] at hends
    exact ⟨rfl, hends⟩
  | ok a after =>
    rw [hy] at hends
    exact hf a after hends

theorem keeps_combines (G : Regime) (kinds : List FrameKind) (calls : Nat) :
    Combines .keep (G.Keeps kinds calls) where
  pure _ := .of_ends fun _ hm => hm
  fail _ _ := .of_ends fun _ hm => ⟨G.fault _, hm⟩
  bind := keeps_bind

/-- A regime that allows every halt is kept by whatever is composed. -/
theorem keeps_composes (hhalt : ∀ halt, G.halt halt) (kinds : List FrameKind) (calls : Nat) :
    Composes (G.Keeps kinds calls) where
  pure := (keeps_combines G kinds calls).pure
  halt reason := .of_ends fun _ hm => ⟨hhalt reason, hm⟩
  bind := keeps_bind

theorem keeps_bracket {α : Type} {x y : Exec α} {enter leave : Machine → Machine}
    {kinds' : List FrameKind} {calls' : Nat} (h : G.Keeps kinds' calls' x y)
    {m : Machine} (henter : G.At kinds' calls' (enter m))
    (hleave : ∀ {after}, G.At kinds' calls' after → G.At kinds calls (leave after)) :
    bracket enter leave x m = bracket enter leave y m ∧
      G.Ends kinds calls (bracket enter leave y m) := by
  obtain ⟨heq, hends⟩ := h (enter m) henter
  unfold bracket
  rw [heq]
  cases hy : y (enter m) with
  | error halt after =>
    rw [hy] at hends
    exact ⟨rfl, hends.1, hleave hends.2⟩
  | ok a after =>
    rw [hy] at hends
    exact ⟨rfl, hleave hends⟩

/-! ## Operations -/

theorem keeps_load (name : String) (position : Position) :
    G.Keeps kinds calls (load name position) (load name position) := by
  refine .of_ends fun m hm => ?_
  unfold load
  simp only [bind_apply, get_apply]
  cases (m.stack.get? name).bind (·.value) with
  | some v => exact hm
  | none => exact ⟨G.fault _, hm⟩

theorem keeps_write (text : String) (position : Position) :
    G.Keeps kinds calls (write text position) (write text position) := by
  refine .of_ends fun m hm => ?_
  unfold write
  simp only [bind_apply, get_apply, set_apply]
  cases (m.output.write text).1 with
  | true => exact hm.write _
  | false => exact ⟨G.fault _, hm.write _⟩

theorem keeps_store (name : String) (v : Value) (position : Position) :
    G.Keeps kinds calls (store name v position) (store name v position) := by
  refine .of_ends fun m hm => ?_
  unfold store
  simp only [bind_apply, get_apply]
  cases (m.stack.get? name).bind (·.type) with
  | none => exact hm.set name v
  | some type =>
    simp only [coerce]
    cases v.coerce? type with
    | none => exact ⟨G.fault _, hm⟩
    | some v' => exact hm.set name v'

theorem keeps_declare (name : String) (type : Ty) (v : Option Value) :
    G.Keeps kinds calls (declare name type v) (declare name type v) :=
  .of_ends fun _ hm => hm.declare name (some type) v

theorem keeps_declareFunction {decl : FunctionDecl} (hdecl : G.function decl) :
    G.Keeps kinds calls (declareFunction decl) (declareFunction decl) :=
  .of_ends fun _ hm => hm.declareFunction hdecl

theorem keeps_fit (name : String) (type : Ty) (v : Value) (position : Position) :
    G.Keeps kinds calls (fit name type v position) (fit name type v position) :=
  fit_along (keeps_combines G kinds calls) (keeps_declare name type) v position

/-- Operations on variables keep to a regime. -/
theorem keeps_operates (G : Regime) (kinds : List FrameKind) (calls : Nat) :
    Operates .keep (G.Keeps kinds calls) (G.Keeps kinds calls) where
  evaluation := keeps_combines G kinds calls
  execution := keeps_combines G kinds calls
  weaken h := h
  load := keeps_load
  store := keeps_store
  declare name type := keeps_declare name type none
  fit := keeps_fit

/-! ## Frames and calls -/

/-- What keeps to a regime inside a frame other than that of a call. -/
def KeepsInside (G : Regime) (kinds : List FrameKind) (calls : Nat) {α : Type}
    (x y : Exec α) : Prop :=
  ∀ kind : FrameKind, kind ≠ .function → G.Keeps (kinds ++ [kind]) calls x y

/-- A frame keeps to a regime if what runs inside does. -/
theorem keeps_encloses
    (hpushed : ∀ name kind level, G.event (.framePushed name kind level (kinds.length + 1))) :
    Encloses .keep (G.Keeps kinds calls) (KeepsInside G kinds calls) where
  outside := keeps_combines G kinds calls
  inside := {
    pure _ _ _ := (keeps_combines G _ calls).pure _
    fail fault position _ _ := (keeps_combines G _ calls).fail fault position
    bind hx hf kind hkind := keeps_bind (hx kind hkind) fun a => hf a kind hkind }
  fit name type v position _ _ := keeps_fit name type v position
  inFrame name kind hkind h := fun _ hm =>
    keeps_bracket (h kind hkind) (hm.pushFrame (hpushed name kind)) At.popFrame

/-- What there is for each call that is left: a call leaves one less. -/
theorem mul_sub_succ {calls limit : Nat} (share : Nat) (h : calls < limit) :
    share * (limit - calls) = share * (limit - (calls + 1)) + share := by
  rw [← Nat.mul_succ]
  congr 1
  omega

/-- A call keeps to a regime if allowed functions do in a frame of their own. -/
theorem keeps_call {eval eval' : Expr → Exec (Option Value)} {exec exec' : Statement → Exec Flow}
    {name : String} {arguments : List Value} {position : Position}
    (hpushed : ∀ decl level, G.function decl → calls < G.limit →
      G.event (.framePushed decl.name .function level (kinds.length + 1)))
    (hcalled : ∀ name, calls < G.limit → G.event (.called name (calls + 1)))
    (hinside : ∀ decl, G.function decl → calls < G.limit →
      G.Keeps (kinds ++ [.function]) (calls + 1) (inside eval exec decl arguments position)
        (inside eval' exec' decl arguments position)) :
    G.Keeps kinds calls (call eval exec name arguments position)
      (call eval' exec' name arguments position) := by
  intro m hm
  unfold call
  rw [bind_apply, bind_apply]
  simp only [get_apply]
  cases hfound : m.stack.findFunction? name with
  | none =>
    cases Builtin.ofName? name with
    | none => exact (keeps_combines G kinds calls).fail _ position m hm
    | some b =>
      exact builtin_along (keeps_combines G kinds calls) keeps_write b arguments position m hm
  | some found =>
    simp only [callFunction_apply]
    split
    · split
      · exact (keeps_combines G kinds calls).fail _ position m hm
      next hlimit =>
        have hcalls : calls < G.limit := by
          rw [hm.calls, hm.limit] at hlimit
          omega
        have hallowed := hm.functions.findFunction? hfound
        exact keeps_bracket (hinside found.2 hallowed hcalls)
          (hm.pushCall (fun level => hpushed found.2 level hallowed hcalls) (hcalled _ hcalls))
          At.popCall
    · exact (keeps_combines G kinds calls).fail _ position m hm

end Keeps

end Exec

end ScopedScript
