import ScopedScript.Chain
import ScopedScript.Table
import ScopedScript.Tree

/-!
# Frames and the stack of a running script

A frame holds the variables and functions declared in one piece of a running program. Frames are
stacked in the order in which they were entered, and each links to the frame in which names are
looked up after it: the frame around a block, or the frame a called function was declared in.
-/

namespace ScopedScript

/-- What a frame was entered for. -/
inductive FrameKind where
  | global
  | conditional
  /-- One round of a `while` loop. -/
  | whileRound
  /-- A `for` loop with all its rounds. -/
  | forLoop
  | function
  deriving DecidableEq

/-- The name of a kind in an event. -/
def FrameKind.name : FrameKind → String
  | global => "Global"
  | conditional => "Conditional"
  | whileRound => "While"
  | forLoop => "For"
  | function => "Function"

/-- How many frames of each kind have been entered. -/
structure FrameCounts where
  global : Nat
  conditional : Nat
  whileRound : Nat
  forLoop : Nat
  function : Nat
  deriving DecidableEq

namespace FrameCounts

/-- Nothing entered yet. -/
def zero : FrameCounts := ⟨0, 0, 0, 0, 0⟩

/-- The count of a kind. -/
def get (counts : FrameCounts) : FrameKind → Nat
  | .global => counts.global
  | .conditional => counts.conditional
  | .whileRound => counts.whileRound
  | .forLoop => counts.forLoop
  | .function => counts.function

/-- One more frame of a kind. -/
def add (counts : FrameCounts) : FrameKind → FrameCounts
  | .global => { counts with global := counts.global + 1 }
  | .conditional => { counts with conditional := counts.conditional + 1 }
  | .whileRound => { counts with whileRound := counts.whileRound + 1 }
  | .forLoop => { counts with forLoop := counts.forLoop + 1 }
  | .function => { counts with function := counts.function + 1 }

end FrameCounts

/-- A variable: its declared type, if it was declared, and its value, if it has one. -/
structure Binding where
  type : Option Ty
  value : Option Value
  deriving DecidableEq

/-- The variables and functions of one piece of a running program. -/
structure Frame where
  /-- The name of the function, or the word for the piece of program. -/
  name : String
  kind : FrameKind
  /-- How deep it lies, counted along the links from one. -/
  level : Nat
  /-- The frame in which names are looked up after this one. -/
  outer : Option Nat
  bindings : Table Binding
  functions : Table FunctionDecl

/-- The live frames, the top one last, and how many of each kind have been entered. -/
structure Stack where
  frames : Array Frame
  pushed : FrameCounts

namespace Stack

/-- The stack before anything runs. -/
def empty : Stack := ⟨#[], .zero⟩

/-- How many frames are live. -/
def depth (stack : Stack) : Nat := stack.frames.size

/-- The position of the top frame. -/
def topIndex? (stack : Stack) : Option Nat :=
  if stack.frames.isEmpty then none else some (stack.depth - 1)

/-- The top frame. -/
def top? (stack : Stack) : Option Frame := stack.frames.back?

/-! ## Entering and leaving -/

/-- The level of a frame that links to the given position. -/
def levelAbove (stack : Stack) (outer : Option Nat) : Nat :=
  match outer.bind (stack.frames[·]?) with
  | some frame => frame.level + 1
  | none => 1

/-- A frame of the given kind that links to the given position. -/
def newFrame (stack : Stack) (name : String) (kind : FrameKind) (outer : Option Nat) : Frame :=
  ⟨name, kind, stack.levelAbove outer, outer, .empty, .empty⟩

/-- Enters a frame that links to the given position. -/
def pushLinked (stack : Stack) (name : String) (kind : FrameKind) (outer : Option Nat) : Stack :=
  { frames := stack.frames.push (stack.newFrame name kind outer)
    pushed := stack.pushed.add kind }

/-- Enters a frame inside the top one. -/
def push (stack : Stack) (name : String) (kind : FrameKind) : Stack :=
  stack.pushLinked name kind stack.topIndex?

/-- Enters the frame of a call, which sees the frame the function was declared in. -/
def pushFunction (stack : Stack) (name : String) (outer : Nat) : Stack :=
  stack.pushLinked name .function (some outer)

/-- Leaves the top frame. -/
def pop (stack : Stack) : Stack :=
  { stack with frames := stack.frames.pop }

/-! ## Looking names up -/

/-- The position that a frame links to. -/
def link (stack : Stack) (i : Nat) : Option Nat :=
  (stack.frames[i]?).bind (·.outer)

/-- The positions of the frames that are visible from the top, innermost first. -/
def chain (stack : Stack) : List Nat :=
  match stack.topIndex? with
  | none => []
  | some top => ScopedScript.chain stack.link top

/-- The binding of a name in the frame at a position. -/
def bindingAt? (stack : Stack) (name : String) (i : Nat) : Option Binding :=
  (stack.frames[i]?).bind (·.bindings.find? name)

/-- The function of a name in the frame at a position. -/
def functionAt? (stack : Stack) (name : String) (i : Nat) : Option FunctionDecl :=
  (stack.frames[i]?).bind (·.functions.find? name)

/-- The nearest visible frame that binds a name. -/
def resolve? (stack : Stack) (name : String) : Option Nat :=
  stack.chain.find? fun i => (stack.bindingAt? name i).isSome

/-- The nearest visible binding of a name. -/
def get? (stack : Stack) (name : String) : Option Binding :=
  stack.chain.findSome? (stack.bindingAt? name)

/-- The nearest visible function of a name, and the position of the frame that holds it. -/
def findFunction? (stack : Stack) (name : String) : Option (Nat × FunctionDecl) :=
  stack.chain.findSome? fun i => (stack.functionAt? name i).map (i, ·)

/-! ## Changing what frames hold -/

/-- Changes the frame at a position. -/
def modifyFrame (stack : Stack) (i : Nat) (change : Frame → Frame) : Stack :=
  { stack with frames := stack.frames.modify i change }

/-- Changes the top frame; without one nothing changes. -/
def modifyTop (stack : Stack) (change : Frame → Frame) : Stack :=
  match stack.topIndex? with
  | none => stack
  | some top => stack.modifyFrame top change

/-- The frame with a variable bound, whatever it was before. -/
def bind (name : String) (binding : Binding) (frame : Frame) : Frame :=
  { frame with bindings := frame.bindings.insert name binding }

/-- The frame with a new value for a variable, which keeps its declared type. -/
def store (name : String) (value : Value) (frame : Frame) : Frame :=
  let type := (frame.bindings.find? name).bind (·.type)
  bind name ⟨type, some value⟩ frame

/-- Gives the nearest visible variable of a name a new value. If there is none, the top frame gets
an undeclared one. -/
def set (stack : Stack) (name : String) (value : Value) : Stack :=
  match stack.resolve? name with
  | some i => stack.modifyFrame i (store name value)
  | none => stack.modifyTop (store name value)

/-- Binds a variable in the top frame, in place of one of the same name there. -/
def declare (stack : Stack) (name : String) (type : Option Ty) (value : Option Value) : Stack :=
  stack.modifyTop (bind name ⟨type, value⟩)

/-- Adds a function to the top frame, in place of one of the same name there. -/
def declareFunction (stack : Stack) (decl : FunctionDecl) : Stack :=
  stack.modifyTop fun frame =>
    { frame with functions := frame.functions.insert decl.name decl }

/-! ## Depth -/

@[simp] theorem depth_pushLinked (stack : Stack) (name : String) (kind : FrameKind)
    (outer : Option Nat) : (stack.pushLinked name kind outer).depth = stack.depth + 1 := by
  simp [pushLinked, depth]

@[simp] theorem depth_modifyFrame (stack : Stack) (i : Nat) (change : Frame → Frame) :
    (stack.modifyFrame i change).depth = stack.depth := by
  simp [modifyFrame, depth]

@[simp] theorem depth_modifyTop (stack : Stack) (change : Frame → Frame) :
    (stack.modifyTop change).depth = stack.depth := by
  unfold modifyTop
  split <;> simp

end Stack

end ScopedScript
