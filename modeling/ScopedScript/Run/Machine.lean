import ScopedScript.Event
import ScopedScript.Run.Operation
import ScopedScript.Run.Output

/-!
# The state of a running program

A machine holds the stack, the output and what limits there are. Programs run as state
transformers that can halt: with a fault, or because they were given too few steps.

Frames are entered by brackets: whatever comes of what runs inside, the frame is left behind it.
-/

namespace ScopedScript

/-- The state of a running program. -/
structure Machine where
  stack : Stack
  output : Output
  callDepth : Nat
  maxCallDepth : Nat
  /-- The variables of the last program that came to its end. -/
  globals : Table Binding
  /-- What happened so far, the latest first. -/
  events : List Event

/-- How many calls can be under way at once if nothing else is asked for. -/
def defaultMaxCallDepth : Nat := 100

namespace Machine

/-- The state before anything runs. -/
def initial (maxCallDepth : Nat) (outputLimit : Option Nat) : Machine :=
  ⟨.empty, .empty outputLimit, 0, maxCallDepth, .empty, []⟩

/-- The value of a variable of the last program that came to its end. -/
def global? (m : Machine) (name : String) : Option Value :=
  (m.globals.find? name).bind (·.value)

/-- Records what happened. -/
def log (m : Machine) (event : Event) : Machine :=
  { m with events := event :: m.events }

/-! ## Frames -/

/-- Records the entry of the top frame. -/
def logPush (m : Machine) : Machine :=
  match m.stack.top? with
  | some frame => m.log (.framePushed frame.name frame.kind frame.level m.stack.depth)
  | none => m

/-- Enters a frame inside the top one. -/
def pushFrame (name : String) (kind : FrameKind) (m : Machine) : Machine :=
  logPush { m with stack := m.stack.push name kind }

/-- Leaves the top frame. -/
def popFrame (m : Machine) : Machine :=
  match m.stack.top? with
  | some frame =>
    let m := { m with stack := m.stack.pop }
    m.log (.framePopped frame.name frame.kind frame.level m.stack.depth)
  | none => m

/-- Enters the frame of a call of a function that was declared in the frame at `outer`. -/
def pushCall (name : String) (outer : Nat) (m : Machine) : Machine :=
  let m := { m with callDepth := m.callDepth + 1 }
  let m := logPush { m with stack := m.stack.pushFunction name outer }
  m.log (.called name m.callDepth)

/-- Leaves the frame of a call. -/
def popCall (m : Machine) : Machine :=
  let m := m.popFrame
  { m with callDepth := m.callDepth - 1 }

/-- Ends a program: its frame is left, and its variables are kept. -/
def finish (ok : Bool) (m : Machine) : Machine :=
  let globals := match m.stack.top? with
    | some frame => frame.bindings
    | none => m.globals
  let m := m.popFrame
  { m with globals }.log (.programFinished ok)

end Machine

/-! ## Runs -/

/-- Why a run ends early. -/
inductive Halt where
  | fault (diagnostic : Diagnostic RuntimeFault)
  | outOfFuel
  deriving DecidableEq

/-- Runs: they go on from state to state, or halt in the state they reached. -/
abbrev Exec := EStateM Halt Machine

namespace Exec

/-- A fault at a position. -/
def fail {α : Type} (fault : RuntimeFault) (position : Position) : Exec α :=
  throw (.fault ⟨fault, position⟩)

/-- The end of a run that was given too few steps. -/
def exhausted {α : Type} : Exec α := throw .outOfFuel

/-- What an operation yields; a fault gets a position. -/
def located {α : Type} (position : Position) : Outcome α → Exec α
  | .ok a => pure a
  | .error fault => fail fault position

/-- A run between two changes of state. Whatever comes of it, the second one is made. -/
def bracket {α : Type} (enter leave : Machine → Machine) (body : Exec α) : Exec α := fun m =>
  match body (enter m) with
  | .ok a after => .ok a (leave after)
  | .error halt after => .error halt (leave after)

/-- A run in a frame inside the top one. -/
def inFrame {α : Type} (name : String) (kind : FrameKind) (body : Exec α) : Exec α :=
  bracket (Machine.pushFrame name kind) Machine.popFrame body

/-- A run in the frame of a call. -/
def inCall {α : Type} (name : String) (outer : Nat) (body : Exec α) : Exec α :=
  bracket (Machine.pushCall name outer) Machine.popCall body

/-! ## Variables -/

/-- The value of the nearest visible variable of a name. -/
def load (name : String) (position : Position) : Exec Value := do
  match ((← get).stack.get? name).bind (·.value) with
  | some v => return v
  | none => fail (.unboundVariable name) position

/-- A value made to fit the declared type of what it is stored in. -/
def coerce (name : String) (type : Ty) (value : Value) (position : Position) : Exec Value :=
  match value.coerce? type with
  | some v => return v
  | none => fail (.typeMismatch name type value.type) position

/-- Gives the nearest visible variable of a name a value that fits its declared type. -/
def store (name : String) (value : Value) (position : Position) : Exec Unit := do
  let value ← match ((← get).stack.get? name).bind (·.type) with
    | some type => coerce name type value position
    | none => pure value
  modify fun m => { m with stack := m.stack.set name value }

/-- Binds a variable in the top frame. -/
def declare (name : String) (type : Ty) (value : Option Value) : Exec Unit :=
  modify fun m => { m with stack := m.stack.declare name (some type) value }

/-- Adds a function to the top frame. -/
def declareFunction (decl : FunctionDecl) : Exec Unit :=
  modify fun m => { m with stack := m.stack.declareFunction decl }

/-- Writes a text, as far as the output takes it. -/
def write (text : String) (position : Position) : Exec Unit := do
  let m ← get
  let (complete, output) := m.output.write text
  set { m with output }
  unless complete do fail .outputFull position

end Exec

end ScopedScript
