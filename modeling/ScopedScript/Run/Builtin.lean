import ScopedScript.Builtin
import ScopedScript.Run.Machine
import ScopedScript.Text.Class

/-!
# What built-in functions do

Only `print` has an effect; the others compute. A text is read as a number after white space
around it is dropped.
-/

namespace ScopedScript

/-! ## Conversions -/

/-- The integer part of a floating-point number, if it fits. -/
def integerPart (x : Float) : Outcome Int64 :=
  match Binary.truncate x with
  | none => .error (.invalidArgument (.notFinite x))
  | some n =>
    match Integer.fit? n with
    | some n => .ok n
    | none => .error .overflow

/-- The fault of a built-in function that has no use for a value. -/
def Builtin.reject {α : Type} (b : Builtin) (value : Value) : Outcome α :=
  .error (.invalidArgument (.rejected b.name value))

/-- A value as an integer: numbers lose their fraction, truth values count as zero and one, and
texts are read. -/
def Value.toInteger (v : Value) : Outcome Int64 :=
  match v with
  | .int n => .ok n
  | .float x => integerPart x
  | .bool b => .ok (if b then 1 else 0)
  | .str s =>
    match Integer.parse? (Text.trim s.toList) with
    | some n => .ok n
    | none => Builtin.int.reject v

/-- A value as a floating-point number: integers widen, truth values count as zero and one, and
texts are read. -/
def Value.toFloat (v : Value) : Outcome Float :=
  match v with
  | .int n => .ok (Binary.ofInt n.toInt)
  | .float x => .ok x
  | .bool b => .ok (if b then 1 else 0)
  | .str s =>
    match Decimal.parseFloat? (Text.trim s.toList) with
    | some x => .ok x
    | none => Builtin.float.reject v

/-! ## Calls -/

namespace Builtin

/-- What `print` writes: its arguments with blanks between them, on a line of their own. -/
def line (arguments : List Value) : String :=
  " ".intercalate (arguments.map (·.text)) ++ "\n"

/-- An assertion, which stops the program unless it holds. -/
def assertion (argument : Value) : Outcome Unit := do
  unless ← argument.asBool "assert argument" do throw .assertionFailed

/-- The length of a text. -/
def length : Value → Outcome Value
  | .str s => .ofInt s.length
  | v => len.reject v

/-- A call at a position. -/
def call (b : Builtin) (arguments : List Value) (position : Position) : Exec (Option Value) :=
  match b, arguments with
  | print, arguments => do
    Exec.write (line arguments) position
    return none
  | assert, [v] => do
    Exec.located position (assertion v)
    return none
  | len, [v] => return some (← Exec.located position (length v))
  | str, [v] => return some (.str v.text)
  | int, [v] => return some (.int (← Exec.located position v.toInteger))
  | float, [v] => return some (.float (← Exec.located position v.toFloat))
  | b, arguments => Exec.fail (.argumentCount b.name b.arity arguments.length) position

end Builtin

end ScopedScript
