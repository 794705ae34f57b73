import ScopedScript.Run.Fault

/-!
# What operators do to values

Arithmetic on integers is exact or fails; an integer beside a floating-point number widens, and
`/` always yields a floating-point number. Comparison is by exact value, also between an integer
and a floating-point number. Logic takes truth values only.

None of the functions here knows where its operands came from: a fault gets its position from the
caller.
-/

namespace ScopedScript

/-- What an operation yields: a value, or the cause of its failure. -/
abbrev Outcome := Except RuntimeFault

/-- An integer that was found to fit, as a value. -/
def Outcome.ofFit : Option Int64 → Outcome Value
  | some n => .ok (.int n)
  | none => .error .overflow

/-- An integer as a value, if it fits. -/
def Outcome.ofInt (n : Int) : Outcome Value := .ofFit (Integer.fit? n)

/-! ## Values of a wanted type -/

namespace Value

/-- A truth value. The role says what it is wanted for. -/
def asBool (role : String) : Value → Outcome Bool
  | bool b => .ok b
  | v => .error (.typeError (.expected role .bool v.type))

/-- An integer. The role says what it is wanted for. -/
def asInteger (role : String) : Value → Outcome Int64
  | int n => .ok n
  | v => .error (.typeError (.expected role .int v.type))

/-! ## Order and equality -/

/-- How two values lie to each other. -/
inductive Comparison where
  | ordered (order : Ordering)
  /-- They are numbers, and one is NaN. -/
  | unordered
  /-- Their types have no order between them. -/
  | incomparable
  deriving DecidableEq

/-- The comparison of two numbers. -/
def Comparison.ofOrder? : Option Ordering → Comparison
  | some order => .ordered order
  | none => .unordered

/-- Numbers compare by exact value, and texts by the code points of their characters. -/
def compare : Value → Value → Comparison
  | int a, int b => .ordered (Ord.compare a.toInt b.toInt)
  | str a, str b => .ordered (Ord.compare a b)
  | float a, float b => .ofOrder? (Binary.compare a b)
  | int a, float b => .ofOrder? (Binary.compareInt a.toInt b)
  | float a, int b => .ofOrder? ((Binary.compareInt b.toInt a).map Ordering.swap)
  | _, _ => .incomparable

/-- Whether two values are equal: numbers by exact value, other values if they are the same. -/
def equal : Value → Value → Bool
  | bool a, bool b => a = b
  | str a, str b => a = b
  | left, right => left.compare right = .ordered .eq

end Value

/-! ## Operators between two operands -/

namespace BinaryOp

/-- The fault of an operator that does not join the operands. -/
def unsupported {α : Type} (op : BinaryOp) (left right : Value) : Outcome α :=
  .error (.typeError (.binary op left.type right.type))

/-- Whether the operator divides. -/
def divides : BinaryOp → Bool
  | div | floorDiv | mod => true
  | _ => false

/-- Arithmetic on integers. -/
def onIntegers (op : BinaryOp) (a b : Int64) : Outcome Value :=
  match op with
  | add => .ofInt (a.toInt + b.toInt)
  | sub => .ofInt (a.toInt - b.toInt)
  | mul => .ofInt (a.toInt * b.toInt)
  | floorDiv => if b = 0 then .error .divisionByZero else .ofFit (Integer.floorDiv? a b)
  | mod => if b = 0 then .error .divisionByZero else .ofFit (Integer.floorMod? a b)
  | _ => unsupported op (.int a) (.int b)

/-- Arithmetic on floating-point numbers; operators outside arithmetic yield none. -/
def onFloats? (op : BinaryOp) (a b : Float) : Option Float :=
  match op with
  | add => some (a + b)
  | sub => some (a - b)
  | mul => some (a * b)
  | div => some (a / b)
  | floorDiv => some (Binary.floorDiv a b)
  | mod => some (Binary.floorMod a b)
  | _ => none

/-- Arithmetic on two values as floating-point numbers. -/
def onNumbers (op : BinaryOp) (left right : Value) : Outcome Value :=
  match left.number?, right.number? with
  | some a, some b =>
    if op.divides ∧ b == 0 then .error .divisionByZero
    else match op.onFloats? a b with
      | some x => .ok (.float x)
      | none => op.unsupported left right
  | _, _ => op.unsupported left right

/-- Arithmetic. Two texts are joined by `+`. -/
def arithmetic (op : BinaryOp) (left right : Value) : Outcome Value :=
  match left, right with
  | .str a, .str b => if op = add then .ok (.str (a ++ b)) else op.unsupported left right
  | .int a, .int b => if op = div then op.onNumbers left right else op.onIntegers a b
  | left, right => op.onNumbers left right

/-- Whether an order of two operands is the one an operator asks for. -/
def holds? (op : BinaryOp) (order : Ordering) : Option Bool :=
  match op with
  | less => some (order = .lt)
  | greater => some (order = .gt)
  | lessEqual => some (order ≠ .gt)
  | greaterEqual => some (order ≠ .lt)
  | _ => none

/-- Comparison. NaN is in no order with any number. -/
def comparison (op : BinaryOp) (left right : Value) : Outcome Value :=
  match op with
  | equal => .ok (.bool (left.equal right))
  | notEqual => .ok (.bool !(left.equal right))
  | op =>
    match left.compare right with
    | .incomparable => op.unsupported left right
    | .unordered => .ok (.bool false)
    | .ordered order =>
      match op.holds? order with
      | some b => .ok (.bool b)
      | none => op.unsupported left right

/-- Logic on two truth values. -/
def logic (op : BinaryOp) (left right : Value) : Outcome Value := do
  let role := "operand of '" ++ op.spelling ++ "'"
  let a ← left.asBool role
  let b ← right.asBool role
  match op with
  | and => return .bool (a && b)
  | or => return .bool (a || b)
  | op => op.unsupported left right

/-- What an operator yields for two operands. -/
def apply (op : BinaryOp) (left right : Value) : Outcome Value :=
  match op with
  | add | sub | mul | div | floorDiv | mod => op.arithmetic left right
  | less | greater | lessEqual | greaterEqual | equal | notEqual => op.comparison left right
  | and | or => op.logic left right

/-- The left operand that decides the result alone. -/
def decisive? : BinaryOp → Option Bool
  | and => some false
  | or => some true
  | _ => none

end BinaryOp

/-! ## Operators before an operand -/

/-- What a prefix operator yields for an operand. -/
def UnaryOp.apply (op : UnaryOp) (operand : Value) : Outcome Value :=
  match op, operand with
  | .plus, .int n => .ok (.int n)
  | .plus, .float x => .ok (.float x)
  | .negate, .int n => .ofInt (-n.toInt)
  | .negate, .float x => .ok (.float (-x))
  | .not, v => (v.asBool "operand of 'not'").map fun b => .bool !b
  | op, v => .error (.typeError (.unary op v.type))

end ScopedScript
