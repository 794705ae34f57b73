import ScopedScript.Operator
import ScopedScript.Position
import ScopedScript.Value

/-!
# Faults of a running program

The causes for which a running program stops, and their wording.
-/

namespace ScopedScript

/-- A value of a type that an operation has no use for. -/
inductive TypeFault where
  /-- Something in the given role is of the wrong type. -/
  | expected (role : String) (wanted found : Ty)
  | binary (op : BinaryOp) (left right : Ty)
  | unary (op : UnaryOp) (operand : Ty)
  | index (base : Ty)
  | iterate (iterable : Ty)
  | bareRange
  deriving DecidableEq

/-- A type fault in words. -/
def TypeFault.wording : TypeFault → String
  | expected role wanted found => role ++ " must be " ++ wanted.name ++ ", found " ++ found.name
  | binary op left right =>
    "cannot apply '" ++ op.spelling ++ "' to " ++ left.name ++ " and " ++ right.name
  | unary op operand => "cannot apply unary '" ++ op.spelling ++ "' to " ++ operand.name
  | index base => "cannot index into " ++ base.name
  | iterate iterable => "cannot iterate over " ++ iterable.name
  | bareRange => "a range can only be iterated by a for loop"

/-- A range that cannot be visited. -/
inductive RangeFault where
  | zeroStep
  | noVariable
  deriving DecidableEq

/-- A range fault in words. -/
def RangeFault.wording : RangeFault → String
  | zeroStep => "step must not be zero"
  | noVariable => "a for loop needs a loop variable"

/-- An argument that a built-in function rejects. -/
inductive ArgumentFault where
  | rejected (function : String) (value : Value)
  /-- An infinite number, or none at all, has no integer part. -/
  | notFinite (x : Float)
  deriving DecidableEq

/-- An argument fault in words. -/
def ArgumentFault.wording : ArgumentFault → String
  | rejected function value =>
    function ++ "() cannot take " ++ value.type.name ++ " " ++ value.shown
  | notFinite x => "cannot convert " ++ Decimal.valueText x ++ " to int"

/-- A cause for which a running program stops. -/
inductive RuntimeFault where
  | unboundVariable (name : String)
  | unknownFunction (name : String)
  | typeError (fault : TypeFault)
  | typeMismatch (name : String) (expected found : Ty)
  | argumentCount (name : String) (expected : Arity) (found : Nat)
  | missingValue
  | missingReturnValue (name : String)
  | overflow
  | divisionByZero
  | indexOutOfBounds (length : Nat) (index : Int64)
  | invalidRange (fault : RangeFault)
  | invalidArgument (fault : ArgumentFault)
  | assertionFailed
  | recursionLimit (limit : Nat)
  | outputFull
  deriving DecidableEq

/-- A cause in words. -/
def RuntimeFault.wording : RuntimeFault → String
  | unboundVariable name => "Variable '" ++ name ++ "' is not bound to a value"
  | unknownFunction name => "Unknown function '" ++ name ++ "'"
  | typeError fault => "Type error: " ++ fault.wording
  | typeMismatch name expected found =>
    "Cannot store a " ++ found.name ++ " value in '" ++ name ++ "' of type " ++ expected.name
  | argumentCount name expected found => expected.mismatch name found
  | missingValue => "Value missing"
  | missingReturnValue name => "Function '" ++ name ++ "' ended without returning a value"
  | overflow => "Integer overflow while trying to compute result"
  | divisionByZero => "Division by zero"
  | indexOutOfBounds length index =>
    s!"Index out of bounds. Length is {length}, but found " ++ Integer.text index ++ " instead"
  | invalidRange fault => "Invalid range: " ++ fault.wording
  | invalidArgument fault => "Invalid argument: " ++ fault.wording
  | assertionFailed => "Assertion failed"
  | recursionLimit limit => s!"Maximum call depth of {limit} exceeded"
  | outputFull => "Failed to write output: output limit reached"

end ScopedScript
