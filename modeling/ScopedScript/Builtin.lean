import ScopedScript.Operator
import ScopedScript.Value

/-!
# Built-in functions

The functions every program can call, with the numbers of arguments they take and the types of
their results. The checker and the running program both read them off here.
-/

namespace ScopedScript

/-- A function every program can call. -/
inductive Builtin where
  | print
  | assert
  | len
  | str
  | int
  | float
  deriving DecidableEq

namespace Builtin

/-- All built-in functions, in the order in which they are listed. -/
def all : List Builtin := [print, assert, len, str, int, float]

/-- The name a program calls the function by. -/
def name : Builtin → String
  | print => "print"
  | assert => "assert"
  | len => "len"
  | str => "str"
  | int => "int"
  | float => "float"

/-- How many arguments a call passes. -/
def arity : Builtin → Arity
  | print => .any
  | _ => .exactly 1

/-- The type of what a call yields, if it yields anything. -/
def result : Builtin → Option Ty
  | print | assert => none
  | len | int => some .int
  | str => some .str
  | float => some .float

/-- The function of a name. -/
def ofName? (name : String) : Option Builtin :=
  all.find? (·.name = name)

end Builtin

end ScopedScript
