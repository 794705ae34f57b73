import ScopedScript.Number.Integer
import ScopedScript.Text.Quoted

/-!
# Values and their types

A script computes with integers of sixty-four bits, floating-point numbers, booleans and texts.
Literals in the source stand for the same values.
-/

namespace ScopedScript

/-- The types a variable can be declared with. -/
inductive Ty where
  | int
  | float
  | bool
  | str
  deriving DecidableEq

/-- The name of a type in the source. -/
def Ty.name : Ty → String
  | .int => "int"
  | .float => "float"
  | .bool => "bool"
  | .str => "str"

/-- What an expression stands for. -/
inductive Value where
  | int (n : Int64)
  | float (x : Float)
  | bool (b : Bool)
  | str (s : String)
  deriving DecidableEq

/-- The spelling of a truth value. -/
def boolText (b : Bool) : String := if b then "true" else "false"

namespace Value

/-- The type a value belongs to. -/
def type : Value → Ty
  | int _ => .int
  | float _ => .float
  | bool _ => .bool
  | str _ => .str

/-- A value as a script prints it. -/
def text : Value → String
  | int n => Integer.text n
  | float x => Decimal.valueText x
  | bool b => boolText b
  | str s => s

/-- A value as the source holds it. -/
def literal : Value → String
  | int n => Integer.text n
  | float x => Decimal.literalText x
  | bool b => boolText b
  | str s => Text.literal s

/-- A value as a diagnostic shows it: a text stands in quotes. -/
def shown : Value → String
  | str s => Text.shown s
  | v => v.text

/-- A number as a floating-point number; the other values are none. -/
def number? : Value → Option Float
  | int n => some (Binary.ofInt n.toInt)
  | float x => some x
  | bool _ | str _ => none

/-- The value as a value of a declared type: an integer widens to a floating-point number, and
nothing else changes its type. -/
def coerce? : Value → Ty → Option Value
  | int n, .float => some (float (Binary.ofInt n.toInt))
  | v, t => if v.type = t then some v else none

/-- What coercion yields is of the declared type. -/
theorem type_of_coerce? {v w : Value} {t : Ty} (h : v.coerce? t = some w) : w.type = t := by
  unfold coerce? at h
  split at h
  · simp only [Option.some.injEq] at h
    subst h
    rfl
  · split at h
    · next htype =>
      simp only [Option.some.injEq] at h
      subst h
      exact htype
    · contradiction

end Value

end ScopedScript
