/-!
# Operators

The operators of expressions and of assignments, with their spelling in the source and the
strength with which they bind.
-/

namespace ScopedScript

/-- An operator between two operands. -/
inductive BinaryOp where
  | add
  | sub
  | mul
  | div
  | floorDiv
  | mod
  | less
  | greater
  | lessEqual
  | greaterEqual
  | equal
  | notEqual
  | and
  | or
  deriving DecidableEq

namespace BinaryOp

/-- The spelling in the source. -/
def spelling : BinaryOp → String
  | add => "+"
  | sub => "-"
  | mul => "*"
  | div => "/"
  | floorDiv => "//"
  | mod => "%"
  | less => "<"
  | greater => ">"
  | lessEqual => "<="
  | greaterEqual => ">="
  | equal => "=="
  | notEqual => "!="
  | and => "and"
  | or => "or"

/-- Binding strength: a higher one binds tighter. -/
def precedence : BinaryOp → Nat
  | or => 1
  | and => 2
  | equal | notEqual => 3
  | less | greater | lessEqual | greaterEqual => 4
  | add | sub => 5
  | mul | div | floorDiv | mod => 6

/-- Whether the operator computes a number, or joins texts. -/
def isArithmetic : BinaryOp → Bool
  | add | sub | mul | div | floorDiv | mod => true
  | _ => false

/-- Whether the operator orders its operands. -/
def isRelational : BinaryOp → Bool
  | less | greater | lessEqual | greaterEqual => true
  | _ => false

theorem precedence_pos (op : BinaryOp) : 0 < op.precedence := by
  cases op <;> decide

theorem precedence_le_six (op : BinaryOp) : op.precedence ≤ 6 := by
  cases op <;> decide

end BinaryOp

/-- Binding strength of an expression with a prefix operator. -/
def unaryStrength : Nat := 7

/-- Binding strength of an expression that nothing can split. -/
def atomStrength : Nat := 8

/-- An operator before its operand. -/
inductive UnaryOp where
  | plus
  | negate
  | not
  deriving DecidableEq

/-- The spelling in the source. -/
def UnaryOp.spelling : UnaryOp → String
  | .plus => "+"
  | .negate => "-"
  | .not => "not"

/-- The spelling with what separates it from its operand. -/
def UnaryOp.lead : UnaryOp → String
  | .not => "not "
  | op => op.spelling

/-- How an assignment makes the new value. -/
inductive AssignOp where
  | plain
  | compound (op : BinaryOp)
  deriving DecidableEq

/-- The spelling in the source. -/
def AssignOp.spelling : AssignOp → String
  | .plain => "="
  | .compound op => op.spelling ++ "="

/-- How many arguments a function takes: at least `required`, and at most `total` if there is such
a bound. -/
structure Arity where
  required : Nat
  /-- The greatest number of arguments; none if there is no bound. -/
  total : Option Nat
  deriving DecidableEq

namespace Arity

/-- Exactly so many arguments. -/
def exactly (n : Nat) : Arity := ⟨n, some n⟩

/-- Any number of arguments. -/
def any : Arity := ⟨0, none⟩

/-- Whether a number of arguments is accepted. -/
def accepts (arity : Arity) (count : Nat) : Bool :=
  arity.required ≤ count && match arity.total with
    | none => true
    | some total => count ≤ total

/-- The accepted numbers in words. -/
def text (arity : Arity) : String :=
  match arity.total with
  | none => if arity.required = 0 then "any number of" else s!"at least {arity.required}"
  | some total =>
    if total = arity.required then s!"{total}" else s!"{arity.required} to {total}"

/-- The words for a call of a function with a number of arguments that it does not accept. -/
def mismatch (arity : Arity) (name : String) (found : Nat) : String :=
  "Function '" ++ name ++ "' expects " ++ arity.text ++ s!" argument(s), but {found} were given"

end Arity

end ScopedScript
