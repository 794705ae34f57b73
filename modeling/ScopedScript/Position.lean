/-!
# Positions and diagnostics

A position is a line and a column, both counted from one, and a diagnostic is a cause of failure
together with the position it is reported at. Every stage has its own type of causes; the wording
around them is the same.
-/

namespace ScopedScript

/-- A place in a source text: line and column, counted in characters from one. -/
structure Position where
  line : Nat
  column : Nat
  deriving DecidableEq, Inhabited

namespace Position

/-- The place of the first character. -/
def start : Position := ⟨1, 1⟩

/-- The place reported when tokens run out and none is left to point at. -/
def nowhere : Position := ⟨0, 0⟩

/-- The place behind a character: a line feed starts a new line. -/
def advance (position : Position) (c : Char) : Position :=
  if c = '\n' then ⟨position.line + 1, 1⟩ else ⟨position.line, position.column + 1⟩

/-- The place behind a text. -/
def advanceBy (position : Position) (text : List Char) : Position :=
  text.foldl advance position

@[simp] theorem advanceBy_nil (position : Position) : position.advanceBy [] = position := rfl

@[simp] theorem advanceBy_cons (position : Position) (c : Char) (text : List Char) :
    position.advanceBy (c :: text) = (position.advance c).advanceBy text := rfl

theorem advanceBy_append (position : Position) (text rest : List Char) :
    position.advanceBy (text ++ rest) = (position.advanceBy text).advanceBy rest := by
  simp [advanceBy]

end Position

/-- A cause of failure and the position it is reported at. -/
structure Diagnostic (Cause : Type) where
  cause : Cause
  position : Position
  deriving DecidableEq

/-- The line that reports a failure, given the wording of its cause. -/
def Diagnostic.report {Cause : Type} (wording : Cause → String) (d : Diagnostic Cause) : String :=
  s!"Error on line {d.position.line}, column {d.position.column}: " ++ wording d.cause ++ "."

end ScopedScript
