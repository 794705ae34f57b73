import ScopedScript.Number.Integer

/-!
# Half-open progressions of integers

The values from a first one up to, or with a negative step down to, an exclusive bound. A
progression also ends when its next value would not fit.
-/

namespace ScopedScript

/-- The values still to come. -/
structure Progression where
  /-- The value to come first, if it fits. -/
  first : Option Int64
  /-- The exclusive bound. -/
  stop : Int64
  step : Int64
  step_ne_zero : step ≠ 0

namespace Progression

/-- The progression `start : stop : step`, unless the step is zero. -/
def make? (start stop step : Int64) : Option Progression :=
  if h : step = 0 then none else some ⟨some start, stop, step, h⟩

/-- Whether a value lies before the bound. -/
def admits (p : Progression) (n : Int64) : Bool :=
  if 0 < p.step.toInt then n.toInt < p.stop.toInt else p.stop.toInt < n.toInt

/-- The value to come first, and the progression behind it. -/
def next? (p : Progression) : Option (Int64 × Progression) :=
  match p.first with
  | none => none
  | some n =>
    if p.admits n then
      some (n, { p with first := Integer.fit? (n.toInt + p.step.toInt) })
    else none

/-- How many values are still to come. -/
def remaining (p : Progression) : Nat :=
  match p.first with
  | none => 0
  | some n =>
    let distance := p.stop.toInt - n.toInt
    let step := p.step.toInt
    if 0 < step then ((distance + step - 1) / step).toNat
    else ((-distance + -step - 1) / -step).toNat

/-- The first values, at most `count` of them. -/
def take (p : Progression) : Nat → List Int64
  | 0 => []
  | count + 1 =>
    match p.next? with
    | none => []
    | some (n, rest) => n :: rest.take count

/-- The progression without its first values. -/
def drop (p : Progression) : Nat → Progression
  | 0 => p
  | count + 1 =>
    match p.next? with
    | none => p
    | some (_, rest) => rest.drop count

/-- All values. -/
def toList (p : Progression) : List Int64 := p.take p.remaining

/-- A progression that has ended stays ended. -/
theorem next?_eq_none_of_stopped {p : Progression} (h : p.next? = none) (count : Nat) :
    (p.drop count).next? = none := by
  cases count with
  | zero => exact h
  | succ count => simp [drop, h]

end Progression

end ScopedScript
