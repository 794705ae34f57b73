/-!
# Characters and slices of a text

Positions count characters from zero, and negative ones count back from the end.
-/

namespace ScopedScript.Text

/-- A position counted from the start, whatever end it was given from. -/
def fromStart (length : Nat) (position : Int64) : Int :=
  if position.toInt < 0 then position.toInt + length else position.toInt

/-- The character at a position. -/
def charAt? (text : String) (position : Int64) : Option Char :=
  let index := fromStart text.length position
  if 0 ≤ index then ((text.drop index.toNat).take 1).copy.toList.head? else none

/-- A position moved to the nearest one that the text has, its end included. -/
def clamp (length : Nat) (position : Int64) : Nat :=
  min length (fromStart length position).toNat

/-- The characters from one position up to the other, which is left out. -/
def slice (text : String) (start stop : Int64) : String :=
  let first := clamp text.length start
  let last := clamp text.length stop
  ((text.drop first).take (last - first)).copy

theorem clamp_le (length : Nat) (position : Int64) : clamp length position ≤ length :=
  Nat.min_le_left _ _

/-- A character is looked up among the characters of the text. -/
theorem charAt?_eq (text : String) (position : Int64) :
    charAt? text position =
      if 0 ≤ fromStart text.length position then
        text.toList[(fromStart text.length position).toNat]?
      else none := by
  simp [charAt?, List.head?_take, List.head?_drop]

/-- A slice has the characters of the text from the one position up to the other. -/
theorem toList_slice (text : String) (start stop : Int64) :
    (slice text start stop).toList =
      (text.toList.drop (clamp text.length start)).take
        (clamp text.length stop - clamp text.length start) := by
  simp [slice]

theorem length_slice (text : String) (start stop : Int64) :
    (slice text start stop).length = clamp text.length stop - clamp text.length start := by
  have := clamp_le text.length start
  have := clamp_le text.length stop
  rw [← String.length_toList, toList_slice]
  simp only [List.length_take, List.length_drop, String.length_toList]
  omega

end ScopedScript.Text
