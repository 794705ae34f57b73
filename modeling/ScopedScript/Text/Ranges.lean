/-!
# Sets of code points given by ranges

A character class beyond ASCII is a list of inclusive ranges of code points.
-/

namespace ScopedScript.Text

/-- Inclusive ranges of code points. -/
abbrev Ranges := List (Nat × Nat)

/-- Whether the code point of `c` lies in one of the ranges. -/
def Ranges.covers (ranges : Ranges) (c : Char) : Bool :=
  ranges.any fun (first, last) => first ≤ c.toNat && c.toNat ≤ last

@[simp] theorem Ranges.covers_nil (c : Char) : Ranges.covers [] c = false := rfl

@[simp] theorem Ranges.covers_cons (range : Nat × Nat) (ranges : Ranges) (c : Char) :
    Ranges.covers (range :: ranges) c =
      ((range.1 ≤ c.toNat && c.toNat ≤ range.2) || ranges.covers c) := rfl

end ScopedScript.Text
