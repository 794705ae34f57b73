/-!
# Program output

Output is kept as bytes, since a limit on it can fall inside a character. An output with a limit
takes bytes up to the limit and then fails.
-/

namespace ScopedScript

/-- What a program has written, and how much it may write. -/
structure Output where
  bytes : ByteArray
  limit : Option Nat

namespace Output

/-- Nothing written, with a limit on the number of bytes or without. -/
def empty (limit : Option Nat) : Output := ⟨.empty, limit⟩

/-- The output with a text behind it, as far as the limit allows, and whether it took all of
the text. -/
def write (output : Output) (text : String) : Bool × Output :=
  let bytes := output.bytes ++ text.toUTF8
  match output.limit with
  | none => (true, { output with bytes })
  | some limit =>
    if bytes.size ≤ limit then (true, { output with bytes })
    else (false, { output with bytes := bytes.extract 0 limit })

/-- Bytes as text. If a character is cut off at the end, at most three bytes of it are left, and
U+FFFD stands in their place. -/
def decode (bytes : ByteArray) : String :=
  match String.fromUTF8? bytes with
  | some text => text
  | none =>
    let before? (cut : Nat) := String.fromUTF8? (bytes.extract 0 (bytes.size - cut))
    ([1, 2, 3].findSome? before?).getD "" ++ "\uFFFD"

/-- The text behind the first `start` bytes. -/
def textFrom (output : Output) (start : Nat) : String :=
  decode (output.bytes.extract start output.bytes.size)

/-- The whole text. -/
def text (output : Output) : String := output.textFrom 0

/-- Without a limit, writing appends. -/
theorem write_of_limit_none {output : Output} (h : output.limit = none) (text : String) :
    output.write text = (true, { output with bytes := output.bytes ++ text.toUTF8 }) := by
  simp [write, h]

end Output

end ScopedScript
