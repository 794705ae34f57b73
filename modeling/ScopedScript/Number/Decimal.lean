import ScopedScript.Number.Binary

/-!
# Decimal numerals and floating-point numbers

A decimal is a whole number of digits and a power of ten. Reading rounds its exact value once.
Writing takes the fewest digits that read back as the same number and, among those, the digits
nearest to it; of two equally near ones the upper.

A number is laid out *plainly*, with all its digits and always with a fractional part, or
*scientifically*, with one digit before the point and a power of ten.
-/

namespace ScopedScript

/-- The decimal `digits * 10 ^ exponent`. -/
structure Decimal where
  digits : Nat
  /-- The power of ten of the last digit. -/
  exponent : Int
  deriving DecidableEq

namespace Decimal

/-! ## Reading -/

/-- How many decimal digits a number has. -/
def digitCount (n : Nat) : Nat := (Nat.toDigits 10 n).length

/-- The number nearest to a decimal. Decimals of `10 ^ 310` and above are infinite and those below
`10 ^ (-330)` are zero, whatever their digits; the bounds only spare the powers of ten. -/
def round (negative : Bool) (d : Decimal) : Float :=
  let top := (digitCount d.digits : Int) + d.exponent
  if d.digits = 0 ∨ top < -330 then Binary.ofMagnitude negative 0
  else if 310 < top then Binary.ofMagnitude negative Binary.infinity
  else if 0 ≤ d.exponent then
    Binary.nearest negative (d.digits * Nat.pow 10 d.exponent.toNat * Binary.one) 1
  else
    Binary.nearest negative (d.digits * Binary.one) (Nat.pow 10 (-d.exponent).toNat)

/-- A number with one more digit behind it. -/
def push (n : Nat) (c : Char) : Nat := 10 * n + (c.toNat - '0'.toNat)

/-- The whole number that decimal digits stand for. -/
def natOfDigits (digits : List Char) : Nat := digits.foldl push 0

/-- The whole number that decimal digits stand for, read until it reaches `bound`; digits behind
that do not count. -/
def natUpTo (bound : Nat) (digits : List Char) : Nat :=
  digits.foldl (fun n c => if n < bound then push n c else n) 0

/-- How many digits of a numeral are kept. Every number, and every middle of two neighbouring ones,
has fewer of them, so that what is behind them matters only by not being zero. -/
def precision : Nat := 800

/-- The decimal with the given digits before and behind the point. Where there are more than
`precision`, and those behind are not all zero, a single one stands for them: it lies on the same
side of every number and of every middle of two. -/
def ofDigits (whole fraction : List Char) : Decimal :=
  let digits := (whole ++ fraction).dropWhile (· == '0')
  let rest := digits.drop precision
  let kept := natOfDigits (digits.take precision)
  let exponent := (rest.length : Int) - fraction.length
  if rest.all (· == '0') then ⟨kept, exponent⟩ else ⟨10 * kept + 1, exponent - 1⟩

/-- The decimal moved by a power of ten. -/
def shift (d : Decimal) (places : Int) : Decimal :=
  { d with exponent := d.exponent + places }

/-! ## Writing -/

/-- All digits of a finite magnitude. Its significand is doubled `scale` times and divided by
`2 ^ 1074`; each halving that is left over is a factor five and a place behind the point. -/
def ofPattern (pattern : Nat) : Decimal :=
  let scale := Binary.scale pattern
  let significand := pattern - scale * Binary.exponentUnit
  if 1074 ≤ scale then ⟨significand * Nat.pow 2 (scale - 1074), 0⟩
  else ⟨significand * Nat.pow 5 (1074 - scale), -((1074 - scale : Nat) : Int)⟩

/-- A decimal without its last `dropped` digits if what is left, or the next number above that,
reads back as the given magnitude: the nearer of the two that do, and of two equally near ones the
upper. -/
def cut? (pattern : Nat) (d : Decimal) (dropped : Nat) : Option Decimal :=
  let grid := Nat.pow 10 dropped
  let low : Decimal := ⟨d.digits / grid, d.exponent + dropped⟩
  let high : Decimal := ⟨d.digits / grid + 1, d.exponent + dropped⟩
  let number := Binary.ofMagnitude false pattern
  if low.round false = number then
    if high.round false = number ∧ grid ≤ 2 * (d.digits % grid) then some high else some low
  else if high.round false = number then some high
  else none

/-- The fewest digits that read back as a finite magnitude. Seventeen always do. -/
def shortest (pattern : Nat) : Decimal :=
  let all := ofPattern pattern
  let count := digitCount all.digits
  ((List.range 17).findSome? fun n => cut? pattern all (count - (n + 1))).getD all

/-- The decimal digits of a number. -/
def digitsOf (n : Nat) : List Char := Nat.toDigits 10 n

/-- The digits without the zeros at their end. -/
def trimZeros (digits : List Char) : List Char :=
  (digits.reverse.dropWhile (· == '0')).reverse

/-- The digits to write and the number of them that stand before the point; the latter can be
negative, or more than there are. -/
def spread (d : Decimal) : List Char × Int :=
  let digits := digitsOf d.digits
  (trimZeros digits, digits.length + d.exponent)

/-- All digits, and always at least one before and one behind the point. -/
def plain (d : Decimal) : List Char :=
  let (digits, point) := d.spread
  if point ≤ 0 then
    ['0', '.'] ++ List.replicate (-point).toNat '0' ++ (if digits = [] then ['0'] else digits)
  else
    let whole := digits.take point.toNat
    let fraction := digits.drop point.toNat
    whole ++ List.replicate (point.toNat - whole.length) '0' ++
      '.' :: (if fraction = [] then ['0'] else fraction)

/-- One digit before the point, the others behind it, and a power of ten. -/
def scientific (d : Decimal) : List Char :=
  let (digits, point) := d.spread
  let exponent := point - 1
  let tail := match digits with
    | first :: second :: rest => first :: '.' :: second :: rest
    | digits => digits
  let sign := if exponent < 0 then ['-'] else []
  tail ++ 'e' :: sign ++ digitsOf exponent.natAbs

/-- The layout of printed numbers: plain from `10 ^ (-4)` up to below `10 ^ 16`, and for zero. -/
def general (d : Decimal) : List Char :=
  let (digits, point) := d.spread
  if digits = [] ∨ (-4 < point ∧ point ≤ 16) then d.plain else d.scientific

end Decimal

/-- A number in a layout for its digits; what is not finite has a name. -/
def Decimal.text (layout : Decimal → List Char) (x : Float) : List Char :=
  if Binary.isNaN x then ['N', 'a', 'N']
  else
    let sign := if Binary.isNegative x then ['-'] else []
    if Binary.isFinite x then
      let pattern := Binary.magnitude x
      sign ++ layout (if pattern = 0 then ⟨0, 0⟩ else Decimal.shortest pattern)
    else sign ++ ['i', 'n', 'f']

/-- A number as a script prints it. -/
def Decimal.valueText (x : Float) : String :=
  String.ofList (Decimal.text Decimal.general x)

/-- A number as a script's source holds it: plain, however long. -/
def Decimal.literalText (x : Float) : String :=
  let text := Decimal.text Decimal.plain x
  String.ofList (if text.contains '.' then text else text ++ ['.', '0'])

/-! ## Numerals with sign and exponent -/

/-- Takes a sign off the front. -/
def Decimal.splitSign : List Char → Bool × List Char
  | '-' :: rest => (true, rest)
  | '+' :: rest => (false, rest)
  | rest => (false, rest)

/-- Where the reading of a power of ten stops. -/
def Decimal.exponentBound : Nat := Nat.pow 2 16

/-- A power of ten: a sign and at least one digit, or nothing at all without its mark. -/
def Decimal.parseExponent? : List Char → Option Int
  | [] => some 0
  | mark :: rest =>
    if mark = 'e' ∨ mark = 'E' then
      let (negative, digits) := splitSign rest
      if digits ≠ [] ∧ digits.all Char.isDigit then
        let n : Int := natUpTo exponentBound digits
        some (if negative then -n else n)
      else none
    else none

/-- An unsigned numeral: digits with at most one point among or around them, then a power of
ten. -/
def Decimal.parse? (text : List Char) : Option Decimal :=
  let whole := text.takeWhile Char.isDigit
  let (fraction, rest) := match text.dropWhile Char.isDigit with
    | '.' :: rest => (rest.takeWhile Char.isDigit, rest.dropWhile Char.isDigit)
    | rest => ([], rest)
  if whole = [] ∧ fraction = [] then none
  else (parseExponent? rest).map (ofDigits whole fraction).shift

/-- A numeral, or the name of an infinity or of NaN in any mixture of cases. -/
def Decimal.parseFloat? (text : List Char) : Option Float :=
  let (negative, rest) := splitSign text
  let name := rest.map Char.toLower
  if name = ['n', 'a', 'n'] then some Binary.nan
  else if name = ['i', 'n', 'f'] ∨ name = ['i', 'n', 'f', 'i', 'n', 'i', 't', 'y'] then
    some (Binary.ofMagnitude negative Binary.infinity)
  else (parse? rest).map (round negative)

/-! ## Digits that do not count -/

namespace Decimal

theorem le_foldl_push (digits : List Char) (n : Nat) : n ≤ digits.foldl push n := by
  induction digits generalizing n with
  | nil => exact Nat.le_refl n
  | cons c rest ih => exact Nat.le_trans (by simp only [push]; omega) (ih (push n c))

/-- Reading stops at the first number that is not below the bound. -/
theorem foldl_upTo_of_le {bound n : Nat} (h : bound ≤ n) (digits : List Char) :
    digits.foldl (fun n c => if n < bound then push n c else n) n = n := by
  induction digits with
  | nil => rfl
  | cons c rest ih => simpa [Nat.not_lt.mpr h] using ih

/-- A number below the bound is read to its end. -/
theorem natUpTo_of_lt {bound : Nat} {digits : List Char} (h : natOfDigits digits < bound) :
    natUpTo bound digits = natOfDigits digits := by
  suffices ∀ n, digits.foldl push n < bound →
      digits.foldl (fun n c => if n < bound then push n c else n) n = digits.foldl push n from
    this 0 h
  clear h
  induction digits with
  | nil => exact fun _ _ => rfl
  | cons c rest ih =>
    intro n h
    have below : n < bound := Nat.lt_of_le_of_lt (le_foldl_push (c :: rest) n) h
    simpa [below] using ih (push n c) h

/-- A number that is not below the bound is not below it as far as it is read. -/
theorem le_natUpTo {bound : Nat} {digits : List Char} (h : bound ≤ natOfDigits digits) :
    bound ≤ natUpTo bound digits := by
  suffices ∀ n, bound ≤ digits.foldl push n →
      bound ≤ digits.foldl (fun n c => if n < bound then push n c else n) n from this 0 h
  clear h
  induction digits with
  | nil => exact fun _ h => h
  | cons c rest ih =>
    intro n h
    by_cases below : n < bound
    · simpa [below] using ih (push n c) h
    · rw [foldl_upTo_of_le (Nat.not_lt.mp below)]
      exact Nat.not_lt.mp below

/-- Zeros in front add nothing. -/
theorem natOfDigits_dropWhile_zero (digits : List Char) :
    natOfDigits (digits.dropWhile (· == '0')) = natOfDigits digits := by
  induction digits with
  | nil => rfl
  | cons c rest ih =>
    rw [List.dropWhile_cons]
    split
    next h =>
      have : c = '0' := by simpa using h
      rw [ih, this]
      rfl
    next => rfl

/-- As long as no more digits than `precision` are given, every one of them is kept. -/
theorem ofDigits_of_length_le {whole fraction : List Char}
    (h : (whole ++ fraction).length ≤ precision) :
    ofDigits whole fraction = ⟨natOfDigits (whole ++ fraction), -(fraction.length : Int)⟩ := by
  have short : ((whole ++ fraction).dropWhile (· == '0')).length ≤ precision :=
    Nat.le_trans (List.dropWhile_sublist _).length_le h
  simp [ofDigits, List.take_of_length_le short, List.drop_of_length_le short,
    natOfDigits_dropWhile_zero]

end Decimal

end ScopedScript
