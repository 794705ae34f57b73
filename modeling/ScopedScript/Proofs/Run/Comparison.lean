import Mathlib.Data.List.Lex
import ScopedScript.Proofs.Number.Exact
import ScopedScript.Run.Operation

/-!
# Comparison is a linear order

Numbers of either type have places among the rational numbers with an infinity on either side, and
texts have places among the lists of code points, where the first difference decides. In both cases
two values compare as their places do. So the laws of a linear order hold of the values, also
between integers and floating-point numbers, however large they are.

NaN has no place. Beside it no number is less, equal or greater.
-/

namespace ScopedScript

/-! ## Places -/

namespace Value

/-- The exact value of a number; NaN has none, and neither have values of other types. -/
def exactValue : Value → Option (WithBot (WithTop ℚ))
  | int n => some (Binary.ofRat n.toInt)
  | float x => Binary.exactValue x
  | bool _ | str _ => none

/-- The code points of a text; values of other types have none. -/
def codePoints : Value → Option (List ℕ)
  | str s => some (s.toList.map Char.toNat)
  | int _ | float _ | bool _ => none

/-- Whether a value is the number that is none. -/
def isNaN : Value → Bool
  | float x => x.isNaN
  | int _ | bool _ | str _ => false

theorem isSome_exactValue (v : Value) :
    v.exactValue.isSome ↔ v.number?.isSome ∧ v.isNaN = false := by
  cases v with
  | int => exact ⟨fun _ => ⟨rfl, rfl⟩, fun _ => rfl⟩
  | float x => simp [exactValue, number?, isNaN, Binary.isSome_exactValue]
  | bool | str => simp [exactValue, number?]

theorem isSome_codePoints (v : Value) : v.codePoints.isSome ↔ v.type = .str := by
  cases v <;> simp [codePoints, type]

end Value

/-! ## Comparison by places -/

namespace BinaryOp

/-- Whether the operator compares its operands. -/
def isComparison : BinaryOp → Bool
  | equal | notEqual => true
  | op => op.isRelational

/-- What a comparison says of two places in a linear order. -/
def relation {α : Type} [LinearOrder α] (op : BinaryOp) (x y : α) : Bool :=
  match op with
  | less => x < y
  | greater => y < x
  | lessEqual => x ≤ y
  | greaterEqual => y ≤ x
  | equal => x = y
  | notEqual => x ≠ y
  | _ => false

/-- The comparison that says the same of two operands in the other order. -/
def mirror : BinaryOp → BinaryOp
  | less => greater
  | greater => less
  | lessEqual => greaterEqual
  | greaterEqual => lessEqual
  | op => op

/-- A comparison is true of two values. -/
def Holds (op : BinaryOp) (u v : Value) : Prop := op.comparison u v = .ok (.bool true)

theorem relation_mirror {α : Type} [LinearOrder α] (op : BinaryOp) (x y : α) :
    op.mirror.relation y x = op.relation x y := by
  cases op <;> simp [mirror, relation, eq_comm]

end BinaryOp

/-- Values compare as their places in a linear order. -/
structure ComparedBy {α : Type} [LinearOrder α] (place : Value → Option α) : Prop where
  comparison : ∀ {u v x y}, place u = some x → place v = some y →
    ∀ op : BinaryOp, op.isComparison → op.comparison u v = .ok (.bool (op.relation x y))
  equal : ∀ {u v x y}, place u = some x → place v = some y → u.equal v = decide (x = y)

open BinaryOp in
/-- The laws of a linear order, as comparisons have them on values of a kind. -/
structure LinearlyOrdered (Kind : Value → Prop) : Prop where
  exactly_one : ∀ {u v}, Kind u → Kind v →
    less.Holds u v ∧ ¬ equal.Holds u v ∧ ¬ greater.Holds u v ∨
    ¬ less.Holds u v ∧ equal.Holds u v ∧ ¬ greater.Holds u v ∨
    ¬ less.Holds u v ∧ ¬ equal.Holds u v ∧ greater.Holds u v
  lessEqual_iff : ∀ {u v}, Kind u → Kind v →
    (lessEqual.Holds u v ↔ less.Holds u v ∨ equal.Holds u v)
  greaterEqual_iff : ∀ {u v}, Kind u → Kind v →
    (greaterEqual.Holds u v ↔ greater.Holds u v ∨ equal.Holds u v)
  mirror : ∀ {u v}, Kind u → Kind v → ∀ op : BinaryOp, op.isComparison →
    op.mirror.comparison v u = op.comparison u v
  notEqual_iff : ∀ {u v}, Kind u → Kind v → (notEqual.Holds u v ↔ ¬ equal.Holds u v)
  equal_trans : ∀ {u v w}, Kind u → Kind v → Kind w →
    equal.Holds u v → equal.Holds v w → equal.Holds u w
  less_trans : ∀ {u v w}, Kind u → Kind v → Kind w →
    less.Holds u v → less.Holds v w → less.Holds u w

namespace ComparedBy

variable {α : Type} [LinearOrder α] {place : Value → Option α}

/-- Values compare as their places if they lie to each other, and are equal, as their places. -/
theorem of_compare
    (hcompare : ∀ {u v x y}, place u = some x → place v = some y →
      u.compare v = .ordered (cmp x y))
    (hequal : ∀ {u v x y}, place u = some x → place v = some y → u.equal v = decide (x = y)) :
    ComparedBy place where
  equal := hequal
  comparison hu hv op hop := by
    cases op with
    | less | greater | lessEqual | greaterEqual =>
      simp [BinaryOp.comparison, hcompare hu hv, BinaryOp.holds?, BinaryOp.relation,
        cmp_eq_lt_iff, cmp_eq_gt_iff]
    | equal => rw [BinaryOp.comparison, hequal hu hv, BinaryOp.relation]
    | notEqual => simp [BinaryOp.comparison, hequal hu hv, BinaryOp.relation]
    | _ => cases hop

theorem holds_iff (h : ComparedBy place) {u v : Value} {x y : α} (hu : place u = some x)
    (hv : place v = some y) {op : BinaryOp} (hop : op.isComparison) :
    op.Holds u v ↔ op.relation x y = true := by
  rw [BinaryOp.Holds, h.comparison hu hv op hop]
  simp

/-- Values that compare as their places are linearly ordered. -/
theorem linearlyOrdered (h : ComparedBy place) :
    LinearlyOrdered fun v => (place v).isSome := by
  simp only [Option.isSome_iff_exists]
  constructor
  case exactly_one =>
    rintro u v ⟨x, hx⟩ ⟨y, hy⟩
    rw [h.holds_iff hx hy rfl, h.holds_iff hx hy rfl, h.holds_iff hx hy rfl]
    simp only [BinaryOp.relation, decide_eq_true_eq]
    rcases lt_trichotomy x y with hlt | rfl | hgt
    · exact .inl ⟨hlt, hlt.ne, hlt.asymm⟩
    · exact .inr (.inl ⟨lt_irrefl x, rfl, lt_irrefl x⟩)
    · exact .inr (.inr ⟨hgt.asymm, hgt.ne', hgt⟩)
  case lessEqual_iff =>
    rintro u v ⟨x, hx⟩ ⟨y, hy⟩
    rw [h.holds_iff hx hy rfl, h.holds_iff hx hy rfl, h.holds_iff hx hy rfl]
    simp only [BinaryOp.relation, decide_eq_true_eq, le_iff_lt_or_eq]
  case greaterEqual_iff =>
    rintro u v ⟨x, hx⟩ ⟨y, hy⟩
    rw [h.holds_iff hx hy rfl, h.holds_iff hx hy rfl, h.holds_iff hx hy rfl]
    simp only [BinaryOp.relation, decide_eq_true_eq, le_iff_lt_or_eq, @eq_comm _ y x]
  case mirror =>
    rintro u v ⟨x, hx⟩ ⟨y, hy⟩ op hop
    rw [h.comparison hx hy op hop, h.comparison hy hx _ (by cases op <;> exact hop),
      BinaryOp.relation_mirror]
  case notEqual_iff =>
    rintro u v ⟨x, hx⟩ ⟨y, hy⟩
    rw [h.holds_iff hx hy rfl, h.holds_iff hx hy rfl]
    simp only [BinaryOp.relation, decide_eq_true_eq, ne_eq]
  case equal_trans =>
    rintro u v w ⟨x, hx⟩ ⟨y, hy⟩ ⟨z, hz⟩
    rw [h.holds_iff hx hy rfl, h.holds_iff hy hz rfl, h.holds_iff hx hz rfl]
    simp only [BinaryOp.relation, decide_eq_true_eq]
    exact Eq.trans
  case less_trans =>
    rintro u v w ⟨x, hx⟩ ⟨y, hy⟩ ⟨z, hz⟩
    rw [h.holds_iff hx hy rfl, h.holds_iff hy hz rfl, h.holds_iff hx hz rfl]
    simp only [BinaryOp.relation, decide_eq_true_eq]
    exact lt_trans

end ComparedBy

/-! ## Numbers -/

namespace Value

/-- Numbers compare as their exact values. -/
theorem compare_of_exactValue {u v : Value} {x y : WithBot (WithTop ℚ)}
    (hu : u.exactValue = some x) (hv : v.exactValue = some y) :
    u.compare v = .ordered (cmp x y) := by
  cases u with
  | bool | str => cases hu
  | int a =>
    cases v with
    | bool | str => cases hv
    | int b =>
      cases hu
      cases hv
      have hmono : StrictMono fun n : Int => Binary.ofRat n :=
        Binary.ofRat_strictMono.comp Int.cast_strictMono
      rw [compare, ← cmp_eq_compare]
      exact congrArg _ (hmono.cmp_map_eq _ _).symm
    | float b =>
      cases hu
      rw [compare, Binary.compareInt_eq, show Binary.exactValue b = some y from hv]
      rfl
  | float a =>
    cases v with
    | bool | str => cases hv
    | int b =>
      cases hv
      rw [compare, Binary.compareInt_eq, show Binary.exactValue a = some x from hu, ← cmp_swap]
      rfl
    | float b =>
      rw [compare, Binary.compare_eq, show Binary.exactValue a = some x from hu,
        show Binary.exactValue b = some y from hv]
      rfl

/-- NaN is in no order with any number. -/
theorem compare_of_isNaN {u v : Value} (hu : u.number?.isSome) (hv : v.number?.isSome)
    (h : u.isNaN ∨ v.isNaN) : u.compare v = .unordered := by
  cases u with
  | bool | str => cases hu
  | int a =>
    cases v with
    | bool | str => cases hv
    | int b => exact absurd h (by simp [isNaN])
    | float b =>
      rw [compare, Binary.compareInt_eq, Binary.exactValue_of_isNaN (by simpa [isNaN] using h)]
      rfl
  | float a =>
    cases v with
    | bool | str => cases hv
    | int b =>
      rw [compare, Binary.compareInt_eq, Binary.exactValue_of_isNaN (by simpa [isNaN] using h)]
      rfl
    | float b =>
      rw [compare, Binary.compare_eq]
      rcases h with ha | hb
      · rw [Binary.exactValue_of_isNaN ha]
        rfl
      · rw [Binary.exactValue_of_isNaN hb]
        cases Binary.exactValue a <;> rfl

theorem equal_of_number {u : Value} (hu : u.number?.isSome) (v : Value) :
    u.equal v = decide (u.compare v = .ordered .eq) := by
  cases u with
  | bool | str => cases hu
  | int | float => rfl

end Value

theorem comparedBy_exactValue : ComparedBy Value.exactValue := by
  refine .of_compare Value.compare_of_exactValue ?_
  intro u v x y hu hv
  have hnumber := (u.isSome_exactValue.mp (by rw [hu]; rfl)).1
  rw [Value.equal_of_number hnumber, Value.compare_of_exactValue hu hv]
  simp

/-- Beside NaN every comparison of numbers is false, but for the one that says that they are
different. -/
theorem BinaryOp.comparison_of_isNaN {u v : Value} (hu : u.number?.isSome)
    (hv : v.number?.isSome) (h : u.isNaN ∨ v.isNaN) {op : BinaryOp} (hop : op.isComparison) :
    op.comparison u v = .ok (.bool (op = .notEqual)) := by
  have hcompare := Value.compare_of_isNaN hu hv h
  cases op with
  | less | greater | lessEqual | greaterEqual => simp [comparison, hcompare]
  | equal | notEqual => simp [comparison, Value.equal_of_number hu, hcompare]
  | _ => cases hop

/-! ## Texts -/

theorem codePoints_strictMono : StrictMono fun s : String => s.toList.map Char.toNat := by
  intro s t hlt
  exact List.map_lt (fun _ _ h => h) (String.lt_iff.mp hlt)

theorem comparedBy_codePoints : ComparedBy Value.codePoints := by
  refine .of_compare ?_ ?_
  · intro u v x y hu hv
    cases u with
    | int | float | bool => cases hu
    | str s =>
      cases v with
      | int | float | bool => cases hv
      | str t =>
        cases hu
        cases hv
        rw [Value.compare]
        exact congrArg _
          ((cmp_eq_compare s t).symm.trans (codePoints_strictMono.cmp_map_eq s t).symm)
  · intro u v x y hu hv
    cases u with
    | int | float | bool => cases hu
    | str s =>
      cases v with
      | int | float | bool => cases hv
      | str t =>
        cases hu
        cases hv
        rw [Value.equal, decide_eq_decide]
        exact codePoints_strictMono.injective.eq_iff.symm

/-! ## A linear order -/

/-- Comparison of numbers is exact, and an order. An integer stands for itself, and a floating-point
number other than NaN for the number or infinity that its bits denote. Whatever the types of two of
them, every comparison yields what it says of these values, and so does equality; so the laws of a
linear order hold of numbers. Beside NaN every comparison of numbers is false, but for the one that
says that they are different. Texts compare as their code points do, under the same laws. -/
theorem comparison_linear :
    ((∀ v : Value, v.exactValue.isSome ↔ v.number?.isSome ∧ v.isNaN = false) ∧
      ComparedBy Value.exactValue ∧ LinearlyOrdered fun v => v.exactValue.isSome) ∧
    (∀ u v : Value, u.number?.isSome → v.number?.isSome → u.isNaN ∨ v.isNaN →
      ∀ op : BinaryOp, op.isComparison → op.comparison u v = .ok (.bool (op = .notEqual))) ∧
    ((∀ v : Value, v.codePoints.isSome ↔ v.type = .str) ∧
      ComparedBy Value.codePoints ∧ LinearlyOrdered fun v => v.codePoints.isSome) :=
  ⟨⟨Value.isSome_exactValue, comparedBy_exactValue, comparedBy_exactValue.linearlyOrdered⟩,
    fun _ _ hu hv h _ hop => BinaryOp.comparison_of_isNaN hu hv h hop,
    ⟨Value.isSome_codePoints, comparedBy_codePoints, comparedBy_codePoints.linearlyOrdered⟩⟩

/-- An integer that widens to a smaller number is greater than that number. -/
theorem comparison_linear_widened :
    BinaryOp.greater.comparison (.int 9007199254740993)
      (.float (Binary.ofInt 9007199254740993)) = .ok (.bool true) ∧
    BinaryOp.equal.comparison (.float (Binary.ofInt 9007199254740993))
      (.int 9007199254740992) = .ok (.bool true) := by
  obtain ⟨⟨-, hnumbers, -⟩, -⟩ := comparison_linear
  have hvalue : (Value.float (Binary.ofInt 9007199254740993)).exactValue =
      some (Binary.ofRat 9007199254740992) := by decide +kernel
  have hint : ∀ n : Int64, (Value.int n).exactValue = some (Binary.ofRat n.toInt) := fun _ => rfl
  refine ⟨(hnumbers.comparison (hint _) hvalue .greater rfl).trans ?_,
    (hnumbers.comparison hvalue (hint _) .equal rfl).trans ?_⟩
  · decide +kernel
  · decide +kernel

end ScopedScript
