import ScopedScript.Proofs.Number.Division
import ScopedScript.Proofs.Run.Termination

/-!
# Arithmetic on integers

Every operator of integers has an exact result, but for a division by zero. Programs compute on
words of sixty-four bits: they get that result if it is a word, and a fault otherwise.

So does the law that ties the two divisions together, `(x // y) * y + (x % y) == x`: it is never
found to be false. Its sum is a word, since it is the dividend; but the quotient may be none, and
neither may its product with the divisor, since that lies beyond the dividend where the quotient is
negative.
-/

namespace ScopedScript

open Integer (Fits)

/-! ## Exact results -/

/-- The exact result of an operator of integers, if there is one. -/
def BinaryOp.result? (op : BinaryOp) (a b : Int) : Option Int :=
  match op with
  | add => some (a + b)
  | sub => some (a - b)
  | mul => some (a * b)
  | floorDiv => if b = 0 then none else some ⌊(a / b : ℚ)⌋
  | mod => if b = 0 then none else some (a - b * ⌊(a / b : ℚ)⌋)
  | _ => none

namespace Outcome

/-- An outcome is the exact result if that is a word. It is an overflow if it is none, and a
division by zero if there is no result. -/
structure Represents (result? : Option Int) (outcome : Outcome Value) : Prop where
  value : ∀ n : Int64, outcome = .ok (.int n) ↔ result? = some n.toInt
  overflow : outcome = .error .overflow ↔ ∃ n, result? = some n ∧ ¬ Fits n
  zero : outcome = .error .divisionByZero ↔ result? = none

theorem ofInt_toInt (n : Int64) : ofInt n.toInt = .ok (.int n) := by
  rw [ofInt, Integer.fit?_toInt, ofFit]

theorem ofInt_of_not_fits {n : Int} (h : ¬ Fits n) : ofInt n = .error .overflow := by
  rw [ofInt, Integer.fit?_eq_none_iff.mpr h, ofFit]

theorem represents_ofInt (n : Int) : (ofInt n).Represents (some n) := by
  by_cases hfits : Fits n
  · obtain ⟨word, -, rfl⟩ := Integer.exists_fit?_of_fits hfits
    rw [ofInt_toInt]
    refine ⟨fun r => ?_, ⟨nofun, ?_⟩, nofun, nofun⟩
    · simp only [Except.ok.injEq, Value.int.injEq, Option.some.injEq, Int64.toInt_inj]
    · rintro ⟨n, hn, hbeyond⟩
      exact absurd (Option.some.inj hn ▸ hfits) hbeyond
  · rw [ofInt_of_not_fits hfits]
    refine ⟨fun r => ⟨nofun, ?_⟩, ⟨fun _ => ⟨n, rfl, hfits⟩, fun _ => rfl⟩, nofun, nofun⟩
    intro hr
    exact absurd (Option.some.inj hr ▸ Integer.fits_toInt r) hfits

theorem represents_zero : Represents none (.error .divisionByZero) where
  value _ := ⟨nofun, nofun⟩
  overflow := ⟨nofun, nofun⟩
  zero := ⟨fun _ => rfl, fun _ => rfl⟩

end Outcome

section Operators

variable (a b : Int64)

theorem BinaryOp.apply_floorDiv : floorDiv.apply (.int a) (.int b) =
    if b = 0 then .error .divisionByZero else .ofInt ⌊(a.toInt / b.toInt : ℚ)⌋ := by
  rw [Integer.floor_div]
  change (if b = 0 then _ else Outcome.ofFit (Integer.floorDiv? a b)) = _
  split
  next => rfl
  next hb => rw [Integer.floorDiv?, if_neg hb, Outcome.ofInt]

theorem BinaryOp.apply_mod : mod.apply (.int a) (.int b) =
    if b = 0 then .error .divisionByZero
    else .ofInt (a.toInt - b.toInt * ⌊(a.toInt / b.toInt : ℚ)⌋) := by
  rw [Integer.floor_div, ← Int.fmod_def]
  change (if b = 0 then _ else Outcome.ofFit (Integer.floorMod? a b)) = _
  split
  next => rfl
  next hb => rw [Integer.floorMod?, if_neg hb, Outcome.ofInt]

/-- Operators between integers represent their exact results. -/
theorem BinaryOp.represents_apply {op : BinaryOp} (harithmetic : op.isArithmetic)
    (hdiv : op ≠ .div) : (op.apply (.int a) (.int b)).Represents (op.result? a.toInt b.toInt) := by
  cases op with
  | add | sub | mul => exact Outcome.represents_ofInt _
  | floorDiv =>
    rw [apply_floorDiv, result?]
    simp only [Integer.toInt_eq_zero_iff]
    split
    · exact Outcome.represents_zero
    · exact Outcome.represents_ofInt _
  | mod =>
    rw [apply_mod, result?]
    simp only [Integer.toInt_eq_zero_iff]
    split
    · exact Outcome.represents_zero
    · exact Outcome.represents_ofInt _
  | div => exact absurd rfl hdiv
  | _ => cases harithmetic

/-- Only a division by zero has no result. -/
theorem BinaryOp.result?_eq_none_iff {op : BinaryOp} (harithmetic : op.isArithmetic)
    (hdiv : op ≠ .div) : op.result? a.toInt b.toInt = none ↔ op.divides ∧ b = 0 := by
  cases op with
  | add | sub | mul => exact ⟨nofun, nofun⟩
  | floorDiv | mod => simp [result?, divides, Integer.toInt_eq_zero_iff]
  | div => exact absurd rfl hdiv
  | _ => cases harithmetic

end Operators

/-! ## The law of division -/

/-- The places of the operators in the law of division. -/
structure DivisionTokens where
  quotient : Token
  product : Token
  remainder : Token
  sum : Token
  equation : Token

/-- The law of division, `(x // y) * y + (x % y) == x`. -/
def Expr.divisionLaw (x y : Expr) (tokens : DivisionTokens) : Expr :=
  .binary
    (.binary
      (.binary (.binary x .floorDiv y tokens.quotient) .mul y tokens.product)
      .add (.binary x .mod y tokens.remainder) tokens.sum)
    .equal x tokens.equation

namespace Exec

section Operands

variable {fuel : Nat} {left right : Expr} {op : BinaryOp} (token : Token) {l r : Value}
  {m : Machine}

theorem value_of_eval {eval : Expr → Exec (Option Value)} {e : Expr} {v : Value}
    {after : Machine} (h : eval e m = .ok (some v) after) : value eval e m = .ok v after := by
  rw [value, bind_apply, h]
  rfl

/-- An operator whose operands leave the state alone does what it does to their values. -/
theorem eval_binary (hop : op.decisive? = none) (hleft : eval fuel left m = .ok (some l) m)
    (hright : eval fuel right m = .ok (some r) m) :
    eval (fuel + 1) (.binary left op right token) m =
      (located token.position (op.apply l r) >>= fun v => pure (some v)) m := by
  simp only [eval_succ, evalStep, binary, hop, bind_apply, value_of_eval hleft,
    value_of_eval hright]

theorem eval_binary_ok (hop : op.decisive? = none) (hleft : eval fuel left m = .ok (some l) m)
    (hright : eval fuel right m = .ok (some r) m) {v : Value} (happly : op.apply l r = .ok v) :
    eval (fuel + 1) (.binary left op right token) m = .ok (some v) m := by
  rw [eval_binary token hop hleft hright, happly]
  rfl

theorem eval_binary_error (hop : op.decisive? = none)
    (hleft : eval fuel left m = .ok (some l) m) (hright : eval fuel right m = .ok (some r) m)
    {fault : RuntimeFault} (happly : op.apply l r = .error fault) :
    eval (fuel + 1) (.binary left op right token) m =
      .error (.fault ⟨fault, token.position⟩) m := by
  rw [eval_binary token hop hleft hright, happly]
  rfl

/-- What halts the left operand halts the whole. -/
theorem eval_binary_of_left {halt : Halt} (hleft : eval fuel left m = .error halt m) :
    eval (fuel + 1) (.binary left op right token) m = .error halt m := by
  simp only [eval_succ, evalStep, binary, value, bind_apply, hleft]

end Operands

section Law

variable {x y : Expr} {a b : Int64} {m : Machine} {fuel : Nat}

theorem apply_equal_self (n : Int64) :
    BinaryOp.equal.apply (.int n) (.int n) = .ok (.bool true) := by
  have horder : Ord.compare n.toInt n.toInt = .eq := compare_eq_iff_eq.mpr rfl
  change Except.ok (Value.bool (decide (Value.Comparison.ordered _ = .ordered .eq))) = _
  rw [horder]
  rfl

/-- The law is true if its operators yield words that fulfil it. -/
theorem eval_divisionLaw_of_words (tokens : DivisionTokens) {q p r : Int64}
    (hx : ∀ extra, eval (fuel + extra) x m = .ok (some (.int a)) m)
    (hy : ∀ extra, eval (fuel + extra) y m = .ok (some (.int b)) m)
    (hquotient : BinaryOp.floorDiv.apply (.int a) (.int b) = .ok (.int q))
    (hproduct : BinaryOp.mul.apply (.int q) (.int b) = .ok (.int p))
    (hremainder : BinaryOp.mod.apply (.int a) (.int b) = .ok (.int r))
    (hsum : BinaryOp.add.apply (.int p) (.int r) = .ok (.int a)) :
    eval (fuel + 4) (x.divisionLaw y tokens) m = .ok (some (.bool true)) m := by
  have hdivided := eval_binary_ok tokens.quotient rfl (hx 0) (hy 0) hquotient
  have hmultiplied := eval_binary_ok tokens.product rfl hdivided (hy 1) hproduct
  have hrest := eval_binary_ok tokens.remainder rfl (hx 1) (hy 1) hremainder
  have hadded := eval_binary_ok tokens.sum rfl hmultiplied hrest hsum
  exact eval_binary_ok tokens.equation rfl hadded (hx 3) (apply_equal_self a)

/-- The law is true, unless the quotient or its product with the divisor is no word. -/
theorem eval_divisionLaw (tokens : DivisionTokens) (hb : b ≠ 0)
    (hx : eval fuel x m = .ok (some (.int a)) m) (hy : eval fuel y m = .ok (some (.int b)) m) :
    eval (fuel + 4) (x.divisionLaw y tokens) m =
      if Fits ⌊(a.toInt / b.toInt : ℚ)⌋ then
        if Fits (b.toInt * ⌊(a.toInt / b.toInt : ℚ)⌋) then .ok (some (.bool true)) m
        else .error (.fault ⟨.overflow, tokens.product.position⟩) m
      else .error (.fault ⟨.overflow, tokens.quotient.position⟩) m := by
  have hx' : ∀ extra, eval (fuel + extra) x m = .ok (some (.int a)) m :=
    fun extra => eval_of_le (Nat.le_add_right _ _) hx
  have hy' : ∀ extra, eval (fuel + extra) y m = .ok (some (.int b)) m :=
    fun extra => eval_of_le (Nat.le_add_right _ _) hy
  have hquotient := BinaryOp.apply_floorDiv a b
  have hremainder := BinaryOp.apply_mod a b
  have hfits := Integer.fits_fmod (a := a) hb
  rw [if_neg hb] at hquotient hremainder
  rw [Int.fmod_def, ← Integer.floor_div] at hfits
  generalize ⌊(a.toInt / b.toInt : ℚ)⌋ = q at hquotient hremainder hfits ⊢
  split
  next hq =>
    obtain ⟨q, -, rfl⟩ := Integer.exists_fit?_of_fits hq
    rw [Outcome.ofInt_toInt] at hquotient
    have hproduct : BinaryOp.mul.apply (.int q) (.int b) = .ofInt (b.toInt * q.toInt) := by
      rw [Int.mul_comm]
      rfl
    split
    next hp =>
      obtain ⟨p, -, hp⟩ := Integer.exists_fit?_of_fits hp
      obtain ⟨r, -, hr⟩ := Integer.exists_fit?_of_fits hfits
      rw [← hp, Outcome.ofInt_toInt] at hproduct
      rw [← hr, Outcome.ofInt_toInt] at hremainder
      refine eval_divisionLaw_of_words tokens hx' hy' hquotient hproduct hremainder ?_
      have hsum : p.toInt + r.toInt = a.toInt := by omega
      rw [← Outcome.ofInt_toInt, ← hsum]
      rfl
    next hp =>
      rw [Outcome.ofInt_of_not_fits hp] at hproduct
      have hdivided := eval_binary_ok tokens.quotient rfl (hx' 0) (hy' 0) hquotient
      exact eval_binary_of_left _ (eval_binary_of_left _
        (eval_binary_error _ rfl hdivided (hy' 1) hproduct))
  next hq =>
    rw [Outcome.ofInt_of_not_fits hq] at hquotient
    exact eval_binary_of_left _ (eval_binary_of_left _ (eval_binary_of_left _
      (eval_binary_error _ rfl (hx' 0) (hy' 0) hquotient)))

end Law

end Exec

/-! ## Exact or a fault -/

open Exec in
/-- Arithmetic on integers is exact or fails. Every operator between integers but `/`, which leaves
them, yields the exact result if it is a word, overflows if it is none, and divides by zero if there
is no result, which is so of a division by zero alone. So does a change of sign. The remainder lies
between zero and the divisor. Both divisions can be made of steps on words that cut quotients toward
zero, and no such step crashes. Where the divisor is not zero, the law that ties them together is
true, however its operands came about; only an overflow can keep it from that, at the quotient if
this is no word, and otherwise at its product with the divisor if that is none. -/
theorem integer_arithmetic_exact (a b : Int64) :
    (∀ op : BinaryOp, op.isArithmetic → op ≠ .div →
      (op.apply (.int a) (.int b)).Represents (op.result? a.toInt b.toInt) ∧
      (op.result? a.toInt b.toInt = none ↔ op.divides ∧ b = 0)) ∧
    (UnaryOp.negate.apply (.int a)).Represents (some (-a.toInt)) ∧
    (∀ r, BinaryOp.mod.result? a.toInt b.toInt = some r →
      0 ≤ r ∧ r < b.toInt ∨ b.toInt < r ∧ r ≤ 0) ∧
    (Integer.floorDivSteps a b = some (Integer.floorDiv? a b) ∧
      Integer.floorModSteps a b = some (Integer.floorMod? a b)) ∧
    (b ≠ 0 → ∀ (x y : Expr) (tokens : DivisionTokens) (m : Machine) (fuel : Nat),
      eval fuel x m = .ok (some (.int a)) m → eval fuel y m = .ok (some (.int b)) m →
      ∀ more, fuel + 4 ≤ more → eval more (x.divisionLaw y tokens) m =
        if Fits ⌊(a.toInt / b.toInt : ℚ)⌋ then
          if Fits (b.toInt * ⌊(a.toInt / b.toInt : ℚ)⌋) then .ok (some (.bool true)) m
          else .error (.fault ⟨.overflow, tokens.product.position⟩) m
        else .error (.fault ⟨.overflow, tokens.quotient.position⟩) m) := by
  refine ⟨fun op harithmetic hdiv => ⟨op.represents_apply a b harithmetic hdiv,
      op.result?_eq_none_iff a b harithmetic hdiv⟩, Outcome.represents_ofInt _, ?_,
    ⟨Integer.floorDivSteps_eq a b, Integer.floorModSteps_eq a b⟩, ?_⟩
  · intro r hr
    obtain ⟨hb, hr⟩ := Option.ite_none_left_eq_some.mp hr
    rw [← Option.some.inj hr, Integer.floor_div, ← Int.fmod_def]
    exact Integer.fmod_between hb a.toInt
  · intro hb x y tokens m fuel hx hy more hle
    obtain ⟨extra, rfl⟩ := Nat.exists_eq_add_of_le hle
    have hle : fuel ≤ fuel + extra := Nat.le_add_right _ _
    rw [Nat.add_right_comm]
    exact eval_divisionLaw tokens hb (eval_of_le hle hx) (eval_of_le hle hy)

open Exec in
/-- The least word is no multiple of three: its quotient is a word, but three times that is none. -/
theorem integer_arithmetic_exact_least :
    BinaryOp.floorDiv.apply (.int Int64.minValue) (.int 3) =
      .ok (.int (-3074457345618258603)) ∧
    BinaryOp.mod.apply (.int Int64.minValue) (.int 3) = .ok (.int 1) ∧
    UnaryOp.negate.apply (.int Int64.minValue) = .error .overflow ∧
    ∀ token tokens m, eval 5 ((Expr.literal (.int Int64.minValue) token).divisionLaw
      (.literal (.int 3) token) tokens) m =
        .error (.fault ⟨.overflow, tokens.product.position⟩) m := by
  obtain ⟨hop, hnegate, -, -, hlaw⟩ := integer_arithmetic_exact Int64.minValue 3
  refine ⟨((hop .floorDiv rfl (by decide)).1.value _).mpr ?_,
    ((hop .mod rfl (by decide)).1.value _).mpr ?_, hnegate.overflow.mpr ⟨_, rfl, by decide⟩, ?_⟩
  · rw [BinaryOp.result?, Integer.floor_div]
    decide
  · rw [BinaryOp.result?, Integer.floor_div]
    decide
  · intro token tokens m
    have hvalue := hlaw (by decide) (.literal (.int Int64.minValue) token)
      (.literal (.int 3) token) tokens m 1 rfl rfl 5 (Nat.le_refl 5)
    rw [hvalue, Integer.floor_div]
    rfl

end ScopedScript
