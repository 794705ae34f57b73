import Mathlib.Data.Rat.Floor
import ScopedScript.Proofs.Number.Progression

/-!
# The terms of a progression

Word after word, a progression yields the terms of an arithmetic progression of integers: as many as
there are steps to the bound, rounded up, and none after that. Where the next term would be no word
the bound is nearer, so no term is lost.
-/

namespace ScopedScript

namespace Progression

variable {p rest : Progression} {n : Int64}

/-! ## How many terms there are -/

theorem toInt_step_ne_zero (p : Progression) : p.step.toInt ≠ 0 :=
  fun h => p.step_ne_zero (Int64.toInt_inj.mp h)

/-- A quotient rounded up, by division rounded down. -/
theorem ceil_div {distance step : Int} (hstep : 0 < step) :
    ⌈(distance / step : ℚ)⌉ = (distance + step - 1) / step := by
  have hrest := Int.emod_add_mul_ediv (distance + step - 1) step
  have hnonneg := Int.emod_nonneg (distance + step - 1) (by omega : step ≠ 0)
  have hlt := Int.emod_lt_of_pos (distance + step - 1) hstep
  generalize (distance + step - 1) / step = quotient at hrest
  have hpos : (0 : ℚ) < step := Int.cast_pos.mpr hstep
  rw [Int.ceil_eq_iff, lt_div_iff₀ hpos, div_le_iff₀ hpos]
  constructor
  · have hlow : (quotient - 1) * step < distance := by
      rw [Int.sub_mul, Int.mul_comm]
      omega
    exact_mod_cast hlow
  · have hhigh : distance ≤ quotient * step := by
      rw [Int.mul_comm]
      omega
    exact_mod_cast hhigh

/-- As many terms are to come as there are steps to the bound, rounded up. -/
theorem remaining_eq (h : p.first = some n) : p.remaining =
    (⌈((p.stop.toInt - n.toInt) / p.step.toInt : ℚ)⌉).toNat := by
  have hstep := p.toInt_step_ne_zero
  simp only [remaining, h]
  split
  next hpos =>
    rw [← ceil_div hpos]
    push_cast
    rfl
  next hneg =>
    rw [← ceil_div (by omega : 0 < -p.step.toInt)]
    push_cast
    rw [neg_div_neg_eq]

/-- A term is to come exactly if the first one lies before the bound. -/
theorem remaining_pos_iff (h : p.first = some n) : 0 < p.remaining ↔ p.admits n := by
  have hstep := p.toInt_step_ne_zero
  have hcast : (p.stop.toInt - n.toInt : ℚ) = ((p.stop.toInt - n.toInt : Int) : ℚ) :=
    (Int.cast_sub _ _).symm
  rw [remaining_eq h, Int.lt_toNat, Int.natCast_zero, Int.ceil_pos, div_pos_iff, hcast,
    Int.cast_pos, Int.cast_pos, Int.cast_lt_zero, Int.cast_lt_zero, admits]
  split <;> rw [decide_eq_true_eq] <;> omega

/-- Nothing is to come exactly behind the last term. -/
theorem next?_eq_none_iff : p.next? = none ↔ p.remaining = 0 := by
  constructor
  · intro h
    cases hfirst : p.first with
    | none => rw [remaining, hfirst]
    | some n =>
      rw [next?, hfirst] at h
      simp only [ite_eq_right_iff] at h
      refine Nat.eq_zero_of_not_pos fun hpos => ?_
      exact Option.some_ne_none _ (h ((remaining_pos_iff hfirst).mp hpos))
  · intro h
    refine Option.eq_none_iff_forall_ne_some.mpr fun found hfound => ?_
    have hless := remaining_of_next? hfound
    omega

section Make

variable {start stop step : Int64} (h : make? start stop step = some p)

include h

theorem of_make? : p.first = some start ∧ p.stop = stop ∧ p.step = step := by
  unfold make? at h
  split at h
  · cases h
  · cases h
    exact ⟨rfl, rfl, rfl⟩

/-- How many terms there are from a first one up to a bound. -/
theorem remaining_of_make? :
    p.remaining = (⌈((stop.toInt - start.toInt) / step.toInt : ℚ)⌉).toNat := by
  obtain ⟨hfirst, rfl, rfl⟩ := of_make? h
  exact remaining_eq hfirst

end Make

/-! ## The terms -/

/-- What comes of a progression with a first term: nothing if it is at its end, and otherwise that
term, with one less to come behind it. -/
theorem next?_of_first (h : p.first = some n) :
    p.next? = none ∧ p.remaining = 0 ∨
      ∃ rest, p.next? = some (n, rest) ∧ p.remaining = rest.remaining + 1 ∧
        rest.first = Integer.fit? (n.toInt + p.step.toInt) ∧ rest.step = p.step := by
  cases hnext : p.next? with
  | none => exact .inl ⟨rfl, next?_eq_none_iff.mp hnext⟩
  | some found =>
    obtain ⟨first, rest⟩ := found
    have hless := remaining_of_next? hnext
    simp only [next?, h] at hnext
    split at hnext
    · cases hnext
      exact .inr ⟨_, rfl, hless, rfl, rfl⟩
    · cases hnext

/-- The term at an index. There is none from the end on. -/
theorem next?_drop (h : p.first = some n) (k : Nat) :
    ((p.drop k).next?).map (·.1.toInt) =
      if k < p.remaining then some (n.toInt + k * p.step.toInt) else none := by
  induction k generalizing p n with
  | zero =>
    obtain ⟨hnext, hzero⟩ | ⟨rest, hnext, hless, -, -⟩ := next?_of_first h
    · rw [drop, hnext, if_neg (by omega), Option.map_none]
    · rw [drop, hnext, if_pos (by omega), Option.map_some, Int.natCast_zero, Int.zero_mul,
        Int.add_zero]
  | succ k ih =>
    obtain ⟨hnext, hzero⟩ | ⟨rest, hnext, hless, hfirst, hstep⟩ := next?_of_first h
    · rw [next?_eq_none_of_stopped hnext, if_neg (by omega), Option.map_none]
    · simp only [drop, hnext]
      cases hfit : Integer.fit? (n.toInt + p.step.toInt) with
      | none =>
        -- The bound is reached before a term that is no word.
        have hstopped : rest.next? = none := by rw [next?, hfirst, hfit]
        have hzero := next?_eq_none_iff.mp hstopped
        rw [next?_eq_none_of_stopped hstopped, if_neg (by omega), Option.map_none]
      | some next =>
        have hvalue := Integer.toInt_of_fit? hfit
        rw [ih (hfirst.trans hfit), hless, hstep, hvalue]
        simp only [Nat.add_lt_add_iff_right, Int.natCast_add, Int.natCast_one, Int.add_mul,
          Int.one_mul, Int.add_assoc, Int.add_comm p.step.toInt]

theorem getElem?_take (p : Progression) (count k : Nat) :
    (p.take count)[k]? = if k < count then ((p.drop k).next?).map (·.1) else none := by
  induction count generalizing p k with
  | zero => rfl
  | succ count ih =>
    rw [take]
    cases hnext : p.next? with
    | none => rw [next?_eq_none_of_stopped hnext]; simp
    | some found =>
      cases k with
      | zero => simp [drop, hnext]
      | succ k => simp [drop, hnext, ih]

/-- All terms. -/
theorem toList_eq (h : p.first = some n) : p.toList.map Int64.toInt =
    (List.range p.remaining).map fun k : Nat => n.toInt + k * p.step.toInt := by
  refine List.ext_getElem? fun k => ?_
  have hterm := next?_drop h k
  rw [List.getElem?_map, List.getElem?_map, toList, getElem?_take]
  split
  next hlt =>
    rw [if_pos hlt] at hterm
    rw [List.getElem?_range hlt, Option.map_map]
    exact hterm
  next hge => rw [List.getElem?_eq_none (by rw [List.length_range]; omega)]; rfl

/-- There are as many as are to come. -/
theorem length_toList (h : p.first = some n) : p.toList.length = p.remaining := by
  have hlength := congrArg List.length (toList_eq h)
  rwa [List.length_map, List.length_map, List.length_range] at hlength

end Progression

end ScopedScript
