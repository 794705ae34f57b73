import ScopedScript.Number.Progression

/-!
# How many values a progression has

The number of values still to come is computed from the distance to the bound, rounded up to whole
steps. It goes down by one with every value, also where the next value would not fit: then the bound
is nearer than a step.
-/

namespace ScopedScript

/-! ## Distances in steps -/

/-- Covering a distance takes one step more than covering it without the first step. -/
theorem toNat_ceil_sub {distance step : Int} (hstep : 0 < step) (hdistance : 0 < distance) :
    ((distance + step - 1) / step).toNat = ((distance - step + step - 1) / step).toNat + 1 := by
  have hsplit : distance + step - 1 = distance - 1 + 1 * step := by omega
  have hrest : distance - step + step - 1 = distance - 1 := by omega
  have hnonneg : 0 ≤ (distance - 1) / step := Int.ediv_nonneg (by omega) (by omega)
  rw [hsplit, hrest, Int.add_mul_ediv_right _ _ (by omega : step ≠ 0)]
  omega

/-- A distance of no more than a step takes one. -/
theorem toNat_ceil_one {distance step : Int} (hle : distance ≤ step) (hdistance : 0 < distance) :
    ((distance + step - 1) / step).toNat = 1 := by
  rw [toNat_ceil_sub (by omega) hdistance, show distance - step + step - 1 = distance - 1 by omega,
    Int.ediv_eq_zero_of_lt (by omega) (by omega)]
  rfl

/-! ## Values still to come -/

namespace Progression

/-- A value less is still to come behind the first one. -/
theorem remaining_of_next? {p rest : Progression} {n : Int64} (h : p.next? = some (n, rest)) :
    p.remaining = rest.remaining + 1 := by
  unfold next? at h
  split at h
  · contradiction
  next n' hfirst =>
    split at h
    next hadmits =>
      simp only [Option.some.injEq, Prod.mk.injEq] at h
      obtain ⟨rfl, rfl⟩ := h
      simp only [admits] at hadmits
      simp only [remaining, hfirst]
      cases hnext : Integer.fit? (n'.toInt + p.step.toInt) with
      | none =>
        have hbeyond := Integer.beyond_of_fit?_eq_none hnext
        split
        next hpos =>
          rw [if_pos hpos, decide_eq_true_eq] at hadmits
          obtain hbelow | habove := hbeyond
          · have hlt := hbelow n'
            omega
          · have hlt := habove p.stop
            exact toNat_ceil_one (by omega) (by omega)
        next hneg =>
          rw [if_neg hneg, decide_eq_true_eq] at hadmits
          obtain hbelow | habove := hbeyond
          · have hlt := hbelow p.stop
            exact toNat_ceil_one (by omega) (by omega)
          · have hlt := habove n'
            omega
      | some next =>
        have hvalue := Integer.toInt_of_fit? hnext
        simp only [hvalue]
        split
        next hpos =>
          rw [if_pos hpos, decide_eq_true_eq] at hadmits
          have hrest : p.stop.toInt - (n'.toInt + p.step.toInt) =
              p.stop.toInt - n'.toInt - p.step.toInt := by omega
          rw [toNat_ceil_sub hpos (by omega), hrest]
        next hneg =>
          rw [if_neg hneg, decide_eq_true_eq] at hadmits
          have hne : p.step.toInt ≠ 0 := fun h => p.step_ne_zero (Int64.toInt_inj.mp h)
          have hrest : -(p.stop.toInt - (n'.toInt + p.step.toInt)) =
              -(p.stop.toInt - n'.toInt) - -p.step.toInt := by omega
          rw [toNat_ceil_sub (by omega) (by omega), hrest]
    next => contradiction

end Progression

end ScopedScript
