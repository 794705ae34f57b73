import ScopedScript.Proofs.Number.Division
import ScopedScript.Text.Slice

/-!
# Positions in a text

A position names a place in a text: counted from the start, or back from the end if it is negative,
and moved to the nearest end if it lies beyond. A slice is the characters between two places. The
places can be computed on words: no sum on the way leaves them, whatever the position.
-/

namespace ScopedScript.Text

open Integer (Fits)

/-! ## Places -/

/-- The place that a position names in a text of some length. -/
def place (length : Nat) (position : Int) : Int :=
  min length (max 0 (if position < 0 then position + length else position))

theorem clamp_eq_place (length : Nat) (position : Int64) :
    (clamp length position : Int) = place length position.toInt := by
  unfold clamp place fromStart
  omega

/-- The sum that a place is computed by, on words; none if it leaves them. -/
def startSteps? (length : Nat) (position : Int64) : Option Int64 :=
  if position.toInt < 0 then Integer.fit? (position.toInt + length) else some position

/-- It never leaves them. -/
theorem startSteps?_eq {length : Nat} (hlength : Fits length) (position : Int64) :
    ∃ start, startSteps? length position = some start ∧
      start.toInt = fromStart length position := by
  unfold startSteps? fromStart
  split
  next hnegative =>
    have hfits : Fits (position.toInt + length) := by
      have hposition := Integer.fits_toInt position
      unfold Fits at *
      omega
    obtain ⟨start, hstart, hvalue⟩ := Integer.exists_fit?_of_fits hfits
    exact ⟨start, hstart, hvalue⟩
  next => exact ⟨position, rfl, rfl⟩

/-! ## Characters -/

/-- The characters of a list between two places, the second of which is left out. -/
def between (cs : List Char) (first last : Int) : List Char :=
  (cs.zipIdx.filter fun (_, p) => first ≤ p ∧ p < last).map (·.1)

/-- They lie behind one another, wherever the count begins. -/
theorem filter_zipIdx_eq (cs : List Char) (offset first last : Nat) :
    ((cs.zipIdx offset).filter fun (_, p) => (first : Int) ≤ p ∧ (p : Int) < last).map (·.1) =
      (cs.drop (first - offset)).take (last - max first offset) := by
  induction cs generalizing offset with
  | nil => simp
  | cons c cs ih =>
    simp only [List.zipIdx_cons, List.filter_cons]
    by_cases hbefore : offset < first
    · have hdrop : first - offset = first - (offset + 1) + 1 := by omega
      rw [if_neg (by simp; omega), ih, hdrop, List.drop_succ_cons]
      congr 2
      omega
    · have hdrop : first - offset = 0 := by omega
      have hdrop' : first - (offset + 1) = 0 := by omega
      by_cases hinside : offset < last
      · have htake : last - max first offset = last - max first (offset + 1) + 1 := by omega
        rw [if_pos (by simp; omega), List.map_cons, ih, htake, hdrop, hdrop', List.drop_zero,
          List.drop_zero, List.take_succ_cons]
      · have htake : last - max first offset = 0 := by omega
        have htake' : last - max first (offset + 1) = 0 := by omega
        rw [if_neg (by simp; omega), ih, htake, htake', List.take_zero, List.take_zero]

theorem between_eq (cs : List Char) (first last : Nat) :
    between cs first last = (cs.drop first).take (last - first) := by
  simpa [between] using filter_zipIdx_eq cs 0 first last

section Characters

variable (s : String) (i : Int64)

/-- There is a character at a position if that lies less than a length before the end or behind the
start. -/
theorem charAt?_eq_none_iff :
    charAt? s i = none ↔ i.toInt < -s.length ∨ s.length ≤ i.toInt := by
  rw [charAt?_eq, ite_eq_right_iff, fromStart]
  simp only [List.getElem?_eq_none_iff, String.length_toList]
  omega

theorem exists_charAt? (hlow : -s.length ≤ i.toInt) (hhigh : i.toInt < s.length) :
    ∃ c, s.toList[(fromStart s.length i).toNat]? = some c ∧ charAt? s i = some c := by
  have hstart : 0 ≤ fromStart s.length i := by
    unfold fromStart
    omega
  have hsome : charAt? s i ≠ none := by
    rw [ne_eq, charAt?_eq_none_iff]
    omega
  obtain ⟨c, hc⟩ := Option.ne_none_iff_exists'.mp hsome
  refine ⟨c, ?_, hc⟩
  rwa [charAt?_eq, if_pos hstart] at hc

/-- A character is a slice of length one. Of the last one that is so only if it is counted from the
start: behind it there is no position counted from the end. -/
theorem slice_eq_singleton {j : Int64} (hj : j.toInt = i.toInt + 1) (hlast : i.toInt ≠ -1) {c : Char}
    (hc : charAt? s i = some c) : slice s i j = String.singleton c := by
  have hreaches : ¬ (i.toInt < -s.length ∨ s.length ≤ i.toInt) := by
    rw [← charAt?_eq_none_iff, hc]
    nofun
  obtain ⟨c', hget, hc'⟩ := exists_charAt? s i (by omega) (by omega)
  obtain rfl : c = c' := Option.some.inj (hc.symm.trans hc')
  have hfirst : clamp s.length i = (fromStart s.length i).toNat := by
    unfold clamp fromStart
    omega
  have hwidth : clamp s.length j - clamp s.length i = 1 := by
    unfold clamp fromStart
    omega
  obtain ⟨hlt, hvalue⟩ := List.getElem?_eq_some_iff.mp hget
  apply String.toList_injective
  rw [toList_slice, hwidth, hfirst, List.drop_eq_getElem_cons hlt, hvalue]
  simp

end Characters

section Slices

variable (s : String) (i j : Int64)

/-- A slice is the characters between the places of its bounds. -/
theorem toList_slice_eq : (slice s i j).toList =
    between s.toList (place s.length i.toInt) (place s.length j.toInt) := by
  rw [toList_slice, ← clamp_eq_place, ← clamp_eq_place, between_eq]

theorem length_slice_eq : ((slice s i j).length : Int) =
    max 0 (place s.length j.toInt - place s.length i.toInt) := by
  rw [length_slice, ← clamp_eq_place, ← clamp_eq_place]
  omega

/-- What is cut in two is put together again. -/
theorem slice_append {start stop : Int64} (hstart : start.toInt = 0)
    (hstop : stop.toInt = s.length) (k : Int64) : slice s start k ++ slice s k stop = s := by
  have hfirst : clamp s.length start = 0 := by simp [clamp, fromStart, hstart]
  have hlast : clamp s.length stop = s.length := by
    simp only [clamp, fromStart, hstop]
    omega
  have hrest : (s.toList.drop (clamp s.length k)).length ≤ s.length - clamp s.length k := by
    rw [List.length_drop, String.length_toList]
  apply String.toList_injective
  rw [String.toList_append, toList_slice, toList_slice, hfirst, hlast]
  rw [List.drop_zero, Nat.sub_zero, List.take_of_length_le hrest, List.take_append_drop]

end Slices

end ScopedScript.Text
