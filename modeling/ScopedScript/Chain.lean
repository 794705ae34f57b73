/-!
# Chains of outward links

Scopes and frames are kept by position and linked outward by position. Names are resolved along
the chain of links that starts at the innermost one. Links point at lower positions, so a chain
that starts at position `i` has at most `i + 1` members.
-/

namespace ScopedScript

/-- The first positions on the chain from a position outward, at most `count` of them. -/
def chainUpTo (link : Nat → Option Nat) : Nat → Nat → List Nat
  | 0, _ => []
  | count + 1, i =>
    i :: match link i with
      | none => []
      | some outer => chainUpTo link count outer

/-- The positions on the chain from a position outward, innermost first. -/
def chain (link : Nat → Option Nat) (i : Nat) : List Nat :=
  chainUpTo link (i + 1) i

/-- Links that point at lower positions. -/
def Downward (link : Nat → Option Nat) : Prop :=
  ∀ i outer, link i = some outer → outer < i

/-- Members beyond the position itself are never asked for. -/
theorem chainUpTo_eq_chain {link : Nat → Option Nat} (h : Downward link) {count i : Nat}
    (hi : i < count) : chainUpTo link count i = chain link i := by
  induction i using Nat.strongRecOn generalizing count with
  | ind i ih =>
    obtain ⟨count, rfl⟩ : ∃ k, count = k + 1 := ⟨count - 1, by omega⟩
    simp only [chain, chainUpTo]
    cases hlink : link i with
    | none => rfl
    | some outer =>
      have hlt := h i outer hlink
      simp only [List.cons.injEq, true_and]
      rw [ih outer hlt (show outer < count by omega), ih outer hlt hlt]

/-- A chain is a position and the chain from its link. -/
theorem chain_eq {link : Nat → Option Nat} (h : Downward link) (i : Nat) :
    chain link i = i :: match link i with
      | none => []
      | some outer => chain link outer := by
  rw [chain, chainUpTo]
  cases hlink : link i with
  | none => rfl
  | some outer =>
    simp only [List.cons.injEq, true_and]
    exact chainUpTo_eq_chain h (h i outer hlink)

/-- A chain does not rise above its first member. -/
theorem le_of_mem_chain {link : Nat → Option Nat} (h : Downward link) {i j : Nat}
    (hj : j ∈ chain link i) : j ≤ i := by
  induction i using Nat.strongRecOn with
  | ind i ih =>
    rw [chain_eq h] at hj
    cases hlink : link i with
    | none => simp_all
    | some outer =>
      have hlt := h i outer hlink
      simp only [hlink, List.mem_cons] at hj
      rcases hj with rfl | hj
      · exact Nat.le_refl _
      · have := ih outer hlt hj
        omega

/-- Where links point downward, a chain is closed under them. -/
theorem mem_chain_of_link {link : Nat → Option Nat} (h : Downward link) {i j outer : Nat}
    (hj : j ∈ chain link i) (hlink : link j = some outer) : outer ∈ chain link i := by
  induction i using Nat.strongRecOn with
  | ind i ih =>
    rw [chain_eq h] at hj ⊢
    cases hi : link i with
    | none => simp_all
    | some next =>
      have hlt := h i next hi
      simp only [hi, List.mem_cons] at hj ⊢
      rcases hj with rfl | hj
      · obtain rfl : next = outer := by simp_all
        right
        rw [chain_eq h]
        exact List.mem_cons_self
      · exact Or.inr (ih next hlt hj)

/-- Links that agree on a chain give the same chain. -/
theorem chainUpTo_congr {link link' : Nat → Option Nat} {count i : Nat}
    (h : ∀ j ∈ chainUpTo link count i, link' j = link j) :
    chainUpTo link' count i = chainUpTo link count i := by
  induction count generalizing i with
  | zero => rfl
  | succ count ih =>
    simp only [chainUpTo, List.mem_cons, forall_eq_or_imp] at h ⊢
    rw [h.1]
    cases hlink : link i with
    | none => rfl
    | some outer =>
      simp only [hlink] at h
      simp only [ih h.2]

/-- Links that agree on a chain give the same chain. -/
theorem chain_congr {link link' : Nat → Option Nat} {i : Nat}
    (h : ∀ j ∈ chain link i, link' j = link j) : chain link' i = chain link i :=
  chainUpTo_congr h

end ScopedScript
