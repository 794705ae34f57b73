/-!
# Steps that carry a state

Checks and runs of programs both go from state to state and can stop early. What comes of one step
behind another is the same for both, whatever the states and the reasons to stop are.
-/

namespace ScopedScript

variable {ε σ α β : Type}

/-- The second step starts where the first one ends, unless that stops. -/
theorem bind_apply (x : EStateM ε σ α) (f : α → EStateM ε σ β) (s : σ) :
    (x >>= f) s = match x s with
      | .ok a after => f a after
      | .error e after => .error e after := by
  exact EStateM.run_bind x f

/-- Two steps come to an end if both do. -/
theorem bind_eq_ok {x : EStateM ε σ α} {f : α → EStateM ε σ β} {s last : σ} {b : β} :
    (x >>= f) s = .ok b last ↔ ∃ a after, x s = .ok a after ∧ f a after = .ok b last := by
  rw [bind_apply]
  constructor
  · intro h
    cases hx : x s with
    | ok a after =>
      rw [hx] at h
      exact ⟨a, after, rfl, h⟩
    | error e after =>
      rw [hx] at h
      cases h
  · rintro ⟨a, after, hx, h⟩
    rw [hx]
    exact h

theorem get_apply (s : σ) : (get : EStateM ε σ σ) s = .ok s s := rfl

theorem set_apply (s' s : σ) : (set s' : EStateM ε σ Unit) s = .ok () s' := rfl

end ScopedScript
