import ScopedScript.Proofs.Run.Moment

/-!
# What runs yield

A run yields something if it comes to an end in which it holds, or halts in a way that is allowed.
What a run yields is put together from what its parts yield.

The faults of operators and conversions are about values, never about names.
-/

namespace ScopedScript

/-! ## Faults about names -/

/-- A fault is about a name: a variable has no value, a function is not there, or takes another
number of arguments. -/
def RuntimeFault.isNaming : RuntimeFault → Bool
  | unboundVariable _ | unknownFunction _ | argumentCount _ _ _ => true
  | _ => false

/-- An operation has no faults about names. -/
def Outcome.Plain {α : Type} : Outcome α → Prop
  | .ok _ => True
  | .error fault => fault.isNaming = false

theorem Outcome.Plain.bind {α β : Type} {x : Outcome α} {f : α → Outcome β} (h : x.Plain)
    (hf : ∀ a, (f a).Plain) : (x >>= f).Plain := by
  cases x with
  | ok a => exact hf a
  | error fault => exact h

theorem Outcome.ofFit_plain (n : Option Int64) : (Outcome.ofFit n).Plain := by
  cases n <;> trivial

theorem Value.asBool_plain (role : String) (v : Value) : (v.asBool role).Plain := by
  cases v <;> trivial

theorem Value.asInteger_plain (role : String) (v : Value) : (v.asInteger role).Plain := by
  cases v <;> trivial

namespace BinaryOp

theorem onIntegers_plain (op : BinaryOp) (a b : Int64) : (op.onIntegers a b).Plain := by
  unfold onIntegers
  split
  · exact Outcome.ofFit_plain _
  · exact Outcome.ofFit_plain _
  · exact Outcome.ofFit_plain _
  · split
    · trivial
    · exact Outcome.ofFit_plain _
  · split
    · trivial
    · exact Outcome.ofFit_plain _
  · trivial

theorem onNumbers_plain (op : BinaryOp) (left right : Value) :
    (op.onNumbers left right).Plain := by
  unfold onNumbers
  split
  · split
    · trivial
    · split <;> trivial
  · trivial

theorem arithmetic_plain (op : BinaryOp) (left right : Value) :
    (op.arithmetic left right).Plain := by
  unfold arithmetic
  split
  · split <;> trivial
  · split
    · exact onNumbers_plain op _ _
    · exact onIntegers_plain op _ _
  · exact onNumbers_plain op _ _

theorem comparison_plain (op : BinaryOp) (left right : Value) :
    (op.comparison left right).Plain := by
  unfold comparison
  split
  · trivial
  · trivial
  · split
    · trivial
    · trivial
    · split <;> trivial

theorem logic_plain (op : BinaryOp) (left right : Value) : (op.logic left right).Plain := by
  refine (Value.asBool_plain _ left).bind fun a => (Value.asBool_plain _ right).bind fun b => ?_
  cases op <;> trivial

/-- The faults of operators between two operands are about values. -/
theorem apply_plain (op : BinaryOp) (left right : Value) : (op.apply left right).Plain := by
  unfold apply
  split
  all_goals first
    | exact arithmetic_plain _ left right
    | exact comparison_plain _ left right
    | exact logic_plain _ left right

end BinaryOp

/-- The faults of operators before an operand are about values. -/
theorem UnaryOp.apply_plain (op : UnaryOp) (operand : Value) : (op.apply operand).Plain := by
  cases op <;> cases operand <;> first | trivial | exact Outcome.ofFit_plain _

theorem Exec.character_plain (text : String) (index : Int64) :
    (Exec.character text index).Plain := by
  refine (Outcome.ofFit_plain _).bind fun _ => ?_
  split <;> trivial

theorem integerPart_plain (x : Float) : (integerPart x).Plain := by
  unfold integerPart
  split
  · trivial
  · split <;> trivial

theorem Value.toInteger_plain (v : Value) : v.toInteger.Plain := by
  cases v with
  | float x => exact integerPart_plain x
  | str s =>
    simp only [toInteger]
    split <;> trivial
  | _ => trivial

theorem Value.toFloat_plain (v : Value) : v.toFloat.Plain := by
  cases v with
  | str s =>
    simp only [toFloat]
    split <;> trivial
  | _ => trivial

theorem Builtin.assertion_plain (argument : Value) : (Builtin.assertion argument).Plain := by
  refine (Value.asBool_plain _ argument).bind fun b => ?_
  cases b <;> trivial

theorem Builtin.length_plain (v : Value) : (Builtin.length v).Plain := by
  cases v with
  | str s => exact Outcome.ofFit_plain _
  | _ => trivial

/-! ## What runs yield -/

namespace Exec

/-- A run from a state ends with something, or halts as it is allowed to. -/
def Yields {α : Type} (allows : Halt → Prop) (x : Exec α) (m : Machine)
    (post : α → Machine → Prop) : Prop :=
  match x m with
  | .ok a after => post a after
  | .error halt _ => allows halt

section Yields

variable {α β : Type} {allows : Halt → Prop} {m : Machine}

theorem Yields.pure {a : α} {post : α → Machine → Prop} (h : post a m) :
    Yields allows (Pure.pure a) m post := h

theorem Yields.bind {x : Exec α} {f : α → Exec β} {post : α → Machine → Prop}
    {post' : β → Machine → Prop} (h : Yields allows x m post)
    (hf : ∀ a after, post a after → Yields allows (f a) after post') :
    Yields allows (x >>= f) m post' := by
  unfold Yields at h ⊢
  rw [bind_apply]
  cases hx : x m with
  | ok a after =>
    rw [hx] at h
    exact hf a after h
  | error halt after =>
    rw [hx] at h
    exact h

theorem Yields.imp {x : Exec α} {post post' : α → Machine → Prop} (h : Yields allows x m post)
    (himp : ∀ a after, post a after → post' a after) : Yields allows x m post' := by
  unfold Yields at h ⊢
  cases hx : x m with
  | ok a after =>
    rw [hx] at h
    exact himp a after h
  | error halt after =>
    rw [hx] at h
    exact h

/-- A run that begins with a look at its state. -/
theorem Yields.look {f : Machine → Exec β} {post : β → Machine → Prop}
    (h : Yields allows (f m) m post) : Yields allows (get >>= f) m post := by
  unfold Yields
  rw [bind_apply]
  exact h

/-- What a run yields comes with how it ended. -/
theorem Yields.ended {x : Exec α} {post : α → Machine → Prop} (h : Yields allows x m post) :
    Yields allows x m fun a after => post a after ∧ x m = .ok a after := by
  unfold Yields at h ⊢
  cases hx : x m with
  | ok a after =>
    rw [hx] at h
    exact ⟨h, rfl⟩
  | error halt after =>
    rw [hx] at h
    exact h

theorem Yields.bracket {x : Exec α} {enter leave : Machine → Machine} {post : α → Machine → Prop}
    (h : Yields allows x (enter m) fun a after => post a (leave after)) :
    Yields allows (bracket enter leave x) m post := by
  unfold Yields Exec.bracket at *
  cases hx : x (enter m) with
  | ok a after =>
    rw [hx] at h
    exact h
  | error halt after =>
    rw [hx] at h
    exact h

theorem Yields.fail {fault : RuntimeFault} {position : Position} {post : α → Machine → Prop}
    (h : allows (.fault ⟨fault, position⟩)) : Yields allows (fail fault position) m post := h

end Yields

/-- Halts that have nothing to do with names are allowed. -/
structure Lenient (allows : Halt → Prop) : Prop where
  fuel : allows .outOfFuel
  plain : ∀ (fault : RuntimeFault) (position : Position), fault.isNaming = false →
    allows (.fault ⟨fault, position⟩)

section Lenient

variable {α : Type} {allows : Halt → Prop} {m : Machine} (hlenient : Lenient allows)

include hlenient

theorem Lenient.exhausted {post : α → Machine → Prop} : Yields allows exhausted m post :=
  hlenient.fuel

theorem Lenient.fail {fault : RuntimeFault} (position : Position) {post : α → Machine → Prop}
    (h : fault.isNaming = false) : Yields allows (fail fault position) m post :=
  hlenient.plain fault position h

theorem Lenient.located {outcome : Outcome α} (h : outcome.Plain) (position : Position) :
    Yields allows (located position outcome) m fun _ after => after = m := by
  cases outcome with
  | ok a => exact .pure rfl
  | error fault => exact hlenient.fail position h

theorem Lenient.coerce (name : String) (type : Ty) (v : Value) (position : Position) :
    Yields allows (coerce name type v position) m fun _ after => after = m := by
  unfold Exec.coerce
  split
  · exact .pure rfl
  · exact hlenient.fail position rfl

theorem Lenient.write (text : String) (position : Position) :
    Yields allows (write text position) m fun _ after => after.stack = m.stack := by
  unfold Yields Exec.write
  simp only [bind_apply, get_apply, set_apply]
  cases (m.output.write text).1 with
  | true => exact rfl
  | false => exact hlenient.plain _ position rfl

end Lenient

end Exec

end ScopedScript
