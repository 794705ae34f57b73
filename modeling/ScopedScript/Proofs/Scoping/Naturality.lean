import ScopedScript.Proofs.Scoping.Rules
import ScopedScript.Proofs.State

/-!
# The check of names does not depend on tokens

The rules of the check read a token for the position of a fault and for nothing else. So a program
with other tokens opens the same scopes with the same names, and has the same fault, at the position
that stands in the place of the first.
-/

namespace ScopedScript.Check

variable (f : Relabeling)

/-- The end of a check with other tokens. -/
def relabelEnd {α : Type} :
    EStateM.Result (Diagnostic ScopeFault) Checker α →
      EStateM.Result (Diagnostic ScopeFault) Checker α
  | .ok a after => .ok a after
  | .error d after => .error (d.relabel f) after

/-- The second check does what the first does, with other tokens. -/
def Natural {α : Type} (x y : Check α) : Prop := ∀ state, y state = relabelEnd f (x state)

variable {f}

/-! ## Composition -/

theorem natural_pure {α : Type} (a : α) : Natural f (pure a) (pure a) := fun _ => rfl

theorem natural_fail {α : Type} (fault : ScopeFault) (position : Position) :
    Natural f (fail fault position : Check α) (fail fault (f.position position)) :=
  fun _ => rfl

theorem Natural.bind {α β : Type} {x y : Check α} {g k : α → Check β} (h : Natural f x y)
    (hg : ∀ a, Natural f (g a) (k a)) : Natural f (x >>= g) (y >>= k) := by
  intro state
  rw [bind_apply, bind_apply, h state]
  cases x state with
  | ok a after => exact hg a after
  | error d after => rfl

theorem Natural.bracket {α : Type} {x y : Check α} (h : Natural f x y)
    (enter : Checker → Checker) (leave : Checker → Checker → Checker) :
    Natural f (bracket enter leave x) (bracket enter leave y) := by
  intro state
  unfold Check.bracket
  rw [h (enter state)]
  cases x (enter state) <;> rfl

theorem Natural.inScope {α : Type} {x y : Check α} (h : Natural f x y) (name : String) :
    Natural f (inScope name x) (inScope name y) :=
  h.bracket _ _

theorem Natural.inBlock {α : Type} {x y : Check α} (h : Natural f x y) (word : Keyword) :
    Natural f (inBlock word x) (inBlock word y) :=
  fun _ => h.inScope _ _

theorem Natural.inLoop {α : Type} {x y : Check α} (h : Natural f x y) (word : Keyword) :
    Natural f (inLoop word x) (inLoop word y) :=
  (h.bracket _ _).inBlock word

theorem Natural.inFunction {α : Type} {x y : Check α} (h : Natural f x y) (decl : FunctionDecl) :
    Natural f (inFunction decl x) (inFunction (decl.relabel f) y) := by
  unfold Check.inFunction
  rw [decl.relabel_name, decl.relabel_returns]
  exact (h.inScope _).bracket _ _

/-! ## Names -/

/-- What is done next is chosen by what was declared. -/
theorem natural_get {α : Type} {x y : Checker → Check α}
    (h : ∀ state, Natural f (x state) (y state)) : Natural f (get >>= x) (get >>= y) :=
  fun state => h state state

theorem natural_declare (symbol : Symbol) (position : Position) :
    Natural f (declare symbol position) (declare symbol (f.position position)) := by
  refine natural_get fun state => ?_
  obtain ⟨inserted, scopes⟩ := state.scopes.insert symbol
  cases inserted with
  | true => exact fun _ => rfl
  | false => exact natural_fail _ position

theorem natural_variableUse (name : String) (position : Position) :
    Natural f (variableUse name position) (variableUse name (f.position position)) := by
  refine natural_get fun state => ?_
  split
  · exact natural_fail _ position
  · exact natural_pure ()
  · exact natural_fail _ position

theorem natural_callUse (name : String) (count : Nat) (position : Position) :
    Natural f (callUse name count position) (callUse name count (f.position position)) := by
  refine natural_get fun state => ?_
  split
  · exact natural_fail _ position
  · split
    · exact natural_pure ()
    · exact natural_fail _ position
  · exact natural_fail _ position

theorem natural_jump (word : Keyword) (position : Position) :
    Natural f (jump word position) (jump word (f.position position)) := by
  refine natural_get fun state => ?_
  split
  · exact natural_fail _ position
  · exact natural_pure _

/-! ## Rules -/

theorem natural_combines : Combines f (fun _ => True) (Natural f) where
  pure := natural_pure ()
  fail := natural_fail
  and_then h h' := h.bind fun _ => h'
  variableUse _ := natural_variableUse _
  callUse _ := natural_callUse _
  declare symbol _ _ := natural_declare symbol
  jump := natural_jump
  inside h := natural_get fun state => h state.function
  inBlock word h := h.inBlock word
  inLoop word h := h.inLoop word
  inFunction decl _ h := h.inFunction decl

/-- The rule of a statement with other tokens does the same. -/
theorem statement_natural (s : Statement) : Natural f (statement s) (statement (s.relabel f)) :=
  statement_along natural_combines s fun _ _ => trivial

theorem statements_natural (body : List Statement) :
    Natural f (statements body) (statements (Statement.relabelList f body)) :=
  statements_along natural_combines body fun _ _ => trivial

/-- A program with other tokens is checked in the same way. -/
theorem program_natural (p : Program) :
    Natural f (program p) (program (Statement.relabelList f p)) :=
  (statements_natural p).inScope "global"

end ScopedScript.Check
