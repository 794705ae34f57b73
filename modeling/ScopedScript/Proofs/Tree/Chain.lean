import ScopedScript.Proofs.Tree.Measure

/-!
# How long chains are

Operators of one level in a row make a tree that leans to the left, and so do accesses in a row: a
chain is a path that leads from an operator to its left operand, or from an access to what is
accessed, again and again.

Between two other steps of a path there is at most one chain. So a tree is no higher than its reach
without steps along chains, taken as often as the longest chain has nodes; and it is no less high
than that chain is long.
-/

namespace ScopedScript

/-- How many steps the chain has that begins at an expression. -/
def Expr.leftSteps : Expr → Nat
  | .binary left _ _ _ => left.leftSteps + 1
  | .index base _ _ | .slice base _ _ _ => base.leftSteps + 1
  | .literal _ _ | .var _ _ | .unary _ _ _ | .call _ _ _ _ | .range _ _ _
  | .steppedRange _ _ _ _ => 0

mutual

/-- How many steps the longest chain in an expression has. -/
def Expr.chain : Expr → Nat
  | .literal _ _ | .var _ _ => 0
  | .unary _ operand _ => operand.chain
  | .binary left _ right _ => max (left.leftSteps + 1) (max left.chain right.chain)
  | .call _ arguments _ _ => Expr.chainList arguments
  | .index base position _ => max (base.leftSteps + 1) (max base.chain position.chain)
  | .slice base start stop _ =>
    max (base.leftSteps + 1) (max base.chain (max start.chain stop.chain))
  | .range start stop _ => max start.chain stop.chain
  | .steppedRange start stop step _ => max start.chain (max stop.chain step.chain)

/-- How many steps the longest chain in one of several expressions has. -/
def Expr.chainList : List Expr → Nat
  | [] => 0
  | e :: rest => max e.chain (Expr.chainList rest)

end

mutual

/-- How many steps the longest chain in a statement has. -/
def Statement.chain : Statement → Nat
  | .empty | .breakLoop _ | .continueLoop _ => 0
  | .declaration decl => Expr.chainList decl.parts
  | .assignment _ _ value _ => value.chain
  | .conditional condition body otherwise _ =>
    max condition.chain (max (Statement.chainList body) otherwise.chain)
  | .whileLoop condition body _ => max condition.chain (Statement.chainList body)
  | .forLoop loopVariable iterable body _ =>
    max (Expr.chainList loopVariable.parts) (max iterable.chain (Statement.chainList body))
  | .returnFrom value _ => Expr.chainList value.toList
  | .function decl => decl.chain
  | .expression expr => expr.chain

/-- How many steps the longest chain in further branches has. -/
def Alternative.chain : Alternative → Nat
  | .absent => 0
  | .elseif condition body rest =>
    max condition.chain (max (Statement.chainList body) rest.chain)
  | .otherwise body => Statement.chainList body

/-- How many steps the longest chain in a function has. -/
def FunctionDecl.chain : FunctionDecl → Nat
  | ⟨_, _, params, body, _⟩ =>
    max (Expr.chainList (params.filterMap (·.fallback))) (Statement.chainList body)

/-- How many steps the longest chain in one of several statements has. -/
def Statement.chainList : List Statement → Nat
  | [] => 0
  | s :: rest => max s.chain (Statement.chainList rest)

end

/-- How many steps the longest chain in a program has. -/
def Program.chain (p : Program) : Nat := Statement.chainList p

/-! ## Chains make trees high -/

theorem Expr.leftSteps_lt_height (e : Expr) : e.leftSteps < e.height := by
  induction e using Expr.leftSteps.induct with
  | case1 | case2 | case3 =>
    simp only [Expr.height, Expr.leftSteps, Expr.reach] at *
    omega
  | _ => exact Expr.height_pos _

mutual

theorem Expr.chain_le_reach : (e : Expr) → e.chain ≤ e.reach 1
  | .literal _ _ | .var _ _ => Nat.zero_le _
  | .unary _ operand _ => Nat.le_succ_of_le operand.chain_le_reach
  | .binary left _ right _ => by
    have hsteps := left.leftSteps_lt_height
    have hleft := left.chain_le_reach
    have hright := right.chain_le_reach
    simp only [Expr.chain, Expr.reach, Expr.height] at *
    omega
  | .call _ arguments _ _ => Nat.le_succ_of_le (Expr.chainList_le_reach arguments)
  | .index base position _ => by
    have hsteps := base.leftSteps_lt_height
    have hbase := base.chain_le_reach
    have hposition := position.chain_le_reach
    simp only [Expr.chain, Expr.reach, Expr.height] at *
    omega
  | .slice base start stop _ => by
    have hsteps := base.leftSteps_lt_height
    have hbase := base.chain_le_reach
    have hstart := start.chain_le_reach
    have hstop := stop.chain_le_reach
    simp only [Expr.chain, Expr.reach, Expr.height] at *
    omega
  | .range start stop _ => by
    have hstart := start.chain_le_reach
    have hstop := stop.chain_le_reach
    simp only [Expr.chain, Expr.reach]
    omega
  | .steppedRange start stop step _ => by
    have hstart := start.chain_le_reach
    have hstop := stop.chain_le_reach
    have hstep := step.chain_le_reach
    simp only [Expr.chain, Expr.reach]
    omega

theorem Expr.chainList_le_reach : (es : List Expr) → Expr.chainList es ≤ Expr.reachList 1 es
  | [] => Nat.le_refl _
  | e :: rest => by
    have he := e.chain_le_reach
    have hrest := Expr.chainList_le_reach rest
    simp only [Expr.chainList, Expr.reachList]
    omega

end

mutual

theorem Statement.chain_le_reach : (s : Statement) → s.chain ≤ s.reach 1
  | .empty | .breakLoop _ | .continueLoop _ => Nat.zero_le _
  | .declaration decl => Nat.le_succ_of_le (Expr.chainList_le_reach decl.parts)
  | .assignment _ _ value _ => Nat.le_succ_of_le value.chain_le_reach
  | .conditional condition body otherwise _ => by
    have hcondition := condition.chain_le_reach
    have hbody := Statement.chainList_le_reach body
    have hotherwise := otherwise.chain_le_reach
    simp only [Statement.chain, Statement.reach]
    omega
  | .whileLoop condition body _ => by
    have hcondition := condition.chain_le_reach
    have hbody := Statement.chainList_le_reach body
    simp only [Statement.chain, Statement.reach]
    omega
  | .forLoop loopVariable iterable body _ => by
    have hparts := Expr.chainList_le_reach loopVariable.parts
    have hiterable := iterable.chain_le_reach
    have hbody := Statement.chainList_le_reach body
    simp only [Statement.chain, Statement.reach]
    omega
  | .returnFrom value _ => Nat.le_succ_of_le (Expr.chainList_le_reach value.toList)
  | .function decl => Nat.le_succ_of_le decl.chain_le_reach
  | .expression expr => Nat.le_succ_of_le expr.chain_le_reach

theorem Alternative.chain_le_reach : (otherwise : Alternative) →
    otherwise.chain ≤ otherwise.reach 1
  | .absent => Nat.le_refl _
  | .elseif condition body rest => by
    have hcondition := condition.chain_le_reach
    have hbody := Statement.chainList_le_reach body
    have hrest := rest.chain_le_reach
    simp only [Alternative.chain, Alternative.reach]
    omega
  | .otherwise body => Statement.chainList_le_reach body

theorem FunctionDecl.chain_le_reach : (decl : FunctionDecl) → decl.chain ≤ decl.reach 1
  | ⟨_, _, params, body, _⟩ => by
    have hparams := Expr.chainList_le_reach (params.filterMap (·.fallback))
    have hbody := Statement.chainList_le_reach body
    simp only [FunctionDecl.chain, FunctionDecl.reach]
    omega

theorem Statement.chainList_le_reach : (body : List Statement) →
    Statement.chainList body ≤ Statement.reachList 1 body
  | [] => Nat.le_refl _
  | s :: rest => by
    have hs := s.chain_le_reach
    have hrest := Statement.chainList_le_reach rest
    simp only [Statement.chainList, Statement.reachList]
    omega

end

/-- A program is at least as high as its longest chain is long. -/
theorem Program.chain_le_height (p : Program) : p.chain ≤ p.height :=
  Statement.chainList_le_reach p

/-! ## Nothing else does -/

theorem Expr.leftSteps_le_chain (e : Expr) : e.leftSteps ≤ e.chain := by
  cases e <;> simp only [Expr.leftSteps, Expr.chain] <;> omega

section Upper

variable {n : Nat}

mutual

/-- Between two steps off chains a path has at most one chain. The one that it begins with counts no
more than it has steps. -/
theorem Expr.reach_add_le (e : Expr) (h : e.chain < n) :
    e.reach 1 + n ≤ n * e.reach 0 + e.leftSteps + 1 := by
  match e with
  | .literal _ _ | .var _ _ =>
    simp only [Expr.reach]
    omega
  | .unary _ operand _ =>
    have hoperand := operand.reach_le_mul h
    simp only [Expr.reach, Nat.mul_add]
    omega
  | .binary left _ right _ =>
    simp only [Expr.chain, Nat.max_lt] at h
    have hleft := left.reach_add_le h.2.1
    have hright := right.reach_le_mul h.2.2
    simp only [Expr.reach, Expr.leftSteps, ← Nat.mul_max_mul_left, Nat.mul_add]
    omega
  | .call _ arguments _ _ =>
    have harguments := Expr.reachList_le_mul arguments h
    simp only [Expr.reach, Nat.mul_add]
    omega
  | .index base position _ =>
    simp only [Expr.chain, Nat.max_lt] at h
    have hbase := base.reach_add_le h.2.1
    have hposition := position.reach_le_mul h.2.2
    simp only [Expr.reach, Expr.leftSteps, ← Nat.mul_max_mul_left, Nat.mul_add]
    omega
  | .slice base start stop _ =>
    simp only [Expr.chain, Nat.max_lt] at h
    have hbase := base.reach_add_le h.2.1
    have hstart := start.reach_le_mul h.2.2.1
    have hstop := stop.reach_le_mul h.2.2.2
    simp only [Expr.reach, Expr.leftSteps, ← Nat.mul_max_mul_left, Nat.mul_add]
    omega
  | .range start stop _ =>
    simp only [Expr.chain, Nat.max_lt] at h
    have hstart := start.reach_le_mul h.1
    have hstop := stop.reach_le_mul h.2
    simp only [Expr.reach, ← Nat.mul_max_mul_left, Nat.mul_add]
    omega
  | .steppedRange start stop step _ =>
    simp only [Expr.chain, Nat.max_lt] at h
    have hstart := start.reach_le_mul h.1
    have hstop := stop.reach_le_mul h.2.1
    have hstep := step.reach_le_mul h.2.2
    simp only [Expr.reach, ← Nat.mul_max_mul_left, Nat.mul_add]
    omega

theorem Expr.reach_le_mul (e : Expr) (h : e.chain < n) : e.reach 1 ≤ n * e.reach 0 := by
  have hbegin := e.reach_add_le h
  have hsteps := e.leftSteps_le_chain
  omega

theorem Expr.reachList_le_mul (es : List Expr) (h : Expr.chainList es < n) :
    Expr.reachList 1 es ≤ n * Expr.reachList 0 es := by
  match es with
  | [] => exact Nat.zero_le _
  | e :: rest =>
    simp only [Expr.chainList, Nat.max_lt] at h
    have he := e.reach_le_mul h.1
    have hrest := Expr.reachList_le_mul rest h.2
    simp only [Expr.reachList, ← Nat.mul_max_mul_left]
    omega

end

mutual

theorem Statement.reach_le_mul (s : Statement) (h : s.chain < n) : s.reach 1 ≤ n * s.reach 0 := by
  match s with
  | .empty | .breakLoop _ | .continueLoop _ =>
    simp only [Statement.reach]
    omega
  | .declaration decl =>
    have hparts := Expr.reachList_le_mul decl.parts h
    simp only [Statement.reach, Nat.mul_add]
    omega
  | .assignment _ _ value _ =>
    have hvalue := value.reach_le_mul h
    simp only [Statement.reach, Nat.mul_add]
    omega
  | .conditional condition body otherwise _ =>
    simp only [Statement.chain, Nat.max_lt] at h
    have hcondition := condition.reach_le_mul h.1
    have hbody := Statement.reachList_le_mul body h.2.1
    have hotherwise := otherwise.reach_le_mul h.2.2
    simp only [Statement.reach, ← Nat.mul_max_mul_left, Nat.mul_add]
    omega
  | .whileLoop condition body _ =>
    simp only [Statement.chain, Nat.max_lt] at h
    have hcondition := condition.reach_le_mul h.1
    have hbody := Statement.reachList_le_mul body h.2
    simp only [Statement.reach, ← Nat.mul_max_mul_left, Nat.mul_add]
    omega
  | .forLoop loopVariable iterable body _ =>
    simp only [Statement.chain, Nat.max_lt] at h
    have hparts := Expr.reachList_le_mul loopVariable.parts h.1
    have hiterable := iterable.reach_le_mul h.2.1
    have hbody := Statement.reachList_le_mul body h.2.2
    simp only [Statement.reach, ← Nat.mul_max_mul_left, Nat.mul_add]
    omega
  | .returnFrom value _ =>
    have hvalue := Expr.reachList_le_mul value.toList h
    simp only [Statement.reach, Nat.mul_add]
    omega
  | .function decl =>
    have hdecl := decl.reach_le_mul h
    simp only [Statement.reach, Nat.mul_add]
    omega
  | .expression expr =>
    have hexpr := expr.reach_le_mul h
    simp only [Statement.reach, Nat.mul_add]
    omega

theorem Alternative.reach_le_mul (otherwise : Alternative) (h : otherwise.chain < n) :
    otherwise.reach 1 ≤ n * otherwise.reach 0 := by
  match otherwise with
  | .absent => exact Nat.zero_le _
  | .elseif condition body rest =>
    simp only [Alternative.chain, Nat.max_lt] at h
    have hcondition := condition.reach_le_mul h.1
    have hbody := Statement.reachList_le_mul body h.2.1
    have hrest := rest.reach_le_mul h.2.2
    simp only [Alternative.reach, ← Nat.mul_max_mul_left]
    omega
  | .otherwise body => exact Statement.reachList_le_mul body h

theorem FunctionDecl.reach_le_mul (decl : FunctionDecl) (h : decl.chain < n) :
    decl.reach 1 ≤ n * decl.reach 0 := by
  match decl with
  | ⟨_, _, params, body, _⟩ =>
    simp only [FunctionDecl.chain, Nat.max_lt] at h
    have hparams := Expr.reachList_le_mul (params.filterMap (·.fallback)) h.1
    have hbody := Statement.reachList_le_mul body h.2
    simp only [FunctionDecl.reach, ← Nat.mul_max_mul_left]
    omega

theorem Statement.reachList_le_mul (body : List Statement) (h : Statement.chainList body < n) :
    Statement.reachList 1 body ≤ n * Statement.reachList 0 body := by
  match body with
  | [] => exact Nat.zero_le _
  | s :: rest =>
    simp only [Statement.chainList, Nat.max_lt] at h
    have hs := s.reach_le_mul h.1
    have hrest := Statement.reachList_le_mul rest h.2
    simp only [Statement.reachList, ← Nat.mul_max_mul_left]
    omega

end

end Upper

/-- A program is no higher than its reach without chains, once for each node of its longest one. -/
theorem Program.height_le (p : Program) : p.height ≤ (p.chain + 1) * Program.reach 0 p :=
  Statement.reachList_le_mul p (Nat.lt_succ_self _)

end ScopedScript
