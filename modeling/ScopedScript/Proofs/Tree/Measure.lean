import ScopedScript.Proofs.Tree.Parts

/-!
# How deep trees are

A walk over a tree that calls itself for what lies inside goes as deep as the longest path of nodes.
Some steps of such a path come from signs that follow one another on one level of the source: from
an operator to its left operand, and from an access to what is accessed. How much such a step counts
is a parameter, so that paths can be measured with and without them.

Blocks are measured apart from that: how many of them are around each other.
-/

namespace ScopedScript

/-! ## Paths -/

mutual

/-- The nodes on the longest path through an expression. A step along a chain of operators or
accesses counts `weight`. -/
def Expr.reach (weight : Nat) : Expr → Nat
  | .literal _ _ | .var _ _ => 1
  | .unary _ operand _ => operand.reach weight + 1
  | .binary left _ right _ => max (left.reach weight + weight) (right.reach weight + 1)
  | .call _ arguments _ _ => Expr.reachList weight arguments + 1
  | .index base position _ => max (base.reach weight + weight) (position.reach weight + 1)
  | .slice base start stop _ =>
    max (base.reach weight + weight) (max (start.reach weight) (stop.reach weight) + 1)
  | .range start stop _ => max (start.reach weight) (stop.reach weight) + 1
  | .steppedRange start stop step _ =>
    max (start.reach weight) (max (stop.reach weight) (step.reach weight)) + 1

/-- The nodes on the longest path through one of several expressions. -/
def Expr.reachList (weight : Nat) : List Expr → Nat
  | [] => 0
  | e :: rest => max (e.reach weight) (Expr.reachList weight rest)

end

mutual

/-- The nodes on the longest path through a statement. -/
def Statement.reach (weight : Nat) : Statement → Nat
  | .empty | .breakLoop _ | .continueLoop _ => 1
  | .declaration decl => Expr.reachList weight decl.parts + 1
  | .assignment _ _ value _ => value.reach weight + 1
  | .conditional condition body otherwise _ =>
    max (condition.reach weight)
      (max (Statement.reachList weight body) (otherwise.reach weight)) + 1
  | .whileLoop condition body _ =>
    max (condition.reach weight) (Statement.reachList weight body) + 1
  | .forLoop loopVariable iterable body _ =>
    max (Expr.reachList weight loopVariable.parts)
      (max (iterable.reach weight) (Statement.reachList weight body)) + 1
  | .returnFrom value _ => Expr.reachList weight value.toList + 1
  | .function decl => decl.reach weight + 1
  | .expression expr => expr.reach weight + 1

/-- The nodes on the longest path through further branches. They lie next to each other. -/
def Alternative.reach (weight : Nat) : Alternative → Nat
  | .absent => 0
  | .elseif condition body rest =>
    max (condition.reach weight)
      (max (Statement.reachList weight body) (rest.reach weight))
  | .otherwise body => Statement.reachList weight body

/-- The nodes on the longest path through a default or the body of a function. -/
def FunctionDecl.reach (weight : Nat) : FunctionDecl → Nat
  | ⟨_, _, params, body, _⟩ =>
    max (Expr.reachList weight (params.filterMap (·.fallback))) (Statement.reachList weight body)

/-- The nodes on the longest path through one of several statements. -/
def Statement.reachList (weight : Nat) : List Statement → Nat
  | [] => 0
  | s :: rest => max (s.reach weight) (Statement.reachList weight rest)

end

/-- How high an expression is: the nodes on the longest path through it. -/
def Expr.height (e : Expr) : Nat := e.reach 1

/-- How high a statement is. -/
def Statement.height (s : Statement) : Nat := s.reach 1

/-- How high the defaults and the body of a function are. -/
def FunctionDecl.height (decl : FunctionDecl) : Nat := decl.reach 1

/-- The nodes on the longest path through a program. -/
def Program.reach (weight : Nat) (p : Program) : Nat := Statement.reachList weight p

/-- How high a program is. -/
def Program.height (p : Program) : Nat := Program.reach 1 p

/-- The condition of a loop and its body lie next to each other. -/
example (t : Token) :
    Program.height [.whileLoop (.literal (.bool true) t) [.breakLoop t] t] = 2 := by
  cbv

section Reach

variable {weight bound : Nat}

theorem Expr.reachList_le {es : List Expr} :
    Expr.reachList weight es ≤ bound ↔ ∀ e ∈ es, e.reach weight ≤ bound := by
  induction es with
  | nil => simp [Expr.reachList]
  | cons e es ih => rw [Expr.reachList, Nat.max_le, ih, List.forall_mem_cons]

theorem Statement.reachList_le {body : List Statement} :
    Statement.reachList weight body ≤ bound ↔ ∀ s ∈ body, s.reach weight ≤ bound := by
  induction body with
  | nil => simp [Statement.reachList]
  | cons s body ih => rw [Statement.reachList, Nat.max_le, ih, List.forall_mem_cons]

theorem Expr.reach_pos (e : Expr) : 0 < e.reach (weight + 1) := by
  cases e <;> simp only [Expr.reach] <;> omega

end Reach

/-! ## What lies inside is less high -/

theorem Expr.height_pos (e : Expr) : 0 < e.height := e.reach_pos

theorem Expr.height_le_of_mem {e : Expr} {es : List Expr} (he : e ∈ es) :
    e.height ≤ Expr.reachList 1 es :=
  Expr.reachList_le.mp (Nat.le_refl _) e he

theorem Statement.height_le_of_mem {s : Statement} {body : List Statement} (hs : s ∈ body) :
    s.height ≤ Statement.reachList 1 body :=
  Statement.reachList_le.mp (Nat.le_refl _) s hs

theorem Expr.height_parts (e : Expr) : ∀ part ∈ e.parts, part.height < e.height := by
  cases e with
  | literal | var => exact nofun
  | call name arguments isStatement token =>
    intro part hpart
    exact Nat.lt_succ_of_le (Expr.height_le_of_mem hpart)
  | _ =>
    simp only [Expr.parts, Expr.height, Expr.reach, List.forall_mem_cons, List.not_mem_nil,
      false_implies, implies_true, and_true]
    omega

theorem Alternative.height_parts (otherwise : Alternative) :
    ∀ e ∈ otherwise.parts, e.height ≤ otherwise.reach 1 := by
  induction otherwise using Alternative.parts.induct with
  | case1 | case2 body => exact nofun
  | case3 condition body rest ih =>
    simp only [Alternative.parts, Alternative.reach, List.forall_mem_cons]
    refine ⟨Nat.le_max_left _ _, fun e he => ?_⟩
    have hrest := ih e he
    omega

theorem Alternative.height_inner (otherwise : Alternative) :
    ∀ s ∈ otherwise.inner, s.height ≤ otherwise.reach 1 := by
  induction otherwise using Alternative.inner.induct with
  | case1 => exact nofun
  | case2 condition body rest ih =>
    simp only [Alternative.inner, Alternative.reach, List.forall_mem_append]
    refine ⟨fun s hs => ?_, fun s hs => ?_⟩
    · have hbody := Statement.height_le_of_mem hs
      omega
    · have hrest := ih s hs
      omega
  | case3 body => exact fun s hs => Statement.height_le_of_mem hs

theorem Statement.height_parts (s : Statement) : ∀ e ∈ s.parts, e.height < s.height := by
  cases s with
  | empty | breakLoop | continueLoop | function => exact nofun
  | declaration decl | returnFrom value token =>
    intro e he
    exact Nat.lt_succ_of_le (Expr.height_le_of_mem he)
  | assignment target op value token | expression expr | whileLoop condition body token =>
    simp only [Statement.parts, Expr.height, Statement.height, Statement.reach,
      List.forall_mem_singleton]
    omega
  | conditional condition body otherwise token =>
    simp only [Statement.parts, Statement.height, Statement.reach, List.forall_mem_cons]
    refine ⟨by unfold Expr.height; omega, fun e he => ?_⟩
    have hrest := otherwise.height_parts e he
    omega
  | forLoop loopVariable iterable body token =>
    simp only [Statement.parts, Statement.height, Statement.reach, List.forall_mem_cons]
    refine ⟨by unfold Expr.height; omega, fun e he => ?_⟩
    have hpart := iterable.height_parts e he
    unfold Expr.height at hpart ⊢
    omega

theorem Statement.height_inner (s : Statement) : ∀ s' ∈ s.inner, s'.height < s.height := by
  cases s with
  | conditional condition body otherwise token =>
    simp only [Statement.inner, List.forall_mem_append, Statement.height, Statement.reach]
    refine ⟨fun s' hs' => ?_, fun s' hs' => ?_⟩
    · have hbody := Statement.height_le_of_mem hs'
      unfold Statement.height at hbody
      omega
    · have hrest := otherwise.height_inner s' hs'
      unfold Statement.height at hrest
      omega
  | whileLoop condition body token | forLoop loopVariable iterable body token =>
    simp only [Statement.inner, Statement.height, Statement.reach]
    intro s' hs'
    have hbody := Statement.height_le_of_mem hs'
    unfold Statement.height at hbody
    omega
  | _ => exact nofun

theorem Statement.height_pos (s : Statement) : 0 < s.height := by
  cases s <;> simp only [Statement.height, Statement.reach] <;> omega

theorem FunctionDecl.height_parts (decl : FunctionDecl) :
    ∀ e ∈ decl.parts, e.height ≤ decl.height := by
  obtain ⟨returns, name, params, body, token⟩ := decl
  intro e he
  exact Nat.le_trans (Expr.height_le_of_mem he) (Nat.le_max_left _ _)

theorem FunctionDecl.height_body (decl : FunctionDecl) :
    ∀ s ∈ decl.body, s.height ≤ decl.height := by
  obtain ⟨returns, name, params, body, token⟩ := decl
  intro s hs
  exact Nat.le_trans (Statement.height_le_of_mem hs) (Nat.le_max_right _ _)

theorem Statement.height_function (decl : FunctionDecl) :
    decl.height < (Statement.function decl).height := by
  simp only [Statement.height, Statement.reach, FunctionDecl.height, Nat.lt_succ_self]

/-! ## Blocks -/

mutual

/-- How many blocks are around each other in a statement. -/
def Statement.nesting : Statement → Nat
  | .conditional _ body otherwise _ => max (Statement.nestingList body + 1) otherwise.nesting
  | .whileLoop _ body _ | .forLoop _ _ body _ => Statement.nestingList body + 1
  | .function decl => decl.nesting
  | .empty | .declaration _ | .assignment _ _ _ _ | .breakLoop _ | .continueLoop _
  | .returnFrom _ _ | .expression _ => 0

/-- How many blocks are around each other in further branches. -/
def Alternative.nesting : Alternative → Nat
  | .absent => 0
  | .elseif _ body rest => max (Statement.nestingList body + 1) rest.nesting
  | .otherwise body => Statement.nestingList body + 1

/-- How many blocks are around each other in a function, whose body is one. -/
def FunctionDecl.nesting : FunctionDecl → Nat
  | ⟨_, _, _, body, _⟩ => Statement.nestingList body + 1

/-- How many blocks are around each other in one of several statements. -/
def Statement.nestingList : List Statement → Nat
  | [] => 0
  | s :: rest => max s.nesting (Statement.nestingList rest)

end

/-- How many blocks are around each other in a program. -/
def Program.nesting (p : Program) : Nat := Statement.nestingList p

theorem Statement.nestingList_le {body : List Statement} {bound : Nat} :
    Statement.nestingList body ≤ bound ↔ ∀ s ∈ body, s.nesting ≤ bound := by
  induction body with
  | nil => simp [Statement.nestingList]
  | cons s body ih => rw [Statement.nestingList, Nat.max_le, ih, List.forall_mem_cons]

theorem Statement.nesting_le_of_mem {s : Statement} {body : List Statement} (hs : s ∈ body) :
    s.nesting ≤ Statement.nestingList body :=
  Statement.nestingList_le.mp (Nat.le_refl _) s hs

theorem Alternative.nesting_inner (otherwise : Alternative) :
    ∀ s ∈ otherwise.inner, s.nesting < otherwise.nesting := by
  induction otherwise using Alternative.inner.induct with
  | case1 => exact nofun
  | case2 condition body rest ih =>
    simp only [Alternative.inner, Alternative.nesting, List.forall_mem_append]
    refine ⟨fun s hs => ?_, fun s hs => ?_⟩
    · have hbody := Statement.nesting_le_of_mem hs
      omega
    · have hrest := ih s hs
      omega
  | case3 body => exact fun s hs => Nat.lt_succ_of_le (Statement.nesting_le_of_mem hs)

theorem Statement.nesting_inner (s : Statement) : ∀ s' ∈ s.inner, s'.nesting < s.nesting := by
  cases s with
  | conditional condition body otherwise token =>
    simp only [Statement.inner, List.forall_mem_append, Statement.nesting]
    refine ⟨fun s' hs' => ?_, fun s' hs' => ?_⟩
    · have hbody := Statement.nesting_le_of_mem hs'
      omega
    · have hrest := otherwise.nesting_inner s' hs'
      omega
  | whileLoop condition body token | forLoop loopVariable iterable body token =>
    exact fun s' hs' => Nat.lt_succ_of_le (Statement.nesting_le_of_mem hs')
  | _ => exact nofun

theorem Statement.nesting_pos (s : Statement) (h : s.isCompound) : 0 < s.nesting := by
  cases s with
  | conditional condition body otherwise token =>
    exact Nat.lt_of_lt_of_le (Nat.succ_pos _) (Nat.le_max_left _ _)
  | whileLoop condition body token | forLoop loopVariable iterable body token =>
    exact Nat.succ_pos _
  | _ => cases h

theorem FunctionDecl.nesting_pos (decl : FunctionDecl) : 0 < decl.nesting := by
  obtain ⟨returns, name, params, body, token⟩ := decl
  exact Nat.succ_pos _

theorem FunctionDecl.nesting_body (decl : FunctionDecl) :
    ∀ s ∈ decl.body, s.nesting < decl.nesting := by
  obtain ⟨returns, name, params, body, token⟩ := decl
  exact fun s hs => Nat.lt_succ_of_le (Statement.nesting_le_of_mem hs)

/-! ## Loops -/

mutual

/-- Whether there is no `while` loop in a statement, in functions neither. -/
def Statement.whileFree : Statement → Bool
  | .whileLoop _ _ _ => false
  | .conditional _ body otherwise _ => Statement.whileFreeList body && otherwise.whileFree
  | .forLoop _ _ body _ => Statement.whileFreeList body
  | .function decl => decl.whileFree
  | .empty | .declaration _ | .assignment _ _ _ _ | .breakLoop _ | .continueLoop _
  | .returnFrom _ _ | .expression _ => true

/-- Whether there is no `while` loop in further branches. -/
def Alternative.whileFree : Alternative → Bool
  | .absent => true
  | .elseif _ body rest => Statement.whileFreeList body && rest.whileFree
  | .otherwise body => Statement.whileFreeList body

/-- Whether there is no `while` loop in a function. -/
def FunctionDecl.whileFree : FunctionDecl → Bool
  | ⟨_, _, _, body, _⟩ => Statement.whileFreeList body

/-- Whether there is no `while` loop in any of several statements. -/
def Statement.whileFreeList : List Statement → Bool
  | [] => true
  | s :: rest => s.whileFree && Statement.whileFreeList rest

end

/-- Whether there is no `while` loop in a program, in functions neither. -/
def Program.whileFree (p : Program) : Bool := Statement.whileFreeList p

theorem Statement.whileFreeList_iff {body : List Statement} :
    Statement.whileFreeList body ↔ ∀ s ∈ body, s.whileFree := by
  induction body with
  | nil => simp [Statement.whileFreeList]
  | cons s body ih =>
    rw [Statement.whileFreeList, Bool.and_eq_true, ih, List.forall_mem_cons]

theorem Alternative.whileFree_inner {otherwise : Alternative} (h : otherwise.whileFree) :
    ∀ s ∈ otherwise.inner, s.whileFree := by
  induction otherwise using Alternative.inner.induct with
  | case1 => exact nofun
  | case2 condition body rest ih =>
    rw [Alternative.whileFree, Bool.and_eq_true, Statement.whileFreeList_iff] at h
    exact List.forall_mem_append.mpr ⟨h.1, ih h.2⟩
  | case3 body => exact Statement.whileFreeList_iff.mp h

theorem Statement.whileFree_inner {s : Statement} (h : s.whileFree) :
    ∀ s' ∈ s.inner, s'.whileFree := by
  cases s with
  | conditional condition body otherwise token =>
    rw [Statement.whileFree, Bool.and_eq_true, Statement.whileFreeList_iff] at h
    exact List.forall_mem_append.mpr ⟨h.1, Alternative.whileFree_inner h.2⟩
  | whileLoop condition body token => cases h
  | forLoop loopVariable iterable body token => exact Statement.whileFreeList_iff.mp h
  | _ => exact nofun

theorem FunctionDecl.whileFree_body {decl : FunctionDecl} (h : decl.whileFree) :
    ∀ s ∈ decl.body, s.whileFree := by
  obtain ⟨returns, name, params, body, token⟩ := decl
  exact Statement.whileFreeList_iff.mp h

end ScopedScript
