import ScopedScript.Tree

/-!
# Trees read from other places

The same program can be read from another text: then its tokens are others, and so are the positions
that they are reported at. A relabeling says which token stands in the place of which. It moves
every position in the same way, wherever the token is; a position that is reported is that of some
token.
-/

namespace ScopedScript

/-- Other tokens for the tokens of a tree. -/
structure Relabeling where
  token : Token → Token
  position : Position → Position
  /-- The position of a token moves as positions do. -/
  position_token : ∀ t : Token, (token t).position = position t.position

/-- Every token stands in its own place. -/
def Relabeling.keep : Relabeling := ⟨id, id, fun _ => rfl⟩

attribute [simp] Relabeling.position_token

@[simp] theorem Relabeling.keep_token (t : Token) : Relabeling.keep.token t = t := rfl

@[simp] theorem Relabeling.keep_position (position : Position) :
    Relabeling.keep.position position = position := rfl

/-- A fault that is reported at another position. -/
def Diagnostic.relabel {Cause : Type} (f : Relabeling) (d : Diagnostic Cause) :
    Diagnostic Cause :=
  ⟨d.cause, f.position d.position⟩

/-! ## Expressions and declarations -/

mutual

/-- An expression with other tokens. -/
def Expr.relabel (f : Relabeling) : Expr → Expr
  | .literal value token => .literal value (f.token token)
  | .var name token => .var name (f.token token)
  | .unary op operand token => .unary op (operand.relabel f) (f.token token)
  | .binary left op right token =>
    .binary (left.relabel f) op (right.relabel f) (f.token token)
  | .call name arguments isStatement token =>
    .call name (Expr.relabelList f arguments) isStatement (f.token token)
  | .index base position token =>
    .index (base.relabel f) (position.relabel f) (f.token token)
  | .slice base start stop token =>
    .slice (base.relabel f) (start.relabel f) (stop.relabel f) (f.token token)
  | .range start stop token => .range (start.relabel f) (stop.relabel f) (f.token token)
  | .steppedRange start stop step token =>
    .steppedRange (start.relabel f) (stop.relabel f) (step.relabel f) (f.token token)

/-- Expressions with other tokens. -/
def Expr.relabelList (f : Relabeling) : List Expr → List Expr
  | [] => []
  | e :: rest => e.relabel f :: Expr.relabelList f rest

end

/-- A declared type with another token. -/
def DeclaredType.relabel (f : Relabeling) (declared : DeclaredType) : DeclaredType :=
  ⟨declared.type, f.token declared.token⟩

/-- A declared result with another token. -/
def DeclaredResult.relabel (f : Relabeling) (declared : DeclaredResult) : DeclaredResult :=
  ⟨declared.type, f.token declared.token⟩

/-- A declared variable with other tokens. -/
def Declarator.relabel (f : Relabeling) (d : Declarator) : Declarator :=
  ⟨d.name, d.initializer.map (Expr.relabel f), f.token d.token⟩

/-- A declaration with other tokens. -/
def VarDecl.relabel (f : Relabeling) (decl : VarDecl) : VarDecl :=
  ⟨decl.declared.relabel f, decl.declarators.map (Declarator.relabel f)⟩

/-- A parameter with other tokens. -/
def Param.relabel (f : Relabeling) (param : Param) : Param :=
  ⟨param.declared.relabel f, param.name, param.fallback.map (Expr.relabel f),
    f.token param.token⟩

/-! ## Statements -/

mutual

/-- A statement with other tokens. -/
def Statement.relabel (f : Relabeling) : Statement → Statement
  | .empty => .empty
  | .declaration decl => .declaration (decl.relabel f)
  | .assignment target op value token => .assignment target op (value.relabel f) (f.token token)
  | .conditional condition body otherwise token =>
    .conditional (condition.relabel f) (Statement.relabelList f body) (otherwise.relabel f)
      (f.token token)
  | .whileLoop condition body token =>
    .whileLoop (condition.relabel f) (Statement.relabelList f body) (f.token token)
  | .forLoop loopVariable iterable body token =>
    .forLoop (loopVariable.relabel f) (iterable.relabel f) (Statement.relabelList f body)
      (f.token token)
  | .breakLoop token => .breakLoop (f.token token)
  | .continueLoop token => .continueLoop (f.token token)
  | .returnFrom value token => .returnFrom (value.map (Expr.relabel f)) (f.token token)
  | .function decl => .function (decl.relabel f)
  | .expression expr => .expression (expr.relabel f)

/-- Further branches with other tokens. -/
def Alternative.relabel (f : Relabeling) : Alternative → Alternative
  | .absent => .absent
  | .elseif condition body rest =>
    .elseif (condition.relabel f) (Statement.relabelList f body) (rest.relabel f)
  | .otherwise body => .otherwise (Statement.relabelList f body)

/-- A function with other tokens. -/
def FunctionDecl.relabel (f : Relabeling) : FunctionDecl → FunctionDecl
  | ⟨returns, name, params, body, token⟩ =>
    ⟨returns.relabel f, name, params.map (Param.relabel f), Statement.relabelList f body,
      f.token token⟩

/-- Statements with other tokens. -/
def Statement.relabelList (f : Relabeling) : List Statement → List Statement
  | [] => []
  | s :: rest => s.relabel f :: Statement.relabelList f rest

end

variable (f : Relabeling)

@[simp] theorem Expr.relabelList_eq_map (es : List Expr) :
    Expr.relabelList f es = es.map (Expr.relabel f) := by
  induction es with
  | nil => rfl
  | cons e es ih => rw [Expr.relabelList, ih, List.map_cons]

@[simp] theorem Statement.relabelList_eq_map (body : List Statement) :
    Statement.relabelList f body = body.map (Statement.relabel f) := by
  induction body with
  | nil => rfl
  | cons s body ih => rw [Statement.relabelList, ih, List.map_cons]

@[simp] theorem Expr.position_relabel (e : Expr) :
    (e.relabel f).position = f.position e.position := by
  cases e <;> exact f.position_token _

/-! What a function is apart from its tokens stays. -/

section Function

variable (decl : FunctionDecl)

@[simp] theorem FunctionDecl.relabel_name : (decl.relabel f).name = decl.name := by
  obtain ⟨⟩ := decl
  rfl

@[simp] theorem FunctionDecl.relabel_returns :
    (decl.relabel f).returns = decl.returns.relabel f := by
  obtain ⟨⟩ := decl
  rfl

@[simp] theorem FunctionDecl.relabel_params :
    (decl.relabel f).params = decl.params.map (Param.relabel f) := by
  obtain ⟨⟩ := decl
  rfl

@[simp] theorem FunctionDecl.relabel_body :
    (decl.relabel f).body = decl.body.map (Statement.relabel f) := by
  obtain ⟨⟩ := decl
  rw [FunctionDecl.relabel, Statement.relabelList_eq_map]

@[simp] theorem FunctionDecl.relabel_token : (decl.relabel f).token = f.token decl.token := by
  obtain ⟨⟩ := decl
  rfl

@[simp] theorem FunctionDecl.relabel_arity : (decl.relabel f).arity = decl.arity := by
  have hmissing : ((fun p => p.fallback.isNone) ∘ Param.relabel f : Param → Bool) =
      fun p => p.fallback.isNone := by
    funext p
    exact Option.isNone_map
  simp only [FunctionDecl.arity, FunctionDecl.relabel_params, List.length_map, List.filter_map,
    hmissing]

end Function

/-! ## The same tokens -/

mutual

@[simp] theorem Expr.relabel_keep (e : Expr) : e.relabel .keep = e := by
  cases e with
  | literal | var => rfl
  | unary op operand token => rw [Expr.relabel, operand.relabel_keep, Relabeling.keep_token]
  | binary left op right token =>
    rw [Expr.relabel, left.relabel_keep, right.relabel_keep, Relabeling.keep_token]
  | call name arguments isStatement token =>
    rw [Expr.relabel, Expr.relabelList_keep arguments, Relabeling.keep_token]
  | index base position token =>
    rw [Expr.relabel, base.relabel_keep, position.relabel_keep, Relabeling.keep_token]
  | slice base start stop token =>
    rw [Expr.relabel, base.relabel_keep, start.relabel_keep, stop.relabel_keep,
      Relabeling.keep_token]
  | range start stop token =>
    rw [Expr.relabel, start.relabel_keep, stop.relabel_keep, Relabeling.keep_token]
  | steppedRange start stop step token =>
    rw [Expr.relabel, start.relabel_keep, stop.relabel_keep, step.relabel_keep,
      Relabeling.keep_token]

theorem Expr.relabelList_keep (es : List Expr) : Expr.relabelList .keep es = es := by
  cases es with
  | nil => rfl
  | cons e es => rw [Expr.relabelList, e.relabel_keep, Expr.relabelList_keep es]

end

theorem Expr.relabel_keep_eq_id : Expr.relabel .keep = id := funext Expr.relabel_keep

@[simp] theorem Declarator.relabel_keep (d : Declarator) : d.relabel .keep = d := by
  rw [Declarator.relabel, Expr.relabel_keep_eq_id, Option.map_id]
  rfl

@[simp] theorem VarDecl.relabel_keep (decl : VarDecl) : decl.relabel .keep = decl := by
  have hdeclarators : Declarator.relabel .keep = id := funext Declarator.relabel_keep
  rw [VarDecl.relabel, hdeclarators, List.map_id]
  rfl

@[simp] theorem Param.relabel_keep (p : Param) : p.relabel .keep = p := by
  rw [Param.relabel, Expr.relabel_keep_eq_id, Option.map_id]
  rfl

mutual

@[simp] theorem Statement.relabel_keep (s : Statement) : s.relabel .keep = s := by
  cases s with
  | empty | breakLoop | continueLoop => rfl
  | declaration decl => rw [Statement.relabel, decl.relabel_keep]
  | assignment target op value token =>
    rw [Statement.relabel, value.relabel_keep, Relabeling.keep_token]
  | conditional condition body otherwise token =>
    rw [Statement.relabel, condition.relabel_keep, Statement.relabelList_keep body,
      otherwise.relabel_keep, Relabeling.keep_token]
  | whileLoop condition body token =>
    rw [Statement.relabel, condition.relabel_keep, Statement.relabelList_keep body,
      Relabeling.keep_token]
  | forLoop loopVariable iterable body token =>
    rw [Statement.relabel, loopVariable.relabel_keep, iterable.relabel_keep,
      Statement.relabelList_keep body, Relabeling.keep_token]
  | returnFrom value token =>
    rw [Statement.relabel, Expr.relabel_keep_eq_id, Option.map_id, Relabeling.keep_token]
    rfl
  | function decl => rw [Statement.relabel, decl.relabel_keep]
  | expression expr => rw [Statement.relabel, expr.relabel_keep]

@[simp] theorem Alternative.relabel_keep (otherwise : Alternative) :
    otherwise.relabel .keep = otherwise := by
  cases otherwise with
  | absent => rfl
  | elseif condition body rest =>
    rw [Alternative.relabel, condition.relabel_keep, Statement.relabelList_keep body,
      rest.relabel_keep]
  | otherwise body => rw [Alternative.relabel, Statement.relabelList_keep body]

@[simp] theorem FunctionDecl.relabel_keep (decl : FunctionDecl) : decl.relabel .keep = decl := by
  obtain ⟨returns, name, params, body, token⟩ := decl
  have hparams : Param.relabel .keep = id := funext Param.relabel_keep
  rw [FunctionDecl.relabel, Statement.relabelList_keep body, hparams, List.map_id]
  rfl

theorem Statement.relabelList_keep (body : List Statement) :
    Statement.relabelList .keep body = body := by
  cases body with
  | nil => rfl
  | cons s body => rw [Statement.relabelList, s.relabel_keep, Statement.relabelList_keep body]

end

@[simp] theorem Statement.map_relabel_keep (body : List Statement) :
    body.map (Statement.relabel .keep) = body := by
  rw [← Statement.relabelList_eq_map, Statement.relabelList_keep]

end ScopedScript
