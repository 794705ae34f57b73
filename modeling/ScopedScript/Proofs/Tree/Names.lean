import ScopedScript.Proofs.RoundTrip.Tree

/-!
# Names in a tree

The names that a tree declares, reads, assigns and calls. In a tree that is derived from tokens each
of them is a word, as long as the identifiers among the tokens are.
-/

namespace ScopedScript

/-! ## Expressions and declarations -/

mutual

/-- The names in an expression. -/
def Expr.names : Expr → List String
  | .literal _ _ => []
  | .var name _ => [name]
  | .unary _ operand _ => operand.names
  | .binary left _ right _ => left.names ++ right.names
  | .call name arguments _ _ => name :: Expr.namesList arguments
  | .index base position _ => base.names ++ position.names
  | .slice base start stop _ => base.names ++ (start.names ++ stop.names)
  | .range start stop _ => start.names ++ stop.names
  | .steppedRange start stop step _ => start.names ++ (stop.names ++ step.names)

/-- The names in expressions. -/
def Expr.namesList : List Expr → List String
  | [] => []
  | e :: rest => e.names ++ Expr.namesList rest

end

/-- The names in an expression that can be missing. -/
def Expr.namesOption : Option Expr → List String
  | none => []
  | some e => e.names

/-- The names in a declared variable: its own, and those in its first value. -/
def Declarator.names (d : Declarator) : List String := d.name :: Expr.namesOption d.initializer

/-- The names in a declaration. -/
def VarDecl.names (decl : VarDecl) : List String := decl.declarators.flatMap Declarator.names

/-- The names in a parameter: its own, and those in its default. -/
def Param.names (p : Param) : List String := p.name :: Expr.namesOption p.fallback

/-! ## Statements -/

mutual

/-- The names in a statement. -/
def Statement.names : Statement → List String
  | .empty | .breakLoop _ | .continueLoop _ => []
  | .declaration decl => decl.names
  | .assignment target _ value _ => target :: value.names
  | .conditional condition body otherwise _ =>
    condition.names ++ (Statement.namesList body ++ otherwise.names)
  | .whileLoop condition body _ => condition.names ++ Statement.namesList body
  | .forLoop loopVariable iterable body _ =>
    iterable.names ++ (loopVariable.names ++ Statement.namesList body)
  | .returnFrom value _ => Expr.namesOption value
  | .function decl => decl.names
  | .expression expr => expr.names

/-- The names in further branches. -/
def Alternative.names : Alternative → List String
  | .absent => []
  | .elseif condition body rest => condition.names ++ (Statement.namesList body ++ rest.names)
  | .otherwise body => Statement.namesList body

/-- The names in a function: its own, and those in its parameters and its body. -/
def FunctionDecl.names : FunctionDecl → List String
  | ⟨_, name, params, body, _⟩ => name :: (params.flatMap Param.names ++ Statement.namesList body)

/-- The names in statements. -/
def Statement.namesList : List Statement → List String
  | [] => []
  | s :: rest => s.names ++ Statement.namesList rest

end

theorem Expr.names_asStatement (e : Expr) : e.asStatement.names = e.names := by
  cases e <;> rfl

/-! ## Trees that are derived from tokens -/

/-- All identifiers among tokens are words. -/
abbrev Grammar.Worded (ts : List Token) : Prop :=
  ∀ token ∈ ts, ∀ name, token.kind = .identifier name → IsWord name

namespace Grammar

/-- The types that values are converted to are words as well. -/
theorem IsCallee.isWord {kind : TokenKind} {name : String} (h : IsCallee kind name)
    (hkind : ∀ name, kind = .identifier name → IsWord name) : IsWord name := by
  cases h with
  | identifier _ => exact hkind _ rfl
  | @conversion word _ => cases word <;> exact ⟨_, _, rfl, by decide, by decide⟩

mutual

theorem IsExpression.isWord {room : Nat} {ts : List Token} {e : Expr} :
    IsExpression room ts e → Worded ts → ∀ name ∈ e.names, IsWord name
  | .nested h, hts => h.isWord hts

theorem IsLevel.isWord {level room : Nat} {ts : List Token} {e : Expr} :
    IsLevel level room ts e → Worded ts → ∀ name ∈ e.names, IsWord name
  | .operand h, hts => h.isWord hts
  | .tighter _ h, hts => h.isWord hts
  | .binary _ _ hleft hright, hts => by
    simp only [Worded, List.forall_mem_append, List.forall_mem_cons] at hts
    exact List.forall_mem_append.mpr ⟨hleft.isWord hts.1, hright.isWord hts.2.2⟩

theorem IsOperand.isWord {room : Nat} {ts : List Token} {e : Expr} :
    IsOperand room ts e → Worded ts → ∀ name ∈ e.names, IsWord name
  | .atom h, hts => h.isWord hts
  | .unary _ h, hts => h.isWord (List.forall_mem_cons.mp hts).2

theorem IsAtom.isWord {room : Nat} {ts : List Token} {e : Expr} :
    IsAtom room ts e → Worded ts → ∀ name ∈ e.names, IsWord name
  | .literal _, _ => List.forall_mem_nil _
  | .var h, hts => List.forall_mem_singleton.mpr (List.forall_mem_singleton.mp hts _ h)
  | .call hname _ h, hts => by
    simp only [Worded, List.forall_mem_cons] at hts
    exact List.forall_mem_cons.mpr ⟨hname.isWord hts.1, h.isWord hts.2.2⟩
  | .group _ h _, hts => by
    simp only [Worded, List.forall_mem_append, List.forall_mem_cons] at hts
    exact h.isWord hts.1.2
  | .index hbase _ h _, hts => by
    simp only [Worded, List.forall_mem_append, List.forall_mem_cons] at hts
    exact List.forall_mem_append.mpr ⟨hbase.isWord hts.1.1, h.isWord hts.1.2.2⟩
  | .slice hbase _ hstart _ hstop _, hts => by
    simp only [Worded, List.forall_mem_append, List.forall_mem_cons] at hts
    exact List.forall_mem_append.mpr ⟨hbase.isWord hts.1.1.1,
      List.forall_mem_append.mpr ⟨hstart.isWord hts.1.1.2.2, hstop.isWord hts.1.2.2⟩⟩

theorem IsArguments.isWord {room : Nat} {ts : List Token} {es : List Expr} :
    IsArguments room ts es → Worded ts → ∀ name ∈ Expr.namesList es, IsWord name
  | .empty _, _ => List.forall_mem_nil _
  | .items h hrest _, hts => by
    simp only [Worded, List.forall_mem_append] at hts
    exact List.forall_mem_append.mpr ⟨h.isWord hts.1.1, hrest.isWord hts.1.2⟩

theorem IsMoreArguments.isWord {room : Nat} {ts : List Token} {es : List Expr} :
    IsMoreArguments room ts es → Worded ts → ∀ name ∈ Expr.namesList es, IsWord name
  | .nil, _ => List.forall_mem_nil _
  | .cons _ h hrest, hts => by
    simp only [Worded, List.forall_mem_append, List.forall_mem_cons] at hts
    exact List.forall_mem_append.mpr ⟨h.isWord hts.1.2, hrest.isWord hts.2⟩

end

section Parts

variable {room : Nat} {ts : List Token}

theorem IsIterable.isWord {e : Expr} (h : IsIterable room ts e) (hts : Worded ts) :
    ∀ name ∈ e.names, IsWord name := by
  cases h with
  | expression h => exact h.isWord hts
  | range hstart _ hstop =>
    simp only [Worded, List.forall_mem_append, List.forall_mem_cons] at hts
    exact List.forall_mem_append.mpr ⟨hstart.isWord hts.1, hstop.isWord hts.2.2⟩
  | steppedRange hstart _ hstop _ hstep =>
    simp only [Worded, List.forall_mem_append, List.forall_mem_cons] at hts
    exact List.forall_mem_append.mpr ⟨hstart.isWord hts.1.1,
      List.forall_mem_append.mpr ⟨hstop.isWord hts.1.2.2, hstep.isWord hts.2.2⟩⟩

theorem IsInitializer.isWord {value : Option Expr} (h : IsInitializer room ts value)
    (hts : Worded ts) : ∀ name ∈ Expr.namesOption value, IsWord name := by
  cases h with
  | absent => exact List.forall_mem_nil _
  | given _ h => exact h.isWord (List.forall_mem_cons.mp hts).2

/-- A declared name and the names in its value. -/
theorem IsInitializer.isWord_declared {token : Token} {name : String} {value : Option Expr}
    (h : IsInitializer room ts value) (hname : token.kind = .identifier name)
    (hts : Worded (token :: ts)) : ∀ other ∈ name :: Expr.namesOption value, IsWord other := by
  obtain ⟨hword, hts⟩ := List.forall_mem_cons.mp hts
  exact List.forall_mem_cons.mpr ⟨hword name hname, h.isWord hts⟩

theorem IsDeclarator.isWord {d : Declarator} (h : IsDeclarator room ts d) (hts : Worded ts) :
    ∀ name ∈ d.names, IsWord name := by
  cases h with
  | named hname h => exact h.isWord_declared hname hts

theorem IsVarDecl.isWord {decl : VarDecl} (h : IsVarDecl room ts decl) (hts : Worded ts) :
    ∀ name ∈ decl.names, IsWord name := by
  cases h with
  | typed _ h hrest =>
    simp only [Worded, List.forall_mem_append] at hts
    refine List.forall_mem_append.mpr ⟨h.isWord hts.1.2, fun name hname => ?_⟩
    obtain ⟨d, hd, hname⟩ := List.mem_flatMap.mp hname
    obtain ⟨us, hus, hderived⟩ := hrest.exists_item d hd
    exact hderived.isWord (fun token htoken => hts.2 token (hus htoken)) name hname

theorem IsParameter.isWord {param : Param} (h : IsParameter room ts param) (hts : Worded ts) :
    ∀ name ∈ param.names, IsWord name := by
  cases h with
  | typed _ hname h => exact h.isWord_declared hname (List.forall_mem_append.mp hts).2

theorem IsList.isWord_parameters {params : List Param}
    (h : IsList (IsParameter room) .rightParen ts params) (hts : Worded ts) :
    ∀ name ∈ params.flatMap Param.names, IsWord name := by
  intro name hname
  obtain ⟨param, hparam, hname⟩ := List.mem_flatMap.mp hname
  obtain ⟨us, hus, hderived⟩ := h.exists_item param hparam
  exact hderived.isWord (fun token htoken => hts token (hus htoken)) name hname

end Parts

mutual

theorem IsStatement.isWord {room : Nat} {ts : List Token} {s : Statement} :
    IsStatement room ts s → Worded ts → ∀ name ∈ s.names, IsWord name
  | .empty _, _ | .breakLoop _ _, _ | .continueLoop _ _, _ | .returnNothing _ _, _ =>
    List.forall_mem_nil _
  | .declaration h _, hts => h.isWord (List.forall_mem_append.mp hts).1
  | .assignment htarget _ h _, hts => by
    simp only [Worded, List.forall_mem_append, List.forall_mem_cons] at hts
    exact List.forall_mem_cons.mpr ⟨hts.1.1 _ htarget, h.isWord hts.1.2.2⟩
  | .conditional _ hcondition hbody hotherwise, hts => by
    simp only [Worded, List.forall_mem_append, List.forall_mem_cons] at hts
    exact List.forall_mem_append.mpr ⟨hcondition.isWord hts.1.1.2,
      List.forall_mem_append.mpr ⟨hbody.isWord hts.1.2, hotherwise.isWord hts.2⟩⟩
  | .whileLoop _ hcondition hbody, hts => by
    simp only [Worded, List.forall_mem_append, List.forall_mem_cons] at hts
    exact List.forall_mem_append.mpr ⟨hcondition.isWord hts.1.2, hbody.isWord hts.2⟩
  | .forLoop _ _ hname _ hiterable hbody, hts => by
    simp only [Worded, List.forall_mem_append, List.forall_mem_cons] at hts
    refine List.forall_mem_append.mpr ⟨hiterable.isWord hts.1.2.2.2,
      List.forall_mem_append.mpr ⟨?_, hbody.isWord hts.2⟩⟩
    exact List.forall_mem_singleton.mpr (hts.1.2.1 _ hname)
  | .returnValue _ h _, hts => by
    simp only [Worded, List.forall_mem_append, List.forall_mem_cons] at hts
    exact h.isWord hts.1.2
  | .function _ hname _ hparams hbody, hts => by
    simp only [Worded, List.forall_mem_append, List.forall_mem_cons] at hts
    exact List.forall_mem_cons.mpr ⟨hts.1.2.1 _ hname,
      List.forall_mem_append.mpr ⟨hparams.isWord_parameters hts.1.2.2.2, hbody.isWord hts.2⟩⟩
  | .expression (e := e) h _, hts => by
    rw [Statement.names, e.names_asStatement]
    exact h.isWord (List.forall_mem_append.mp hts).1

theorem IsAlternative.isWord {room : Nat} {ts : List Token} {otherwise : Alternative} :
    IsAlternative room ts otherwise → Worded ts → ∀ name ∈ otherwise.names, IsWord name
  | .absent, _ => List.forall_mem_nil _
  | .elseif _ hcondition hbody hrest, hts => by
    simp only [Worded, List.forall_mem_append, List.forall_mem_cons] at hts
    exact List.forall_mem_append.mpr ⟨hcondition.isWord hts.1.1.2,
      List.forall_mem_append.mpr ⟨hbody.isWord hts.1.2, hrest.isWord hts.2⟩⟩
  | .otherwise _ hbody, hts => hbody.isWord (List.forall_mem_cons.mp hts).2

theorem IsBlock.isWord {room : Nat} {ts : List Token} {body : List Statement} :
    IsBlock room ts body → Worded ts → ∀ name ∈ Statement.namesList body, IsWord name
  | .nested _ h _, hts => by
    simp only [Worded, List.forall_mem_append, List.forall_mem_cons] at hts
    exact h.isWord hts.1.2

/-- Names of derived statements are words if the identifiers among the tokens are. -/
theorem IsStatements.isWord {room : Nat} {ts : List Token} {body : List Statement} :
    IsStatements room ts body → Worded ts → ∀ name ∈ Statement.namesList body, IsWord name
  | .nil, _ => List.forall_mem_nil _
  | .cons h hrest, hts => by
    obtain ⟨hfirst, hts⟩ := List.forall_mem_append.mp hts
    exact List.forall_mem_append.mpr ⟨h.isWord hfirst, hrest.isWord hts⟩

end

end Grammar

end ScopedScript
