import ScopedScript.Proofs.Grammar

/-!
# The tokens of phrases

What a phrase can begin with, and what it never contains. An expression holds no assignment sign,
which is how the second token of a statement tells an assignment from an expression, and no phrase
holds the end of the source.
-/

namespace ScopedScript.Grammar

/-! ## First tokens -/

/-- Whether an atom can begin with a token. -/
def opensAtom : TokenKind → Bool
  | .literal _ | .identifier _ => true
  | .keyword word => word.type?.isSome
  | .mark sign => sign = .leftParen
  | _ => false

/-- Whether an expression can begin with a token. -/
def opensExpression (kind : TokenKind) : Bool :=
  opensAtom kind || (UnaryOp.ofKind? kind).isSome

/-- Whether a statement can begin with a token. -/
def opensStatement (kind : TokenKind) : Bool :=
  opensExpression kind || match kind with
    | .mark sign => sign = .semicolon
    | .keyword word =>
      word ∈ [.kwVar, .kwIf, .kwWhile, .kwFor, .kwBreak, .kwContinue, .kwReturn, .kwFunc]
    | _ => false

theorem ofKind?_of_opensAtom {kind : TokenKind} (h : opensAtom kind) :
    UnaryOp.ofKind? kind = none := by
  cases kind with
  | keyword word =>
    revert h
    cases word <;> decide
  | mark sign =>
    revert h
    cases sign <;> decide
  | _ => rfl

theorem opensAtom_of_isCallee {kind : TokenKind} {name : String} (h : IsCallee kind name) :
    opensAtom kind := by
  cases h with
  | identifier _ => rfl
  | conversion h => exact h

theorem IsAtom.opens {room : Nat} {ts : List Token} {e : Expr} :
    IsAtom room ts e → ∃ token tail, ts = token :: tail ∧ opensAtom token.kind
  | .literal h => ⟨_, _, rfl, by rw [h]; rfl⟩
  | .var h => ⟨_, _, rfl, by rw [h]; rfl⟩
  | .call hname _ _ => ⟨_, _, rfl, opensAtom_of_isCallee hname⟩
  | .group hparen _ _ => ⟨_, _, rfl, by rw [hparen]; rfl⟩
  | .index hbase _ _ _ | .slice hbase _ _ _ _ _ => by
    obtain ⟨token, tail, rfl, h⟩ := hbase.opens
    exact ⟨token, _, rfl, h⟩

theorem IsOperand.opens {room : Nat} {ts : List Token} {e : Expr} (h : IsOperand room ts e) :
    ∃ token tail, ts = token :: tail ∧ opensExpression token.kind := by
  cases h with
  | atom h =>
    obtain ⟨token, tail, rfl, hopens⟩ := h.opens
    exact ⟨token, tail, rfl, by simp [opensExpression, hopens]⟩
  | unary hop _ => exact ⟨_, _, rfl, by simp [opensExpression, hop]⟩

theorem IsLevel.opens {level room : Nat} {ts : List Token} {e : Expr} :
    IsLevel level room ts e → ∃ token tail, ts = token :: tail ∧ opensExpression token.kind
  | .operand h => h.opens
  | .tighter _ h => h.opens
  | .binary _ _ hleft _ => by
    obtain ⟨token, tail, rfl, h⟩ := hleft.opens
    exact ⟨token, _, rfl, h⟩

theorem IsExpression.opens {room : Nat} {ts : List Token} {e : Expr} (h : IsExpression room ts e) :
    ∃ token tail, ts = token :: tail ∧ opensExpression token.kind := by
  cases h with
  | nested h => exact h.opens

theorem IsExpression.opens_ne {room : Nat} {ts : List Token} {e : Expr} {kind : TokenKind}
    (h : IsExpression room ts e) (hkind : opensExpression kind = false) :
    ∃ token tail, ts = token :: tail ∧ token.kind ≠ kind := by
  obtain ⟨token, tail, rfl, htoken⟩ := h.opens
  refine ⟨token, tail, rfl, ?_⟩
  rintro rfl
  rw [htoken] at hkind
  cases hkind

theorem IsStatement.opens {room : Nat} {ts : List Token} {s : Statement}
    (h : IsStatement room ts s) : ∃ token tail, ts = token :: tail ∧ opensStatement token.kind := by
  cases h with
  | empty h => exact ⟨_, _, rfl, by rw [h]; rfl⟩
  | declaration h _ =>
    cases h with
    | typed htype _ _ =>
      cases htype with
      | named hword _ _ _ => exact ⟨_, _, rfl, by rw [hword]; rfl⟩
  | assignment htarget _ _ _ => exact ⟨_, _, rfl, by rw [htarget]; rfl⟩
  | conditional hword _ _ _ => exact ⟨_, _, rfl, by rw [hword]; rfl⟩
  | whileLoop hword _ _ => exact ⟨_, _, rfl, by rw [hword]; rfl⟩
  | forLoop hword _ _ _ _ _ => exact ⟨_, _, rfl, by rw [hword]; rfl⟩
  | breakLoop hword _ => exact ⟨_, _, rfl, by rw [hword]; rfl⟩
  | continueLoop hword _ => exact ⟨_, _, rfl, by rw [hword]; rfl⟩
  | returnNothing hword _ => exact ⟨_, _, rfl, by rw [hword]; rfl⟩
  | returnValue hword _ _ => exact ⟨_, _, rfl, by rw [hword]; rfl⟩
  | function hreturns _ _ _ _ =>
    cases hreturns with
    | named hword _ _ _ => exact ⟨_, _, rfl, by rw [hword]; rfl⟩
    | void hword _ _ _ => exact ⟨_, _, rfl, by rw [hword]; rfl⟩
  | expression h _ =>
    obtain ⟨token, tail, rfl, hopens⟩ := h.opens
    exact ⟨token, _, rfl, by simp [opensStatement, hopens]⟩

/-! ## Tokens within phrases -/

/-- Tokens that an expression can contain: no assignment and no end of the source. -/
def Inner (kind : TokenKind) : Prop := AssignOp.ofKind? kind = none ∧ kind ≠ .endOfInput

theorem inner_of_binaryOp {kind : TokenKind} {op : BinaryOp} (h : BinaryOp.ofKind? kind = some op) :
    Inner kind := by
  cases kind with
  | mark sign =>
    revert h
    cases sign <;> simp [Inner, BinaryOp.ofKind?, AssignOp.ofKind?]
  | endOfInput => cases h
  | _ => exact ⟨rfl, nofun⟩

theorem inner_of_unaryOp {kind : TokenKind} {op : UnaryOp} (h : UnaryOp.ofKind? kind = some op) :
    Inner kind := by
  cases kind with
  | mark sign =>
    revert h
    cases sign <;> simp [Inner, UnaryOp.ofKind?, AssignOp.ofKind?]
  | endOfInput => cases h
  | _ => exact ⟨rfl, nofun⟩

theorem inner_of_isCallee {kind : TokenKind} {name : String} (h : IsCallee kind name) :
    Inner kind := by
  cases h with
  | identifier _ => exact ⟨rfl, nofun⟩
  | conversion _ => exact ⟨rfl, nofun⟩

theorem inner_of_eq {kind kind' : TokenKind} (h : kind = kind') (hkind : Inner kind') :
    Inner kind := h ▸ hkind

mutual

theorem IsExpression.inner {room : Nat} {ts : List Token} {e : Expr} :
    IsExpression room ts e → ∀ token ∈ ts, Inner token.kind
  | .nested h => h.inner

theorem IsLevel.inner {level room : Nat} {ts : List Token} {e : Expr} :
    IsLevel level room ts e → ∀ token ∈ ts, Inner token.kind
  | .operand h => h.inner
  | .tighter _ h => h.inner
  | .binary hop _ hleft hright => by
    simp only [List.forall_mem_append, List.forall_mem_cons]
    exact ⟨hleft.inner, inner_of_binaryOp hop, hright.inner⟩

theorem IsOperand.inner {room : Nat} {ts : List Token} {e : Expr} :
    IsOperand room ts e → ∀ token ∈ ts, Inner token.kind
  | .atom h => h.inner
  | .unary hop h => List.forall_mem_cons.mpr ⟨inner_of_unaryOp hop, h.inner⟩

theorem IsAtom.inner {room : Nat} {ts : List Token} {e : Expr} :
    IsAtom room ts e → ∀ token ∈ ts, Inner token.kind
  | .literal h | .var h => List.forall_mem_singleton.mpr (inner_of_eq h ⟨rfl, nofun⟩)
  | .call hname hparen h => by
    simp only [List.forall_mem_cons]
    exact ⟨inner_of_isCallee hname, inner_of_eq hparen ⟨rfl, nofun⟩, h.inner⟩
  | .group hparen h hclose => by
    simp only [List.forall_mem_append, List.forall_mem_cons]
    exact ⟨⟨inner_of_eq hparen ⟨rfl, nofun⟩, h.inner⟩, inner_of_eq hclose ⟨rfl, nofun⟩,
      List.forall_mem_nil _⟩
  | .index hbase hbracket h hclose => by
    simp only [List.forall_mem_append, List.forall_mem_cons]
    exact ⟨⟨hbase.inner, inner_of_eq hbracket ⟨rfl, nofun⟩, h.inner⟩,
      inner_of_eq hclose ⟨rfl, nofun⟩, List.forall_mem_nil _⟩
  | .slice hbase hbracket hstart hcolon hstop hclose => by
    simp only [List.forall_mem_append, List.forall_mem_cons]
    exact ⟨⟨⟨hbase.inner, inner_of_eq hbracket ⟨rfl, nofun⟩, hstart.inner⟩,
      inner_of_eq hcolon ⟨rfl, nofun⟩, hstop.inner⟩, inner_of_eq hclose ⟨rfl, nofun⟩,
      List.forall_mem_nil _⟩

theorem IsArguments.inner {room : Nat} {ts : List Token} {es : List Expr} :
    IsArguments room ts es → ∀ token ∈ ts, Inner token.kind
  | .empty hclose => List.forall_mem_singleton.mpr (inner_of_eq hclose ⟨rfl, nofun⟩)
  | .items h hrest hclose => by
    simp only [List.forall_mem_append, List.forall_mem_singleton]
    exact ⟨⟨h.inner, hrest.inner⟩, inner_of_eq hclose ⟨rfl, nofun⟩⟩

theorem IsMoreArguments.inner {room : Nat} {ts : List Token} {es : List Expr} :
    IsMoreArguments room ts es → ∀ token ∈ ts, Inner token.kind
  | .nil => nofun
  | .cons hcomma h hrest => by
    simp only [List.forall_mem_append, List.forall_mem_cons]
    exact ⟨⟨inner_of_eq hcomma ⟨rfl, nofun⟩, h.inner⟩, hrest.inner⟩

end

/-! ### The end of the source -/

theorem IsExpression.no_end {room : Nat} {ts : List Token} {e : Expr} (h : IsExpression room ts e) :
    ∀ token ∈ ts, token.kind ≠ .endOfInput :=
  fun token hmem => (h.inner token hmem).2

theorem ne_end_of_eq {kind kind' : TokenKind} (h : kind = kind') (hkind : kind' ≠ .endOfInput) :
    kind ≠ .endOfInput := h ▸ hkind

theorem ne_end_of_type {kind : TokenKind} {type : Ty} (h : kind.type? = some type) :
    kind ≠ .endOfInput := by
  rintro rfl
  cases h

theorem ne_end_of_assignOp {kind : TokenKind} {op : AssignOp}
    (h : AssignOp.ofKind? kind = some op) :
    kind ≠ .endOfInput := by
  rintro rfl
  cases h

theorem IsMore.no_end {α : Type} {item : List Token → α → Prop} {ts : List Token} {items : List α}
    (hitem : ∀ {us a}, item us a → ∀ token ∈ us, token.kind ≠ .endOfInput)
    (h : IsMore item ts items) : ∀ token ∈ ts, token.kind ≠ .endOfInput := by
  induction h with
  | nil => exact nofun
  | cons hcomma h _ ih =>
    simp only [List.forall_mem_append, List.forall_mem_cons]
    exact ⟨⟨ne_end_of_eq hcomma nofun, hitem h⟩, ih⟩

theorem IsList.no_end {α : Type} {item : List Token → α → Prop} {closing : Mark} {ts : List Token}
    {items : List α} (hitem : ∀ {us a}, item us a → ∀ token ∈ us, token.kind ≠ .endOfInput)
    (h : IsList item closing ts items) : ∀ token ∈ ts, token.kind ≠ .endOfInput := by
  cases h with
  | empty hclose => exact List.forall_mem_singleton.mpr (ne_end_of_eq hclose nofun)
  | items h hrest hclose =>
    simp only [List.forall_mem_append, List.forall_mem_singleton]
    exact ⟨⟨hitem h, hrest.no_end hitem⟩, ne_end_of_eq hclose nofun⟩

theorem IsDeclaredType.no_end {ts : List Token} {declared : DeclaredType}
    (h : IsDeclaredType ts declared) : ∀ token ∈ ts, token.kind ≠ .endOfInput := by
  cases h with
  | named hword hparen hname hclose =>
    simp only [List.forall_mem_cons]
    exact ⟨ne_end_of_eq hword nofun, ne_end_of_eq hparen nofun, ne_end_of_type hname,
      ne_end_of_eq hclose nofun, List.forall_mem_nil _⟩

theorem IsDeclaredResult.no_end {ts : List Token} {declared : DeclaredResult}
    (h : IsDeclaredResult ts declared) : ∀ token ∈ ts, token.kind ≠ .endOfInput := by
  cases h with
  | named hword hparen hname hclose =>
    simp only [List.forall_mem_cons]
    exact ⟨ne_end_of_eq hword nofun, ne_end_of_eq hparen nofun, ne_end_of_type hname,
      ne_end_of_eq hclose nofun, List.forall_mem_nil _⟩
  | void hword hparen hname hclose =>
    simp only [List.forall_mem_cons]
    exact ⟨ne_end_of_eq hword nofun, ne_end_of_eq hparen nofun, ne_end_of_eq hname nofun,
      ne_end_of_eq hclose nofun, List.forall_mem_nil _⟩

theorem IsInitializer.no_end {room : Nat} {ts : List Token} {value : Option Expr}
    (h : IsInitializer room ts value) : ∀ token ∈ ts, token.kind ≠ .endOfInput := by
  cases h with
  | absent => exact nofun
  | given hsign h => exact List.forall_mem_cons.mpr ⟨ne_end_of_eq hsign nofun, h.no_end⟩

theorem IsDeclarator.no_end {room : Nat} {ts : List Token} {d : Declarator}
    (h : IsDeclarator room ts d) : ∀ token ∈ ts, token.kind ≠ .endOfInput := by
  cases h with
  | named hname h => exact List.forall_mem_cons.mpr ⟨ne_end_of_eq hname nofun, h.no_end⟩

theorem IsVarDecl.no_end {room : Nat} {ts : List Token} {decl : VarDecl}
    (h : IsVarDecl room ts decl) : ∀ token ∈ ts, token.kind ≠ .endOfInput := by
  cases h with
  | typed htype h hrest =>
    simp only [List.forall_mem_append]
    exact ⟨⟨htype.no_end, h.no_end⟩, hrest.no_end IsDeclarator.no_end⟩

theorem IsParameter.no_end {room : Nat} {ts : List Token} {param : Param}
    (h : IsParameter room ts param) : ∀ token ∈ ts, token.kind ≠ .endOfInput := by
  cases h with
  | typed htype hname h =>
    simp only [List.forall_mem_append, List.forall_mem_cons]
    exact ⟨htype.no_end, ne_end_of_eq hname nofun, h.no_end⟩

theorem IsIterable.no_end {room : Nat} {ts : List Token} {e : Expr}
    (h : IsIterable room ts e) : ∀ token ∈ ts, token.kind ≠ .endOfInput := by
  cases h with
  | expression h => exact h.no_end
  | range hstart hcolon hstop =>
    simp only [List.forall_mem_append, List.forall_mem_cons]
    exact ⟨hstart.no_end, ne_end_of_eq hcolon nofun, hstop.no_end⟩
  | steppedRange hstart hcolon hstop hcolon' hstep =>
    simp only [List.forall_mem_append, List.forall_mem_cons]
    exact ⟨⟨hstart.no_end, ne_end_of_eq hcolon nofun, hstop.no_end⟩, ne_end_of_eq hcolon' nofun,
      hstep.no_end⟩

mutual

theorem IsStatement.no_end {room : Nat} {ts : List Token} {s : Statement} :
    IsStatement room ts s → ∀ token ∈ ts, token.kind ≠ .endOfInput
  | .empty h => List.forall_mem_singleton.mpr (ne_end_of_eq h nofun)
  | .declaration h hend => by
    simp only [List.forall_mem_append, List.forall_mem_singleton]
    exact ⟨h.no_end, ne_end_of_eq hend nofun⟩
  | .assignment htarget hop h hend => by
    simp only [List.forall_mem_append, List.forall_mem_cons]
    exact ⟨⟨ne_end_of_eq htarget nofun, ne_end_of_assignOp hop, h.no_end⟩, ne_end_of_eq hend nofun,
      List.forall_mem_nil _⟩
  | .conditional hword hcondition hbody hotherwise => by
    simp only [List.forall_mem_append, List.forall_mem_cons]
    exact ⟨⟨⟨ne_end_of_eq hword nofun, hcondition.no_end⟩, hbody.no_end⟩, hotherwise.no_end⟩
  | .whileLoop hword hcondition hbody => by
    simp only [List.forall_mem_append, List.forall_mem_cons]
    exact ⟨⟨ne_end_of_eq hword nofun, hcondition.no_end⟩, hbody.no_end⟩
  | .forLoop hword htype hname hwithin hiterable hbody => by
    simp only [List.forall_mem_append, List.forall_mem_cons]
    exact ⟨⟨⟨ne_end_of_eq hword nofun, htype.no_end⟩, ne_end_of_eq hname nofun,
      ne_end_of_eq hwithin nofun, hiterable.no_end⟩, hbody.no_end⟩
  | .breakLoop hword hend | .continueLoop hword hend | .returnNothing hword hend => by
    simp only [List.forall_mem_cons]
    exact ⟨ne_end_of_eq hword nofun, ne_end_of_eq hend nofun, List.forall_mem_nil _⟩
  | .returnValue hword h hend => by
    simp only [List.forall_mem_append, List.forall_mem_cons]
    exact ⟨⟨ne_end_of_eq hword nofun, h.no_end⟩, ne_end_of_eq hend nofun, List.forall_mem_nil _⟩
  | .function hreturns hname hparen hparams hbody => by
    simp only [List.forall_mem_append, List.forall_mem_cons]
    exact ⟨⟨hreturns.no_end, ne_end_of_eq hname nofun, ne_end_of_eq hparen nofun,
      hparams.no_end IsParameter.no_end⟩, hbody.no_end⟩
  | .expression h hend => by
    simp only [List.forall_mem_append, List.forall_mem_singleton]
    exact ⟨h.no_end, ne_end_of_eq hend nofun⟩

theorem IsAlternative.no_end {room : Nat} {ts : List Token} {otherwise : Alternative} :
    IsAlternative room ts otherwise → ∀ token ∈ ts, token.kind ≠ .endOfInput
  | .absent => nofun
  | .elseif hword hcondition hbody hrest => by
    simp only [List.forall_mem_append, List.forall_mem_cons]
    exact ⟨⟨⟨ne_end_of_eq hword nofun, hcondition.no_end⟩, hbody.no_end⟩, hrest.no_end⟩
  | .otherwise hword hbody => List.forall_mem_cons.mpr ⟨ne_end_of_eq hword nofun, hbody.no_end⟩

theorem IsBlock.no_end {room : Nat} {ts : List Token} {body : List Statement} :
    IsBlock room ts body → ∀ token ∈ ts, token.kind ≠ .endOfInput
  | .nested hbrace h hclose => by
    simp only [List.forall_mem_append, List.forall_mem_cons]
    exact ⟨⟨ne_end_of_eq hbrace nofun, h.no_end⟩, ne_end_of_eq hclose nofun, List.forall_mem_nil _⟩

theorem IsStatements.no_end {room : Nat} {ts : List Token} {body : List Statement} :
    IsStatements room ts body → ∀ token ∈ ts, token.kind ≠ .endOfInput
  | .nil => nofun
  | .cons h hrest => List.forall_mem_append.mpr ⟨h.no_end, hrest.no_end⟩

end

end ScopedScript.Grammar
