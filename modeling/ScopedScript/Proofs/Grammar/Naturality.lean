import ScopedScript.Proofs.Grammar.Soundness
import ScopedScript.Proofs.Tree.Relabel

/-!
# Reading does not depend on where tokens stand

A reader decides by the kinds of tokens and hands the tokens themselves on, to trees and to faults.
So tokens of the same kinds in the places of others are read as the same tree with those tokens, or
the fault is the same, at the position that stands in the place of the first.

This holds as long as the end of the source is ahead. No reader goes past it, so tokens never run
out: a fault is always at a token. The loop behind a comma stops with a fault once it has made as
many rounds as there were tokens, so it also has to be known that no reader gives tokens back.
-/

namespace ScopedScript

/-- Tokens are replaced by tokens of the same kind. -/
def Relabeling.KeepsKinds (f : Relabeling) : Prop := ∀ t : Token, (f.token t).kind = t.kind

namespace Parser

/-! ## The end of the source -/

/-- The end of the source is ahead. -/
def Closed (ts : List Token) : Prop := ∃ t ∈ ts, t.kind = .endOfInput

/-- A token of another kind can be taken. -/
theorem Closed.tail {token : Token} {rest : List Token} (h : Closed (token :: rest))
    (hkind : token.kind ≠ .endOfInput) : Closed rest := by
  obtain ⟨t, ht, hend⟩ := h
  obtain rfl | ht := List.mem_cons.mp ht
  · exact absurd hend hkind
  · exact ⟨t, ht, hend⟩

theorem mark_ne_end (sign : Mark) : TokenKind.mark sign ≠ .endOfInput := nofun

theorem keyword_ne_end (word : Keyword) : TokenKind.keyword word ≠ .endOfInput := nofun

/-! ## Readers on other tokens -/

/-- The second end of two readers on so many tokens is the first one with other tokens. No token is
given back, and the end of the source is still ahead. -/
def Alike (f : Relabeling) {α : Type} (change : α → α) (count : Nat) :
    Except (Diagnostic ParseFault) (α × List Token) →
      Except (Diagnostic ParseFault) (α × List Token) → Prop
  | .ok (a, rest), found =>
    found = .ok (change a, rest.map f.token) ∧ Closed rest ∧ rest.length ≤ count
  | .error d, found => found = .error (d.relabel f)

/-- The second reader does what the first does, with other tokens. The first one yields something
that is changed along with them. -/
def Natural (f : Relabeling) {α : Type} (change : α → α) (x y : Parser α) : Prop :=
  ∀ ts, Closed ts → Alike f change ts.length (x ts) (y (ts.map f.token))

variable {f : Relabeling} {α β : Type} {change : α → α} {change' : β → β}

theorem Alike.mono {count count' : Nat} {found found' : Except _ (α × List Token)}
    (h : Alike f change count found found') (hcount : count ≤ count') :
    Alike f change count' found found' := by
  cases found with
  | error d => exact h
  | ok found => exact ⟨h.1, h.2.1, Nat.le_trans h.2.2 hcount⟩

theorem Alike.bind {count : Nat} {x y : Parser α} {ts us : List Token} {k k' : α → Parser β}
    (h : Alike f change count (x ts) (y us))
    (hk : ∀ a rest, Closed rest → rest.length ≤ count →
      Alike f change' count (k a rest) (k' (change a) (rest.map f.token))) :
    Alike f change' count ((x >>= k) ts) ((y >>= k') us) := by
  change Alike f change' count (StateT.bind x k ts) (StateT.bind y k' us)
  unfold StateT.bind
  cases hx : x ts with
  | error d =>
    rw [hx] at h
    rw [show y us = .error (d.relabel f) from h]
    rfl
  | ok found =>
    obtain ⟨a, rest⟩ := found
    rw [hx] at h
    obtain ⟨hy, hclosed, hle⟩ := h
    rw [hy]
    exact hk a rest hclosed hle

theorem Natural.bind {x y : Parser α} {k k' : α → Parser β} (h : Natural f change x y)
    (hk : ∀ a, Natural f change' (k a) (k' (change a))) :
    Natural f change' (x >>= k) (y >>= k') :=
  fun ts hts => (h ts hts).bind fun a rest hrest hle => (hk a rest hrest).mono hle

theorem natural_pure (a : α) : Natural f change (pure a) (pure (change a)) :=
  fun _ hts => ⟨rfl, hts, Nat.le_refl _⟩

/-- A fault at a token; what would follow does not matter. -/
theorem natural_throw (fault : ParseFault) (token : Token) (k k' : α → Parser β) :
    Natural f change' (throw ⟨fault, token.position⟩ >>= k)
      (throw ⟨fault, (f.token token).position⟩ >>= k') := by
  rw [f.position_token]
  exact fun _ _ => rfl

/-- A reader that looks at the tokens ahead, of which there is at least one. -/
theorem natural_look {x y : List Token → Parser α}
    (h : ∀ ts, Closed ts →
      Alike f change ts.length (x ts ts) (y (ts.map f.token) (ts.map f.token))) :
    Natural f change (get >>= x) (get >>= y) :=
  h

/-- A reader that looks at the next token: there is one. -/
theorem natural_peek {x y : Option Token → Parser α}
    (h : ∀ token rest, Closed (token :: rest) → Alike f change (token :: rest).length
      (x (some token) (token :: rest))
      (y (some (f.token token)) ((token :: rest).map f.token))) :
    Natural f change (peek >>= x) (peek >>= y) := by
  rintro (_ | ⟨token, rest⟩) hts
  · obtain ⟨_, hmem, _⟩ := hts
    cases hmem
  · exact h token rest hts

/-- A reader that takes the next token, which is not the end of the source. -/
theorem Natural.skip {x y : Unit → Parser α} (h : Natural f change (x ()) (y ())) {token : Token}
    {rest : List Token} (hclosed : Closed (token :: rest)) (hkind : token.kind ≠ .endOfInput) :
    Alike f change (token :: rest).length ((skip >>= x) (token :: rest))
      ((skip >>= y) ((token :: rest).map f.token)) :=
  (h rest (hclosed.tail hkind)).mono (Nat.le_succ _)

/-! ## Single tokens -/

section Kinds

variable (hf : f.KeepsKinds)

include hf

theorem natural_unexpected (token : Token) (expected : Expectation) :
    Natural f change (unexpected token expected) (unexpected (f.token token) expected) := by
  intro ts _
  unfold unexpected
  rw [hf token, f.position_token]
  split <;> rfl

omit hf in
theorem natural_tooDeep : Natural f change tooDeep tooDeep :=
  natural_peek fun token _ _ => by
    simp only [f.position_token]
    rfl

theorem natural_expect {kind : TokenKind} (hkind : kind ≠ .endOfInput) (expected : Expectation) :
    Natural f f.token (expect kind expected) (expect kind expected) := by
  refine natural_peek fun token rest hclosed => ?_
  simp only [hf token]
  by_cases h : token.kind = kind
  · rw [if_pos h, if_pos h]
    exact (natural_pure token).skip hclosed (h ▸ hkind)
  · rw [if_neg h, if_neg h]
    exact natural_unexpected hf token expected _ hclosed

theorem natural_mark (sign : Mark) : Natural f f.token (mark sign) (mark sign) :=
  natural_expect hf (mark_ne_end sign) _

theorem natural_keyword (word : Keyword) : Natural f f.token (keyword word) (keyword word) :=
  natural_expect hf (keyword_ne_end word) _

theorem natural_eat {kind : TokenKind} (hkind : kind ≠ .endOfInput) :
    Natural f id (eat kind) (eat kind) := by
  refine natural_peek fun token rest hclosed => ?_
  simp only [hf token]
  by_cases h : token.kind = kind
  · rw [if_pos h]
    exact (natural_pure true).skip hclosed (h ▸ hkind)
  · rw [if_neg h]
    exact natural_pure false _ hclosed

theorem natural_identifier :
    Natural f (fun (name, token) => (name, f.token token)) identifier identifier := by
  refine natural_peek fun token rest hclosed => ?_
  simp only [hf token]
  cases hkind : token.kind with
  | identifier name => exact (natural_pure (name, token)).skip hclosed (by simp [hkind])
  | _ => exact natural_unexpected hf token _ _ hclosed

/-- What follows a token that can be missing. -/
theorem natural_optional {kind : TokenKind} (hkind : kind ≠ .endOfInput) {reader : Parser α}
    (hreader : Natural f change reader reader) :
    Natural f (Option.map change) (optional kind reader) (optional kind reader) := by
  refine (natural_eat hf hkind).bind fun found => ?_
  cases found with
  | true => exact hreader.bind fun a => natural_pure (some a)
  | false => exact natural_pure none

/-! ## Lists -/

section Lists

variable {item : Parser α} (hitem : Natural f change item item)

include hitem

/-- The loop makes at most as many rounds as there were tokens, and each takes a comma. -/
theorem commaTail_alike (closing : Mark) (ahead : List Token) {ts : List Token} (hts : Closed ts)
    (hcount : ts.length ≤ ahead.length) :
    Alike f (List.map change) ts.length (commaTail item closing ahead ts)
      (commaTail item closing (ahead.map f.token) (ts.map f.token)) := by
  induction ahead generalizing ts with
  | nil =>
    obtain rfl := List.eq_nil_of_length_eq_zero (Nat.le_zero.mp hcount)
    obtain ⟨_, hmem, _⟩ := hts
    cases hmem
  | cons _ ahead ih =>
    obtain _ | ⟨token, rest⟩ := ts
    · obtain ⟨_, hmem, _⟩ := hts
      cases hmem
    have hrest : rest.length ≤ ahead.length := Nat.le_of_succ_le_succ hcount
    simp only [List.map_cons, commaTail, peek_bind, List.head?_cons, hf token]
    by_cases hcomma : token.kind = .mark .comma
    · rw [if_pos hcomma, if_pos hcomma]
      simp only [skip_bind, List.tail_cons]
      have hclosed : Closed rest := hts.tail (by simp [hcomma])
      refine Alike.mono ?_ (Nat.le_succ rest.length)
      refine (hitem rest hclosed).bind fun a behind hbehind hle => ?_
      refine ((ih hbehind (Nat.le_trans hle hrest)).mono hle).bind fun items us hus hle' => ?_
      exact ⟨rfl, hus, hle'⟩
    · rw [if_neg hcomma, if_neg hcomma]
      by_cases hclose : token.kind = .mark closing
      · rw [if_pos hclose, if_pos hclose]
        exact (natural_pure []).skip hts (by simp [hclose])
      · rw [if_neg hclose, if_neg hclose]
        exact natural_unexpected hf token _ _ hts

theorem natural_commaSeparated (closing : Mark) :
    Natural f (List.map change) (commaSeparated item closing) (commaSeparated item closing) := by
  refine (natural_eat hf (mark_ne_end closing)).bind fun found => ?_
  cases found with
  | true => exact natural_pure []
  | false =>
    refine hitem.bind fun first => natural_look fun ts hts => ?_
    refine (commaTail_alike hf hitem closing ts hts (Nat.le_refl _)).bind fun items us hus hle => ?_
    exact ⟨rfl, hus, hle⟩

end Lists

/-! ## Binary operators -/

theorem natural_operator? (precedence : Nat) :
    Natural f (Option.map fun (op, token) => (op, f.token token)) (operator? precedence)
      (operator? precedence) := by
  refine natural_peek fun token rest hclosed => ?_
  simp only [hf token]
  cases hop : BinaryOp.ofKind? token.kind with
  | none => exact natural_pure none _ hclosed
  | some op =>
    simp only
    by_cases h : op.precedence = precedence
    · rw [if_pos h, if_pos h]
      refine (natural_pure (some (op, token))).skip hclosed fun hend => ?_
      rw [hend] at hop
      cases hop
    · rw [if_neg h, if_neg h]
      exact natural_pure none _ hclosed

section Operands

variable {operand : Parser Expr} (hoperand : Natural f (Expr.relabel f) operand operand)

include hoperand

theorem natural_operatorTail (precedence : Nat) (ahead : List Token) (left : Expr) :
    Natural f (Expr.relabel f) (operatorTail operand precedence ahead left)
      (operatorTail operand precedence (ahead.map f.token) (left.relabel f)) := by
  induction ahead generalizing left with
  | nil => exact natural_pure left
  | cons _ ahead ih =>
    refine (natural_operator? hf precedence).bind fun found => ?_
    cases found with
    | none => exact natural_pure left
    | some found => exact hoperand.bind fun right => ih (.binary left found.1 right found.2)

theorem natural_leftAssociative (precedence : Nat) :
    Natural f (Expr.relabel f) (leftAssociative operand precedence)
      (leftAssociative operand precedence) :=
  hoperand.bind fun first => natural_look fun ts =>
    natural_operatorTail hf hoperand precedence ts first ts

theorem natural_levels : Natural f (Expr.relabel f) (levels operand) (levels operand) := by
  have hall : ∀ (precedences : List Nat) {operand : Parser Expr},
      Natural f (Expr.relabel f) operand operand →
        Natural f (Expr.relabel f) (precedences.foldl leftAssociative operand)
          (precedences.foldl leftAssociative operand) := by
    intro precedences
    induction precedences with
    | nil => exact fun h => h
    | cons precedence precedences ih => exact fun h => ih (natural_leftAssociative hf h precedence)
  exact hall _ hoperand

end Operands

/-! ## Atoms -/

section Atoms

variable {nested : Parser Expr} (hnested : Natural f (Expr.relabel f) nested nested)

include hnested

theorem natural_accesses (ahead : List Token) (base : Expr) :
    Natural f (Expr.relabel f) (accesses nested ahead base)
      (accesses nested (ahead.map f.token) (base.relabel f)) := by
  induction ahead generalizing base with
  | nil => exact natural_pure base
  | cons _ ahead ih =>
    refine natural_peek fun token rest hclosed => ?_
    simp only [hf token]
    by_cases h : token.kind = .mark .leftBracket
    · rw [if_pos h, if_pos h]
      refine Natural.skip ?_ hclosed (h ▸ mark_ne_end _)
      refine hnested.bind fun start => ?_
      refine (natural_optional hf (mark_ne_end _) hnested).bind fun stop => ?_
      refine (natural_mark hf _).bind fun _ => ?_
      cases stop with
      | none => exact ih (.index base start token)
      | some stop => exact ih (.slice base start stop token)
    · rw [if_neg h, if_neg h]
      exact natural_pure base _ hclosed

theorem natural_call (name : String) (token : Token) :
    Natural f (Expr.relabel f)
      (commaSeparated nested .rightParen >>= fun es => pure (.call name es false token))
      (commaSeparated nested .rightParen >>= fun es =>
        pure (.call name es false (f.token token))) :=
  (natural_commaSeparated hf hnested _).bind fun es => by
    rw [← Expr.relabelList_eq_map]
    exact natural_pure (Expr.call name es false token)

theorem natural_primary : Natural f (Expr.relabel f) (primary nested) (primary nested) := by
  refine natural_peek fun token rest hclosed => ?_
  simp only [hf token]
  cases hkind : token.kind with
  | literal value =>
    exact (natural_pure (Expr.literal value token)).skip hclosed (by simp [hkind])
  | identifier name =>
    refine Natural.skip ?_ hclosed (by simp [hkind])
    refine (natural_eat hf (mark_ne_end _)).bind fun found => ?_
    cases found with
    | true => exact natural_call hf hnested name token
    | false => exact natural_pure (Expr.var name token)
  | keyword word =>
    simp only
    by_cases hword : word.type?.isSome
    · rw [if_pos hword, if_pos hword]
      refine Natural.skip ?_ hclosed (by simp [hkind])
      exact (natural_expect hf (mark_ne_end _) _).bind fun _ =>
        natural_call hf hnested word.spelling token
    · rw [if_neg hword, if_neg hword]
      exact natural_unexpected hf token _ _ hclosed
  | mark sign =>
    by_cases hsign : sign = .leftParen
    · subst hsign
      refine Natural.skip ?_ hclosed (by simp [hkind])
      exact hnested.bind fun inside => (natural_mark hf _).bind fun _ => natural_pure inside
    · cases sign <;> first
        | exact absurd rfl hsign
        | exact natural_unexpected hf token _ _ hclosed
  | _ => exact natural_unexpected hf token _ _ hclosed

theorem natural_atom : Natural f (Expr.relabel f) (atom nested) (atom nested) :=
  (natural_primary hf hnested).bind fun base => natural_look fun ts =>
    natural_accesses hf hnested ts base ts

end Atoms

/-! ## Prefix operators and whole expressions -/

theorem natural_prefixed {below : Option (Parser Expr)} {atom : Parser Expr}
    (hbelow : ∀ operand, below = some operand → Natural f (Expr.relabel f) operand operand)
    (hatom : Natural f (Expr.relabel f) atom atom) :
    Natural f (Expr.relabel f) (prefixed below atom) (prefixed below atom) := by
  refine natural_peek fun token rest hclosed => ?_
  simp only [hf token]
  cases hop : UnaryOp.ofKind? token.kind with
  | none => exact hatom _ hclosed
  | some op =>
    cases below with
    | none => exact natural_tooDeep _ hclosed
    | some operand =>
      refine Natural.skip ?_ hclosed fun hend => ?_
      · exact (hbelow operand rfl).bind fun e => natural_pure (Expr.unary op e token)
      · rw [hend] at hop
        cases hop

theorem operand_natural (room : Nat) :
    Natural f (Expr.relabel f) (operand room) (operand room) := by
  induction room with
  | zero =>
    rw [operand_zero]
    exact natural_prefixed hf nofun (natural_atom hf natural_tooDeep)
  | succ room ih =>
    rw [operand_succ]
    refine natural_prefixed hf (fun _ h => Option.some.inj h ▸ ih) (natural_atom hf ?_)
    exact natural_levels hf ih

/-- Expressions are read as the same ones with other tokens. -/
theorem expression_natural (room : Nat) :
    Natural f (Expr.relabel f) (expression room) (expression room) := by
  cases room with
  | zero => exact natural_tooDeep
  | succ room => exact natural_levels hf (operand_natural hf room)

/-! ## Types -/

theorem natural_typeName : Natural f (DeclaredType.relabel f) typeName typeName := by
  refine natural_peek fun token rest hclosed => ?_
  simp only [hf token]
  cases htype : token.kind.type? with
  | none => exact natural_unexpected hf token _ _ hclosed
  | some type =>
    refine (natural_pure (DeclaredType.mk type token)).skip hclosed fun hend => ?_
    rw [hend] at htype
    cases htype

theorem natural_declaredType :
    Natural f (DeclaredType.relabel f) declaredType declaredType :=
  (natural_keyword hf _).bind fun _ => (natural_mark hf _).bind fun _ =>
    (natural_typeName hf).bind fun declared => (natural_mark hf _).bind fun _ =>
      natural_pure declared

theorem natural_declaredResult :
    Natural f (DeclaredResult.relabel f) declaredResult declaredResult := by
  refine (natural_keyword hf _).bind fun _ => (natural_mark hf _).bind fun _ => ?_
  refine natural_peek fun token rest hclosed => ?_
  have hend : ∀ declared : DeclaredResult, Natural f (DeclaredResult.relabel f)
      (mark .rightParen >>= fun _ => pure declared)
      (mark .rightParen >>= fun _ => pure (declared.relabel f)) :=
    fun declared => (natural_mark hf _).bind fun _ => natural_pure declared
  simp only [hf token]
  by_cases h : token.kind = .keyword .kwVoid
  · rw [if_pos h, if_pos h]
    exact (hend ⟨none, token⟩).skip hclosed (h ▸ keyword_ne_end _)
  · rw [if_neg h, if_neg h]
    have htyped : Natural f (DeclaredResult.relabel f)
        (typeName >>= fun t => mark .rightParen >>= fun _ => pure ⟨some t.type, t.token⟩)
        (typeName >>= fun t => mark .rightParen >>= fun _ => pure ⟨some t.type, t.token⟩) :=
      (natural_typeName hf).bind fun t => hend ⟨some t.type, t.token⟩
    exact htyped _ hclosed

/-! ## Declarations -/

section Expressions

variable {expression : Parser Expr}
  (hexpression : Natural f (Expr.relabel f) expression expression)

include hexpression

theorem natural_rangeOrExpression : Natural f (Expr.relabel f) (rangeOrExpression expression)
    (rangeOrExpression expression) := by
  refine hexpression.bind fun start => natural_peek fun token rest hclosed => ?_
  simp only [hf token]
  by_cases h : token.kind = .mark .colon
  · rw [if_pos h, if_pos h]
    refine Natural.skip ?_ hclosed (h ▸ mark_ne_end _)
    refine hexpression.bind fun stop => ?_
    refine (natural_optional hf (mark_ne_end _) hexpression).bind fun step => ?_
    cases step with
    | none => exact natural_pure (Expr.range start stop token)
    | some step => exact natural_pure (Expr.steppedRange start stop step token)
  · rw [if_neg h, if_neg h]
    exact natural_pure start _ hclosed

theorem natural_initializer : Natural f (Option.map (Expr.relabel f))
    (optional (.mark .assign) expression) (optional (.mark .assign) expression) :=
  natural_optional hf (mark_ne_end _) hexpression

theorem natural_declarator :
    Natural f (Declarator.relabel f) (declarator expression) (declarator expression) :=
  (natural_identifier hf).bind fun found => (natural_initializer hf hexpression).bind fun value =>
    natural_pure (Declarator.mk found.1 value found.2)

theorem natural_declaratorTail (ahead : List Token) :
    Natural f (List.map (Declarator.relabel f)) (declaratorTail expression ahead)
      (declaratorTail expression (ahead.map f.token)) := by
  induction ahead with
  | nil => exact natural_pure []
  | cons _ ahead ih =>
    refine (natural_eat hf (mark_ne_end _)).bind fun found => ?_
    cases found with
    | false => exact natural_pure []
    | true =>
      exact (natural_declarator hf hexpression).bind fun next => ih.bind fun rest =>
        natural_pure (next :: rest)

theorem natural_varDecl :
    Natural f (VarDecl.relabel f) (varDecl expression) (varDecl expression) :=
  (natural_declaredType hf).bind fun declared =>
    (natural_declarator hf hexpression).bind fun first => natural_look fun ts =>
      ((natural_declaratorTail hf hexpression ts).bind fun rest =>
        natural_pure (VarDecl.mk declared (first :: rest))) ts

theorem natural_parameter :
    Natural f (Param.relabel f) (parameter expression) (parameter expression) :=
  (natural_declaredType hf).bind fun declared => (natural_identifier hf).bind fun found =>
    (natural_initializer hf hexpression).bind fun value =>
      natural_pure (Param.mk declared found.1 value found.2)

/-! ## Statements without blocks -/

theorem natural_returnFrom :
    Natural f (Statement.relabel f) (returnFrom expression) (returnFrom expression) := by
  refine (natural_keyword hf _).bind fun token => ?_
  refine (natural_eat hf (mark_ne_end _)).bind fun found => ?_
  cases found with
  | true => exact natural_pure (Statement.returnFrom none token)
  | false =>
    exact hexpression.bind fun value => (natural_mark hf _).bind fun _ =>
      natural_pure (Statement.returnFrom (some value) token)

omit hexpression hf in
theorem relabel_asStatement (e : Expr) : e.asStatement.relabel f = (e.relabel f).asStatement := by
  cases e <;> rfl

theorem natural_expressionStatement : Natural f (Statement.relabel f)
    (expressionStatement expression) (expressionStatement expression) := by
  refine hexpression.bind fun expr => natural_peek fun token rest hclosed => ?_
  have hstatement : Natural f (Statement.relabel f)
      (mark .semicolon >>= fun _ => pure (.expression expr.asStatement))
      (mark .semicolon >>= fun _ => pure (.expression (expr.relabel f).asStatement)) :=
    (natural_mark hf _).bind fun _ => by
      rw [← relabel_asStatement]
      exact natural_pure (Statement.expression expr.asStatement)
  simp only [hf token]
  by_cases h : (AssignOp.ofKind? token.kind).isSome
  · rw [if_pos h, if_pos h, expr.position_relabel]
    exact rfl
  · rw [if_neg h, if_neg h]
    exact hstatement _ hclosed

/-- The second token decides, and both it and the first are taken. -/
theorem natural_assignmentOrExpression : Natural f (Statement.relabel f)
    (assignmentOrExpression expression) (assignmentOrExpression expression) := by
  have hother := natural_expressionStatement hf hexpression
  refine natural_look fun ts hts => ?_
  match ts, hts with
  | [], hts => exact hother [] hts
  | [_], hts => exact hother _ hts
  | target :: sign :: rest, hts =>
    simp only [List.map_cons, hf target, hf sign]
    cases htarget : target.kind with
    | identifier name =>
      cases hsign : AssignOp.ofKind? sign.kind with
      | none => exact hother _ hts
      | some op =>
        have hrest : Closed rest := by
          refine (hts.tail (by simp [htarget])).tail fun hend => ?_
          rw [hend] at hsign
          cases hsign
        have hassignment : Natural f (Statement.relabel f)
            (expression >>= fun value => mark .semicolon >>= fun _ =>
              pure (.assignment name op value target))
            (expression >>= fun value => mark .semicolon >>= fun _ =>
              pure (.assignment name op value (f.token target))) :=
          hexpression.bind fun value => (natural_mark hf _).bind fun _ =>
            natural_pure (Statement.assignment name op value target)
        exact (hassignment rest hrest).mono (by simp only [List.length_cons]; omega)
    | _ => exact hother _ hts

/-! ## Statements around blocks -/

section Blocks

variable {block : Parser (List Statement)}
  (hblock : Natural f (List.map (Statement.relabel f)) block block)

include hblock

theorem natural_alternatives (ahead : List Token) :
    Natural f (Alternative.relabel f) (alternatives expression block ahead)
      (alternatives expression block (ahead.map f.token)) := by
  induction ahead with
  | nil => exact natural_pure Alternative.absent
  | cons _ ahead ih =>
    refine (natural_eat hf (keyword_ne_end _)).bind fun found => ?_
    cases found with
    | true =>
      refine hexpression.bind fun condition => hblock.bind fun body => ih.bind fun rest => ?_
      rw [← Statement.relabelList_eq_map]
      exact natural_pure (Alternative.elseif condition body rest)
    | false =>
      refine (natural_eat hf (keyword_ne_end _)).bind fun found => ?_
      cases found with
      | false => exact natural_pure Alternative.absent
      | true =>
        refine hblock.bind fun body => ?_
        rw [← Statement.relabelList_eq_map]
        exact natural_pure (Alternative.otherwise body)

theorem natural_conditional : Natural f (Statement.relabel f) (conditional expression block)
    (conditional expression block) := by
  refine (natural_keyword hf _).bind fun token => hexpression.bind fun condition => ?_
  refine hblock.bind fun body => natural_look fun ts => ?_
  refine ((natural_alternatives hf hexpression hblock ts).bind fun rest => ?_) ts
  rw [← Statement.relabelList_eq_map]
  exact natural_pure (Statement.conditional condition body rest token)

theorem natural_whileLoop : Natural f (Statement.relabel f) (whileLoop expression block)
    (whileLoop expression block) := by
  refine (natural_keyword hf _).bind fun token => hexpression.bind fun condition => ?_
  refine hblock.bind fun body => ?_
  rw [← Statement.relabelList_eq_map]
  exact natural_pure (Statement.whileLoop condition body token)

theorem natural_forLoop : Natural f (Statement.relabel f) (forLoop expression block)
    (forLoop expression block) := by
  refine (natural_keyword hf _).bind fun token => (natural_varDecl hf hexpression).bind ?_
  rintro ⟨declared, declarators⟩
  have hrest : Natural f (Statement.relabel f)
      (keyword .kwIn >>= fun _ => rangeOrExpression expression >>= fun iterable =>
        block >>= fun body => pure (.forLoop ⟨declared, declarators⟩ iterable body token))
      (keyword .kwIn >>= fun _ => rangeOrExpression expression >>= fun iterable =>
        block >>= fun body => pure (.forLoop ((VarDecl.mk declared declarators).relabel f) iterable
          body (f.token token))) := by
    refine (natural_keyword hf _).bind fun _ => ?_
    refine (natural_rangeOrExpression hf hexpression).bind fun iterable => ?_
    refine hblock.bind fun body => ?_
    rw [← Statement.relabelList_eq_map]
    exact natural_pure (Statement.forLoop ⟨declared, declarators⟩ iterable body token)
  match declarators, hrest with
  | [], _ => exact natural_throw _ token _ _
  | [only], hrest =>
    simp only [VarDecl.relabel, List.map_cons, List.map_nil, Declarator.relabel, Option.isSome_map]
    by_cases hvalue : only.initializer.isSome
    · rw [if_pos hvalue, if_pos hvalue]
      exact natural_throw _ only.token _ _
    · rw [if_neg hvalue, if_neg hvalue]
      exact hrest
  | _ :: _ :: _, _ => exact natural_throw _ token _ _

theorem natural_function : Natural f (Statement.relabel f) (function expression block)
    (function expression block) := by
  refine (natural_declaredResult hf).bind fun returns => ?_
  refine (natural_identifier hf).bind fun found => ?_
  refine (natural_mark hf _).bind fun _ => ?_
  refine (natural_commaSeparated hf (natural_parameter hf hexpression) _).bind fun params => ?_
  refine hblock.bind fun body => ?_
  rw [← Statement.relabelList_eq_map]
  exact natural_pure (Statement.function ⟨returns, found.1, params, body, found.2⟩)

theorem natural_statementWith : Natural f (Statement.relabel f) (statementWith expression block)
    (statementWith expression block) := by
  refine natural_peek fun token rest hclosed => ?_
  have hother := natural_assignmentOrExpression hf hexpression
  simp only [hf token]
  cases hkind : token.kind with
  | mark sign =>
    by_cases hsign : sign = .semicolon
    · subst hsign
      exact (natural_pure Statement.empty).skip hclosed (by simp [hkind])
    · cases sign <;> first
        | exact absurd rfl hsign
        | exact hother _ hclosed
  | keyword word =>
    have htaken : token.kind ≠ .endOfInput := by simp [hkind]
    cases word with
    | kwVar =>
      exact ((natural_varDecl hf hexpression).bind fun decl => (natural_mark hf _).bind fun _ =>
        natural_pure (Statement.declaration decl)) _ hclosed
    | kwIf => exact natural_conditional hf hexpression hblock _ hclosed
    | kwWhile => exact natural_whileLoop hf hexpression hblock _ hclosed
    | kwFor => exact natural_forLoop hf hexpression hblock _ hclosed
    | kwBreak =>
      exact ((natural_mark hf .semicolon).bind fun _ =>
        natural_pure (Statement.breakLoop token)).skip hclosed htaken
    | kwContinue =>
      exact ((natural_mark hf .semicolon).bind fun _ =>
        natural_pure (Statement.continueLoop token)).skip hclosed htaken
    | kwReturn => exact natural_returnFrom hf hexpression _ hclosed
    | kwFunc => exact natural_function hf hexpression hblock _ hclosed
    | _ => exact hother _ hclosed
  | _ => exact hother _ hclosed

end Blocks

end Expressions

/-! ## Lists of statements and programs -/

section Lists

variable {statement : Parser Statement}
  (hstatement : Natural f (Statement.relabel f) statement statement)

include hstatement

theorem natural_statementItems (closing : TokenKind) (ahead : List Token) :
    Natural f (List.map (Statement.relabel f)) (statementItems statement closing ahead)
      (statementItems statement closing (ahead.map f.token)) := by
  induction ahead with
  | nil => exact natural_pure []
  | cons _ ahead ih =>
    refine natural_peek fun token rest hclosed => ?_
    simp only [hf token]
    by_cases h : token.kind = closing ∨ token.kind = .endOfInput
    · rw [if_pos h, if_pos h]
      exact natural_pure [] _ hclosed
    · rw [if_neg h, if_neg h]
      exact (hstatement.bind fun first => ih.bind fun items => natural_pure (first :: items)) _
        hclosed

theorem natural_statements (closing : TokenKind) :
    Natural f (List.map (Statement.relabel f)) (statements statement closing)
      (statements statement closing) :=
  natural_look fun ts => natural_statementItems hf hstatement closing ts ts

theorem natural_blockOf : Natural f (List.map (Statement.relabel f)) (blockOf statement)
    (blockOf statement) :=
  (natural_mark hf _).bind fun _ => (natural_statements hf hstatement _).bind fun body =>
    (natural_mark hf _).bind fun _ => natural_pure body

end Lists

/-- Statements are read as the same ones with other tokens. -/
theorem statement_natural (room : Nat) :
    Natural f (Statement.relabel f) (statement room) (statement room) := by
  induction room with
  | zero => exact natural_statementWith hf (expression_natural hf 0) natural_tooDeep
  | succ room ih =>
    exact natural_statementWith hf (expression_natural hf (room + 1)) (natural_blockOf hf ih)

end Kinds

end Parser

/-! ## Programs -/

/-- What comes of reading other tokens of the same kinds. -/
def relabelRead (f : Relabeling) :
    Except (Diagnostic ParseFault) Program → Except (Diagnostic ParseFault) Program
  | .ok p => .ok (p.map (Statement.relabel f))
  | .error d => .error (d.relabel f)

/-- A program is read as statements with the end of the source behind them. -/
theorem parse_eq (ts : List Token) :
    parse ts = Parser.statements (Parser.statement nestingLimit) .endOfInput ts >>=
      fun (p, rest) => (Parser.expect .endOfInput .endOfInput rest).map fun _ => p := by
  unfold parse Parser.program
  change Except.map _ (StateT.bind (Parser.statements _ _) _ ts) = _
  unfold StateT.bind
  cases Parser.statements (Parser.statement nestingLimit) .endOfInput ts with
  | error d => rfl
  | ok found =>
    simp only [bind, Except.bind]
    unfold StateT.bind
    cases Parser.expect .endOfInput .endOfInput found.2 <;> rfl

/-- The end of the source is taken behind the statements, or the next token is at fault. -/
theorem Parser.expect_end_relabel {f : Relabeling} (hf : f.KeepsKinds) {ts : List Token}
    (hts : Closed ts) (p : Program) :
    ((expect .endOfInput .endOfInput (ts.map f.token)).map fun _ => p.map (Statement.relabel f)) =
      relabelRead f ((expect .endOfInput .endOfInput ts).map fun _ => p) := by
  obtain _ | ⟨token, rest⟩ := ts
  · obtain ⟨_, hmem, _⟩ := hts
    cases hmem
  · simp only [List.map_cons, expect, peek_bind, List.head?_cons, hf token]
    by_cases h : token.kind = .endOfInput
    · rw [if_pos h, if_pos h]
      rfl
    · rw [if_neg h, if_neg h]
      unfold unexpected
      rw [hf token, if_neg h, if_neg h, f.position_token]
      rfl

/-- Tokens of the same kinds in the places of others are read as the same program with those tokens,
or with the same fault at the position in the place of the first. -/
theorem parse_relabel {f : Relabeling} (hf : f.KeepsKinds) {ts : List Token}
    (hts : Parser.Closed ts) : parse (ts.map f.token) = relabelRead f (parse ts) := by
  have hbody := Parser.natural_statements hf (Parser.statement_natural hf nestingLimit)
    .endOfInput ts hts
  rw [parse_eq, parse_eq]
  cases hfound : Parser.statements (Parser.statement nestingLimit) .endOfInput ts with
  | error d =>
    rw [hfound] at hbody
    rw [show Parser.statements _ _ (ts.map f.token) = .error (d.relabel f) from hbody]
    rfl
  | ok found =>
    rw [hfound] at hbody
    rw [hbody.1]
    exact Parser.expect_end_relabel hf hbody.2.1 found.1

end ScopedScript
