import ScopedScript.Proofs.RoundTrip.Derivation
import ScopedScript.Proofs.RoundTrip.Lexing

/-!
# Written trees are read as their token kinds

The text of a sound tree, followed by anything that goes on with neither a word nor a number, is
read as the token kinds of the tree. Every piece of the text is followed by a blank or a delimiter,
with two exceptions: a sign before its operand, and an operand in parentheses or brackets. No
operand starts with a character that makes a longer sign of what stands before it.

The text of a tree does not depend on the places the tree was read from.
-/

namespace ScopedScript

/-- A text is read as these token kinds, whatever follows that does not go on with it. -/
def Prints (text : String) (kinds : List TokenKind) : Prop :=
  ∀ ⦃rest : List Char⦄ ⦃more : List TokenKind⦄, Loose rest → Lexes rest more →
    Lexes (text.toList ++ rest) (kinds ++ more)

/-! ## Signs and words -/

section Pieces

variable {rest : List Char} {more : List TokenKind}

theorem lexes_blanks {blanks : String} (hblanks : blanks.toList.all Text.isGap)
    (h : Lexes rest more) : Lexes (blanks.toList ++ rest) more := by
  generalize blanks.toList = cs at hblanks
  induction cs with
  | nil => exact h
  | cons c cs ih =>
    rw [List.all_cons, Bool.and_eq_true] at hblanks
    exact .gap hblanks.1 (ih hblanks.2)

theorem lexes_indentation (depth : Nat) (h : Lexes rest more) :
    Lexes ((indentation depth).toList ++ rest) more := by
  refine lexes_blanks ?_ h
  rw [indentation, String.toList_ofList, List.all_replicate]
  split <;> rfl

/-- A reserved word and the blank behind it. -/
theorem lexes_lead (word : Keyword) (h : Lexes rest more) :
    Lexes (word.spelling.toList ++ ' ' :: rest) (.keyword word :: more) :=
  lexes_keyword word ⟨rfl, by decide⟩ (.gap rfl h)

theorem lexes_spacedSign (mark : Mark) (h : Lexes rest more) :
    Lexes (mark.spelling.toList ++ ' ' :: rest) (.mark mark :: more) :=
  lexes_sign mark ⟨by decide, by decide, by decide⟩ (.gap rfl h)

theorem lexes_binaryOp (op : BinaryOp) (h : Lexes rest more) :
    Lexes (op.spelling.toList ++ ' ' :: rest) (op.kind :: more) := by
  have hkind : (∃ mark, op.kind = .mark mark ∧ op.spelling = mark.spelling) ∨
      ∃ word, op.kind = .keyword word ∧ op.spelling = word.spelling := by
    cases op with
    | and => exact .inr ⟨.kwAnd, rfl, rfl⟩
    | or => exact .inr ⟨.kwOr, rfl, rfl⟩
    | _ => exact .inl ⟨_, rfl, rfl⟩
  obtain ⟨mark, hkind, hspelling⟩ | ⟨word, hkind, hspelling⟩ := hkind
  · rw [hkind, hspelling]
    exact lexes_spacedSign mark h
  · rw [hkind, hspelling]
    exact lexes_lead word h

theorem lexes_assignOp {op : AssignOp} {mark : Mark} (hmark : op.mark? = some mark)
    (h : Lexes rest more) : Lexes (op.spelling.toList ++ ' ' :: rest) (.mark mark :: more) := by
  have hspelling : op.spelling = mark.spelling := by
    cases op with
    | plain =>
      cases hmark
      rfl
    | compound op => cases op <;> first | (cases hmark; rfl) | cases hmark
  rw [hspelling]
  exact lexes_spacedSign mark h

theorem lexes_unaryOp (op : UnaryOp) (hrest : Clear rest) (h : Lexes rest more) :
    Lexes (op.lead.toList ++ rest) (op.kind :: more) := by
  cases op with
  | plus => exact lexes_sign .plus hrest h
  | negate => exact lexes_sign .minus hrest h
  | not => exact lexes_lead .kwNot h

theorem Ty.name_eq_spelling (type : Ty) : type.name = type.word.spelling := by
  cases type <;> rfl

end Pieces

/-! ## Composed texts -/

theorem prints_empty : Prints "" [] := fun _ _ _ h => h

theorem Prints.enclosed {text : String} {kinds : List TokenKind} (h : Prints text kinds)
    (needed : Bool) : Prints (parenthesize needed text) (enclose needed kinds) := by
  cases needed with
  | false => exact h
  | true =>
    intro rest more _ hrest
    simp only [parenthesize, enclose, if_true, String.toList_append, List.append_assoc,
      List.cons_append]
    exact lexes_delimiter .leftParen rfl (h ⟨rfl, by decide⟩ (lexes_delimiter .rightParen rfl hrest))

/-- Items with commas between them. -/
theorem prints_commas {α : Type} {text : α → String} {kinds : α → List TokenKind} {items : List α}
    (h : ∀ a ∈ items, Prints (text a) (kinds a)) :
    Prints (", ".intercalate (items.map text)) (commaKinds (items.map kinds)) := by
  induction items with
  | nil => exact prints_empty
  | cons a items ih =>
    obtain ⟨hfirst, hrest⟩ := List.forall_mem_cons.mp h
    cases items with
    | nil => simpa only [List.map_cons, List.map_nil, String.intercalate_singleton, commaKinds]
    | cons b items =>
      intro rest more hloose hmore
      simp only [List.map_cons, String.intercalate_cons_cons, commaKinds, String.toList_append,
        List.append_assoc, List.cons_append]
      refine hfirst ⟨rfl, by decide⟩ (lexes_delimiter .comma rfl (.gap rfl ?_))
      exact ih hrest hloose hmore

/-! ## Expressions -/

/-- A text that makes no longer sign of what stands before it. -/
def Fresh (text : String) : Prop := ∀ rest : List Char, Clear (text.toList ++ rest)

theorem fresh_of_cons {text : String} {c : Char} {tail : List Char}
    (htext : text.toList = c :: tail)
    (hc : c ≠ '=' ∧ c ≠ '/' ∧ c ≠ '*') : Fresh text := by
  intro rest
  rw [htext]
  exact hc

theorem fresh_of_isNamePart {text : String} {c : Char} {tail : List Char}
    (htext : text.toList = c :: tail) (hc : Text.isNamePart c) : Fresh text :=
  fresh_of_cons htext ⟨ne_of_isNamePart (by decide) hc, ne_of_isNamePart (by decide) hc,
    ne_of_isNamePart (by decide) hc⟩

theorem IsWord.fresh {name : String} (h : IsWord name) : Fresh name := by
  obtain ⟨first, tail, htext, hfirst, _⟩ := h
  exact fresh_of_isNamePart htext (Text.isNamePart_of_isNameStart hfirst)

theorem Fresh.append {text : String} (h : Fresh text) (more : String) : Fresh (text ++ more) := by
  intro rest
  rw [String.toList_append, List.append_assoc]
  exact h _

theorem Fresh.enclosed {text : String} (h : Fresh text) (needed : Bool) :
    Fresh (parenthesize needed text) := by
  cases needed with
  | false => exact h
  | true => exact ((fresh_of_cons rfl (by decide)).append text).append ")"

theorem Value.HasLiteral.fresh {value : Value} (h : value.HasLiteral) : Fresh value.literal := by
  cases value with
  | int n =>
    obtain ⟨c, tail, hcons⟩ : ∃ c tail, Decimal.digitsOf n.toInt.toNat = c :: tail :=
      List.exists_cons_of_length_pos (Decimal.digitCount_pos n.toInt.toNat)
    have hc : c ∈ Decimal.digitsOf n.toInt.toNat := by
      rw [hcons]
      exact List.mem_cons_self ..
    have htext : (Integer.text n).toList = c :: tail := (Integer.toList_text h).trans hcons
    exact fresh_of_isNamePart htext (isNamePart_of_isDigit (Decimal.isDigit_digitsOf hc))
  | float x =>
    obtain ⟨pattern, hlt, rfl⟩ := h
    obtain ⟨whole, fraction, htext, hne, hwhole, _⟩ := Decimal.isNumeral_literalText hlt
    obtain ⟨c, tail, rfl⟩ := List.exists_cons_of_ne_nil hne
    have hc : c.isDigit := (List.all_eq_true.mp hwhole) c (List.mem_cons_self ..)
    exact fresh_of_isNamePart htext (isNamePart_of_isDigit hc)
  | bool b => cases b <;> exact fresh_of_cons rfl (by decide)
  | str s => exact fresh_of_cons String.toList_ofList (by decide)

/-- No expression makes a longer sign of what stands before it. -/
theorem Expr.fresh_text : (e : Expr) → e.Sound → Fresh e.text
  | .range .., h => h.elim
  | .steppedRange .., h => h.elim
  | .literal .., h => h.1.fresh
  | .var .., h => h.1.1.fresh
  | .unary op .., _ => by
    have hlead : Fresh op.lead := by cases op <;> exact fresh_of_cons rfl (by decide)
    rw [Expr.text]
    exact hlead.append _
  | .binary left .., h => by
    rw [Expr.text]
    exact ((((fresh_text left h.1).enclosed _).append _).append _).append _ |>.append _
  | .call .., h => by
    rw [Expr.text]
    exact ((h.2.2.1.fresh.append _).append _).append _
  | .index base .., h => by
    rw [Expr.text]
    exact ((((fresh_text base h.1).enclosed _).append _).append _).append _
  | .slice base .., h => by
    rw [Expr.text]
    exact ((((((fresh_text base h.1).enclosed _).append _).append _).append _).append _).append _

theorem Expr.listText_eq_intercalate (es : List Expr) :
    Expr.listText es = ", ".intercalate (es.map Expr.text) := by
  induction es with
  | nil => rfl
  | cons e es ih =>
    cases es with
    | nil => simp [Expr.listText]
    | cons f es => simp [Expr.listText, ih, String.intercalate_cons_cons]

mutual

/-- The text of a sound expression is read as its token kinds. -/
theorem Expr.prints : (e : Expr) → e.Sound → Prints e.text e.kinds
  | .literal value token, h => fun _ _ => lexes_literal h.1
  | .var name token, h => by
    intro rest more hloose hmore
    rw [Expr.kinds, ← h.1.2]
    exact lexes_word h.1.1 hloose hmore
  | .unary op operand token, h => by
    intro rest more hloose hmore
    simp only [Expr.text, Expr.kinds, String.toList_append, List.append_assoc, List.cons_append]
    refine lexes_unaryOp op ((operand.fresh_text h.1).enclosed _ _) ?_
    exact (operand.prints h.1).enclosed _ hloose hmore
  | .binary left op right token, h => by
    intro rest more hloose hmore
    simp only [Expr.text, Expr.kinds, String.toList_append, List.append_assoc, List.cons_append]
    refine (left.prints h.1).enclosed _ ⟨rfl, by decide⟩ (.gap rfl (lexes_binaryOp op ?_))
    exact (right.prints h.2.1).enclosed _ hloose hmore
  | .call name arguments isStatement token, h => by
    intro rest more hloose hmore
    have harguments := prints_commas (Expr.prints_list arguments h.1)
    rw [← Expr.listText_eq_intercalate, ← Expr.kindsList_eq_map] at harguments
    simp only [Expr.text, Expr.kinds, String.toList_append, List.append_assoc, List.cons_append]
    refine lexes_word h.2.2.1 ⟨rfl, by decide⟩ (lexes_delimiter .leftParen rfl ?_)
    exact harguments ⟨rfl, by decide⟩ (lexes_delimiter .rightParen rfl hmore)
  | .index base position token, h => by
    intro rest more hloose hmore
    simp only [Expr.text, Expr.kinds, String.toList_append, List.append_assoc, List.cons_append]
    refine (base.prints h.1).enclosed _ ⟨rfl, by decide⟩ (lexes_delimiter .leftBracket rfl ?_)
    exact position.prints h.2.1 ⟨rfl, by decide⟩ (lexes_delimiter .rightBracket rfl hmore)
  | .slice base start stop token, h => by
    intro rest more hloose hmore
    simp only [Expr.text, Expr.kinds, String.toList_append, List.append_assoc, List.cons_append]
    refine (base.prints h.1).enclosed _ ⟨rfl, by decide⟩ (lexes_delimiter .leftBracket rfl ?_)
    refine start.prints h.2.1 ⟨rfl, by decide⟩ (lexes_delimiter .colon rfl ?_)
    exact stop.prints h.2.2.1 ⟨rfl, by decide⟩ (lexes_delimiter .rightBracket rfl hmore)
  | .range .., h => h.elim
  | .steppedRange .., h => h.elim

theorem Expr.prints_list : (es : List Expr) → Expr.SoundList es →
    ∀ e ∈ es, Prints e.text e.kinds
  | [], _ => List.forall_mem_nil _
  | e :: es, h => List.forall_mem_cons.mpr ⟨e.prints h.1, Expr.prints_list es h.2⟩

end

theorem Expr.FitsIterable.prints {e : Expr} {room : Nat} (h : e.FitsIterable room) :
    Prints e.text e.kinds := by
  cases e with
  | range start stop token =>
    intro rest more hloose hmore
    simp only [Expr.text, Expr.kinds, String.toList_append, List.append_assoc, List.cons_append]
    refine start.prints h.1.1 ⟨rfl, by decide⟩ (lexes_delimiter .colon rfl ?_)
    exact stop.prints h.2.1.1 hloose hmore
  | steppedRange start stop step token =>
    intro rest more hloose hmore
    simp only [Expr.text, Expr.kinds, String.toList_append, List.append_assoc, List.cons_append]
    refine start.prints h.1.1 ⟨rfl, by decide⟩ (lexes_delimiter .colon rfl ?_)
    refine stop.prints h.2.1.1 ⟨rfl, by decide⟩ (lexes_delimiter .colon rfl ?_)
    exact step.prints h.2.2.1.1 hloose hmore
  | _ => exact Expr.prints _ h.1

theorem Expr.text_asStatement (e : Expr) : e.asStatement.text = e.text := by
  cases e <;> rfl

/-! ## Declarations -/

theorem DeclaredType.prints (declared : DeclaredType) : Prints declared.text declared.kinds := by
  intro rest more _ hmore
  simp only [DeclaredType.text, DeclaredType.kinds, Ty.name_eq_spelling, String.toList_append,
    List.append_assoc, List.cons_append, List.nil_append]
  refine lexes_keyword .kwVar ⟨rfl, by decide⟩ (lexes_delimiter .leftParen rfl ?_)
  exact lexes_keyword _ ⟨rfl, by decide⟩ (lexes_delimiter .rightParen rfl hmore)

theorem DeclaredResult.text_eq (declared : DeclaredResult) :
    declared.text = "func(" ++ declared.word.spelling ++ ")" := by
  obtain ⟨type, token⟩ := declared
  cases type with
  | none => rfl
  | some type => simp only [DeclaredResult.text, DeclaredResult.word, Ty.name_eq_spelling]

theorem DeclaredResult.prints (declared : DeclaredResult) :
    Prints declared.text declared.kinds := by
  intro rest more _ hmore
  simp only [DeclaredResult.text_eq, DeclaredResult.kinds, String.toList_append, List.append_assoc,
    List.cons_append, List.nil_append]
  refine lexes_keyword .kwFunc ⟨rfl, by decide⟩ (lexes_delimiter .leftParen rfl ?_)
  exact lexes_keyword _ ⟨rfl, by decide⟩ (lexes_delimiter .rightParen rfl hmore)

theorem FitsDeclared.prints {name : String} {value : Option Expr} {token : Token} {room : Nat}
    (h : FitsDeclared name value token room) :
    Prints (declaredText name value) (declaredKinds name value) := by
  obtain ⟨⟨hword, hkind⟩, _, hvalue⟩ := h
  intro rest more hloose hmore
  cases value with
  | none =>
    rw [declaredKinds, ← hkind]
    exact lexes_word hword hloose hmore
  | some e =>
    simp only [declaredText, declaredKinds, String.toList_append, List.append_assoc,
      List.cons_append]
    rw [← hkind]
    refine lexes_word hword ⟨rfl, by decide⟩ (.gap rfl (lexes_spacedSign .assign ?_))
    exact e.prints (hvalue e rfl).1 hloose hmore

theorem VarDecl.Fits.prints {decl : VarDecl} {room : Nat} (h : decl.Fits room) :
    Prints decl.text decl.kinds := by
  intro rest more hloose hmore
  simp only [VarDecl.text, VarDecl.kinds, String.toList_append, List.append_assoc]
  refine decl.declared.prints ⟨rfl, by decide⟩ (.gap rfl ?_)
  exact prints_commas (fun d hd => (h.2.2 d hd).prints) hloose hmore

theorem Param.Fits.prints {param : Param} {room : Nat} (h : param.Fits room) :
    Prints param.text param.kinds := by
  intro rest more hloose hmore
  simp only [Param.text, Param.kinds, String.toList_append, List.append_assoc]
  exact param.declared.prints ⟨rfl, by decide⟩ (.gap rfl (h.2.prints hloose hmore))

/-! ## Statements -/

/-- The end of the header, the lines of a block and its closing brace. -/
theorem lexes_block {lines : String} {kinds more : List TokenKind} {rest : List Char}
    (hlines : ∀ ⦃rest more⦄, Lexes rest more → Lexes (lines.toList ++ rest) (kinds ++ more))
    (depth : Nat) (hmore : Lexes rest more) :
    Lexes (" \x7b\n".toList ++ (lines.toList ++ ((blockEnd depth).toList ++ rest)))
      (blockKinds kinds ++ more) := by
  simp only [blockEnd, blockKinds, String.toList_append, List.append_assoc, List.cons_append,
    List.nil_append]
  refine .gap rfl (lexes_delimiter .leftBrace rfl (.gap rfl (hlines ?_)))
  exact lexes_indentation depth (lexes_delimiter .rightBrace rfl hmore)

theorem lexes_lone (word : Keyword) {rest : List Char} {more : List TokenKind}
    (hmore : Lexes rest more) :
    Lexes (word.spelling.toList ++ ';' :: rest) (.keyword word :: .mark .semicolon :: more) :=
  lexes_keyword word ⟨rfl, by decide⟩ (lexes_delimiter .semicolon rfl hmore)

mutual

theorem Statement.prints (depth : Nat) : (s : Statement) → {room : Nat} → s.Fits room →
    Prints (s.textAt depth) s.kinds
  | .empty, _, _ => fun _ _ _ => lexes_delimiter .semicolon rfl
  | .declaration decl, _, h => by
    intro rest more _ hmore
    simp only [Statement.textAt, Statement.kinds, String.toList_append, List.append_assoc]
    exact VarDecl.Fits.prints h ⟨rfl, by decide⟩ (lexes_delimiter .semicolon rfl hmore)
  | .assignment target op value token, _, h => by
    obtain ⟨⟨hword, hkind⟩, _, hop, hvalue⟩ := h
    obtain ⟨mark, hmark⟩ := Option.isSome_iff_exists.mp hop
    intro rest more _ hmore
    simp only [Statement.textAt, Statement.kinds, hmark, Option.map_some, Option.toList_some,
      String.toList_append, List.append_assoc, List.cons_append, List.nil_append]
    rw [← hkind]
    refine lexes_word hword ⟨rfl, by decide⟩ (.gap rfl (lexes_assignOp hmark ?_))
    exact value.prints hvalue.1 ⟨rfl, by decide⟩ (lexes_delimiter .semicolon rfl hmore)
  | .conditional condition body otherwise token, _, h => by
    obtain ⟨_, hcondition, ⟨_, hbody⟩, hotherwise⟩ := h
    intro rest more hloose hmore
    simp only [Statement.textAt, Statement.kinds, String.toList_append, List.append_assoc,
      List.cons_append]
    refine lexes_lead .kwIf (condition.prints hcondition.1 ⟨rfl, by decide⟩ ?_)
    refine lexes_block (Statement.prints_list (depth + 1) body hbody) depth ?_
    exact Alternative.prints depth otherwise hotherwise hloose hmore
  | .whileLoop condition body token, _, h => by
    obtain ⟨_, hcondition, _, hbody⟩ := h
    intro rest more _ hmore
    simp only [Statement.textAt, Statement.kinds, String.toList_append, List.append_assoc,
      List.cons_append]
    refine lexes_lead .kwWhile (condition.prints hcondition.1 ⟨rfl, by decide⟩ ?_)
    exact lexes_block (Statement.prints_list (depth + 1) body hbody) depth hmore
  | .forLoop loopVariable iterable body token, _, h => by
    obtain ⟨_, hvariable, _, hiterable, _, hbody⟩ := h
    intro rest more _ hmore
    simp only [Statement.textAt, Statement.kinds, String.toList_append, List.append_assoc,
      List.cons_append]
    refine lexes_lead .kwFor (hvariable.prints ⟨rfl, by decide⟩ (.gap rfl (lexes_lead .kwIn ?_)))
    refine hiterable.prints ⟨rfl, by decide⟩ ?_
    exact lexes_block (Statement.prints_list (depth + 1) body hbody) depth hmore
  | .breakLoop _, _, _ => by
    intro rest more _ hmore
    rw [Statement.textAt, Statement.kinds]
    exact lexes_lone .kwBreak hmore
  | .continueLoop _, _, _ => by
    intro rest more _ hmore
    rw [Statement.textAt, Statement.kinds]
    exact lexes_lone .kwContinue hmore
  | .returnFrom none _, _, _ => by
    intro rest more _ hmore
    rw [Statement.textAt, Statement.kinds]
    exact lexes_lone .kwReturn hmore
  | .returnFrom (some value) _, _, h => by
    intro rest more _ hmore
    simp only [Statement.textAt, Statement.kinds, String.toList_append, List.append_assoc,
      List.cons_append]
    refine lexes_lead .kwReturn (value.prints (h.2 value rfl).1 ⟨rfl, by decide⟩ ?_)
    exact lexes_delimiter .semicolon rfl hmore
  | .function ⟨returns, name, params, body, token⟩, _, h => by
    obtain ⟨_, ⟨hword, hkind⟩, _, hparams, _, hbody⟩ := h
    intro rest more _ hmore
    simp only [Statement.textAt, Statement.kinds, FunctionDecl.textAt, FunctionDecl.kinds,
      String.toList_append, List.append_assoc, List.cons_append]
    rw [← hkind]
    refine returns.prints ⟨rfl, by decide⟩ (.gap rfl (lexes_word hword ⟨rfl, by decide⟩ ?_))
    refine lexes_delimiter .leftParen rfl
      (prints_commas (fun param hparam => (hparams param hparam).prints) ⟨rfl, by decide⟩ ?_)
    refine lexes_delimiter .rightParen rfl ?_
    exact lexes_block (Statement.prints_list (depth + 1) body hbody) depth hmore
  | .expression expr, _, h => by
    obtain ⟨e, he, rfl⟩ := h
    intro rest more _ hmore
    simp only [Statement.textAt, Statement.kinds, Expr.kinds_asStatement, Expr.text_asStatement,
      String.toList_append, List.append_assoc]
    exact e.prints he.1 ⟨rfl, by decide⟩ (lexes_delimiter .semicolon rfl hmore)

theorem Alternative.prints (depth : Nat) : (otherwise : Alternative) → {room : Nat} →
    otherwise.Fits room → Prints (otherwise.textAt depth) otherwise.kinds
  | .absent, _, _ => prints_empty
  | .elseif condition body rest, _, h => by
    obtain ⟨hcondition, ⟨_, hbody⟩, hrest⟩ := h
    intro tail more hloose hmore
    simp only [Alternative.textAt, Alternative.kinds, String.toList_append, List.append_assoc,
      List.cons_append]
    refine .gap rfl (lexes_lead .kwElseif (condition.prints hcondition.1 ⟨rfl, by decide⟩ ?_))
    refine lexes_block (Statement.prints_list (depth + 1) body hbody) depth ?_
    exact Alternative.prints depth rest hrest hloose hmore
  | .otherwise body, _, h => by
    intro rest more _ hmore
    simp only [Alternative.textAt, Alternative.kinds, String.toList_append, List.append_assoc,
      List.cons_append]
    refine .gap rfl (lexes_keyword .kwElse ⟨rfl, by decide⟩ ?_)
    exact lexes_block (Statement.prints_list (depth + 1) body h.2) depth hmore

/-- The lines of sound statements are read as their token kinds. -/
theorem Statement.prints_list (depth : Nat) : (body : List Statement) → {room : Nat} →
    Statement.FitsList body room → ∀ ⦃rest more⦄, Lexes rest more →
      Lexes ((Statement.linesAt depth body).toList ++ rest) (Statement.kindsList body ++ more)
  | [], _, _ => fun _ _ hmore => hmore
  | s :: body, _, h => by
    intro rest more hmore
    simp only [Statement.linesAt, Statement.kindsList, String.toList_append, List.append_assoc]
    refine lexes_indentation depth (Statement.prints depth s h.1 ⟨rfl, by decide⟩ (.gap rfl ?_))
    exact Statement.prints_list depth body h.2 hmore

end

/-- The text of a sound program is read as its token kinds. -/
theorem Program.tokenize_text {p : Program} {room : Nat} (hfits : Statement.FitsList p room) :
    ∃ ts, tokenize p.text = .ok ts ∧
      ts.map Token.kind = Statement.kindsList p ++ [.endOfInput] := by
  have hlexes := Statement.prints_list 0 p hfits Lexes.nil
  rw [List.append_nil, List.append_nil] at hlexes
  exact Lexes.tokenize hlexes

/-! ## Texts and places -/

theorem Expr.strength_bare (e : Expr) : e.bare.strength = e.strength := by
  cases e <;> rfl

mutual

theorem Expr.text_bare : (e : Expr) → e.bare.text = e.text
  | .literal .. => rfl
  | .var .. => rfl
  | .unary op operand _ => by
    simp only [Expr.bare, Expr.text, Expr.strength_bare, operand.text_bare]
  | .binary left op right _ => by
    simp only [Expr.bare, Expr.text, Expr.strength_bare, left.text_bare, right.text_bare]
  | .call name arguments _ _ => by simp only [Expr.bare, Expr.text, Expr.listText_bare arguments]
  | .index base position _ => by
    simp only [Expr.bare, Expr.text, Expr.strength_bare, base.text_bare, position.text_bare]
  | .slice base start stop _ => by
    simp only [Expr.bare, Expr.text, Expr.strength_bare, base.text_bare, start.text_bare,
      stop.text_bare]
  | .range start stop _ => by simp only [Expr.bare, Expr.text, start.text_bare, stop.text_bare]
  | .steppedRange start stop step _ => by
    simp only [Expr.bare, Expr.text, start.text_bare, stop.text_bare, step.text_bare]

theorem Expr.listText_bare : (es : List Expr) → Expr.listText (Expr.bareList es) = Expr.listText es
  | [] => rfl
  | [e] => by simp only [Expr.bareList, Expr.listText, e.text_bare]
  | e :: f :: rest => by
    have hrest := Expr.listText_bare (f :: rest)
    simp only [Expr.bareList] at hrest ⊢
    simp only [Expr.listText, e.text_bare, hrest]

end

theorem declaredText_bare (name : String) (value : Option Expr) :
    declaredText name (value.map Expr.bare) = declaredText name value := by
  cases value with
  | none => rfl
  | some e => simp only [Option.map_some, declaredText, e.text_bare]

theorem VarDecl.text_bare (decl : VarDecl) : decl.bare.text = decl.text := by
  simp only [VarDecl.bare, VarDecl.text, DeclaredType.bare, DeclaredType.text, List.map_map]
  congr 2
  exact List.map_congr_left fun d _ => declaredText_bare d.name d.initializer

theorem Param.text_bare (param : Param) : param.bare.text = param.text := by
  simp only [Param.bare, Param.text, DeclaredType.bare, DeclaredType.text, declaredText_bare]

mutual

theorem Statement.textAt_bare (depth : Nat) : (s : Statement) → s.bare.textAt depth = s.textAt depth
  | .empty => rfl
  | .declaration decl => by simp only [Statement.bare, Statement.textAt, decl.text_bare]
  | .assignment target op value _ => by
    simp only [Statement.bare, Statement.textAt, value.text_bare]
  | .conditional condition body otherwise _ => by
    simp only [Statement.bare, Statement.textAt, condition.text_bare,
      Statement.linesAt_bare (depth + 1) body, Alternative.textAt_bare depth otherwise]
  | .whileLoop condition body _ => by
    simp only [Statement.bare, Statement.textAt, condition.text_bare,
      Statement.linesAt_bare (depth + 1) body]
  | .forLoop loopVariable iterable body _ => by
    simp only [Statement.bare, Statement.textAt, loopVariable.text_bare, iterable.text_bare,
      Statement.linesAt_bare (depth + 1) body]
  | .breakLoop _ => rfl
  | .continueLoop _ => rfl
  | .returnFrom none _ => rfl
  | .returnFrom (some value) _ => by
    simp only [Statement.bare, Option.map_some, Statement.textAt, value.text_bare]
  | .function ⟨returns, name, params, body, _⟩ => by
    have hparams : (params.map Param.bare).map Param.text = params.map Param.text := by
      rw [List.map_map]
      exact List.map_congr_left fun param _ => param.text_bare
    simp only [Statement.bare, Statement.textAt, FunctionDecl.bare, FunctionDecl.textAt,
      DeclaredResult.bare, DeclaredResult.text, hparams, Statement.linesAt_bare (depth + 1) body]
  | .expression expr => by simp only [Statement.bare, Statement.textAt, expr.text_bare]

theorem Alternative.textAt_bare (depth : Nat) :
    (otherwise : Alternative) → otherwise.bare.textAt depth = otherwise.textAt depth
  | .absent => rfl
  | .elseif condition body rest => by
    simp only [Alternative.bare, Alternative.textAt, condition.text_bare,
      Statement.linesAt_bare (depth + 1) body, Alternative.textAt_bare depth rest]
  | .otherwise body => by
    simp only [Alternative.bare, Alternative.textAt, Statement.linesAt_bare (depth + 1) body]

theorem Statement.linesAt_bare (depth : Nat) : (body : List Statement) →
    Statement.linesAt depth (Statement.bareList body) = Statement.linesAt depth body
  | [] => rfl
  | s :: body => by
    simp only [Statement.bareList, Statement.linesAt, Statement.textAt_bare depth s,
      Statement.linesAt_bare depth body]

end

/-- The text of a program does not depend on the places it was read from. -/
theorem Program.text_bare (p : Program) : p.bare.text = p.text :=
  Statement.linesAt_bare 0 p

end ScopedScript
