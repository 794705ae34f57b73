import ScopedScript.Proofs.Grammar.Completeness
import ScopedScript.Proofs.RoundTrip.Lexing
import ScopedScript.Proofs.Tree.Names

/-!
# Trees and derivations

What the grammar derives from tokens that a text can be read as is a sound tree with room for it,
and the token kinds of a sound tree derive it again with the same room. The tokens may differ in
everything but their kind, so the tree that is derived agrees with the first one up to places.

Parentheses are the point: those of the first derivation leave no trace in the tree, and those
that are written are the ones it cannot do without.
-/

namespace ScopedScript

/-! ## Kinds of operators and types -/

theorem BinaryOp.ofKind?_eq_some {kind : TokenKind} {op : BinaryOp} :
    BinaryOp.ofKind? kind = some op ↔ kind = op.kind := by
  constructor
  · intro h
    cases kind with
    | mark sign => cases sign <;> first | (cases h; rfl) | cases h
    | keyword word => cases word <;> first | (cases h; rfl) | cases h
    | _ => cases h
  · rintro rfl
    cases op <;> rfl

theorem UnaryOp.ofKind?_eq_some {kind : TokenKind} {op : UnaryOp} :
    UnaryOp.ofKind? kind = some op ↔ kind = op.kind := by
  constructor
  · intro h
    cases kind with
    | mark sign => cases sign <;> first | (cases h; rfl) | cases h
    | keyword word => cases word <;> first | (cases h; rfl) | cases h
    | _ => cases h
  · rintro rfl
    cases op <;> rfl

theorem AssignOp.ofKind?_eq_some {kind : TokenKind} {op : AssignOp} :
    AssignOp.ofKind? kind = some op ↔ ∃ sign, op.mark? = some sign ∧ kind = .mark sign := by
  constructor
  · intro h
    cases kind with
    | mark sign => cases sign <;> first | (cases h; exact ⟨_, rfl, rfl⟩) | cases h
    | _ => cases h
  · rintro ⟨sign, hsign, rfl⟩
    cases op with
    | plain => cases hsign; rfl
    | compound op => cases op <;> first | (cases hsign; rfl) | cases hsign

theorem TokenKind.type?_eq_some {kind : TokenKind} {type : Ty} :
    kind.type? = some type ↔ kind = .keyword type.word := by
  constructor
  · intro h
    cases kind with
    | keyword word => cases word <;> first | (cases h; rfl) | cases h
    | _ => cases h
  · rintro rfl
    cases type <;> rfl

/-! ## Derived trees are sound -/

theorem Expr.Sound.one_le_strength {e : Expr} (h : e.Sound) : 1 ≤ e.strength := by
  cases e with
  | binary left op right token => exact op.precedence_pos
  | range start stop token => exact h.elim
  | steppedRange start stop step token => exact h.elim
  | _ => exact Nat.succ_le_succ (Nat.zero_le _)

theorem deepen_le (needed : Bool) (depth : Nat) : deepen needed depth ≤ depth + 1 := by
  unfold deepen
  split <;> omega

theorem deepen_mono {p q : Prop} [Decidable p] [Decidable q] (h : p → q) (depth : Nat) :
    deepen p depth ≤ deepen q depth := by
  simp only [deepen, decide_eq_true_eq]
  split <;> split <;> simp_all

namespace Grammar

/-- What is called is read as the kind that its name has. -/
theorem IsCallee.eq_wordKind {kind : TokenKind} {name : String} (h : IsCallee kind name)
    (hkind : kind.Readable) : kind = Lexer.wordKind name := by
  cases h with
  | identifier _ => exact hkind.2.symm
  | @conversion word _ => cases word <;> decide

/-- All tokens of a list are read from a text. -/
abbrev Readable (ts : List Token) : Prop := ∀ token ∈ ts, token.kind.Readable

theorem isWord_of_readable {kind : TokenKind} (h : kind.Readable) (name : String)
    (hname : kind = .identifier name) : IsWord name := by
  rw [hname] at h
  exact h.1

theorem Readable.worded {ts : List Token} (h : Readable ts) : Worded ts :=
  fun token htoken => isWord_of_readable (h token htoken)

mutual

theorem IsExpression.fits {room : Nat} {ts : List Token} {e : Expr} :
    IsExpression room ts e → Readable ts → e.Fits room
  | .nested h, hts => by
    obtain ⟨hsound, hdepth⟩ := h.sound hts
    have hstrength := hsound.one_le_strength
    rw [deepen, if_neg (by simp; omega)] at hdepth
    exact ⟨hsound, Nat.lt_succ_of_le hdepth⟩

theorem IsLevel.sound {level room : Nat} {ts : List Token} {e : Expr} :
    IsLevel level room ts e → Readable ts →
      e.Sound ∧ deepen (e.strength < level) e.depth ≤ room
  | .operand h, hts => h.sound hts
  | .tighter _ h, hts => by
    obtain ⟨hsound, hdepth⟩ := h.sound hts
    exact ⟨hsound, Nat.le_trans (deepen_mono (fun h => Nat.lt_succ_of_lt h) _) hdepth⟩
  | .binary hop hlevel hleft hright, hts => by
    simp only [Readable, List.forall_mem_append, List.forall_mem_cons] at hts
    obtain ⟨hl, hldepth⟩ := hleft.sound hts.1
    obtain ⟨hr, hrdepth⟩ := hright.sound hts.2.2
    subst hlevel
    have hrdepth := Nat.le_trans (deepen_mono Nat.lt_succ_of_le _) hrdepth
    refine ⟨⟨hl, hr, BinaryOp.ofKind?_eq_some.mp hop⟩, ?_⟩
    rw [deepen, if_neg (by simp [Expr.strength])]
    exact Nat.max_le.mpr ⟨hldepth, hrdepth⟩

theorem IsOperand.sound {room : Nat} {ts : List Token} {e : Expr} :
    IsOperand room ts e → Readable ts →
      e.Sound ∧ deepen (e.strength < unaryStrength) e.depth ≤ room
  | .atom h, hts => by
    obtain ⟨hsound, hdepth⟩ := h.sound hts
    exact ⟨hsound, Nat.le_trans (deepen_mono (fun h => Nat.lt_succ_of_lt h) _) hdepth⟩
  | .unary hop h, hts => by
    obtain ⟨hsound, hdepth⟩ := h.sound (List.forall_mem_cons.mp hts).2
    refine ⟨⟨hsound, UnaryOp.ofKind?_eq_some.mp hop⟩, ?_⟩
    exact Nat.succ_le_succ hdepth

theorem IsAtom.sound {room : Nat} {ts : List Token} {e : Expr} :
    IsAtom room ts e → Readable ts → e.Sound ∧ deepen (e.strength < atomStrength) e.depth ≤ room
  | .literal h, hts => by
    have hvalue := List.forall_mem_singleton.mp hts
    rw [h] at hvalue
    exact ⟨⟨hvalue, h⟩, Nat.zero_le _⟩
  | .var h, hts => by
    have hname := List.forall_mem_singleton.mp hts
    rw [h] at hname
    exact ⟨⟨hname, h⟩, Nat.zero_le _⟩
  | .call hname _ h, hts => by
    simp only [Readable, List.forall_mem_cons] at hts
    obtain ⟨hsound, hdepth⟩ := h.sound hts.2.2
    have hword := hname.isWord (isWord_of_readable hts.1)
    exact ⟨⟨hsound, rfl, hword, hname.eq_wordKind hts.1, hname⟩, hdepth⟩
  | .group _ h _, hts => by
    simp only [Readable, List.forall_mem_append, List.forall_mem_cons] at hts
    obtain ⟨hsound, hdepth⟩ := h.fits hts.1.2
    exact ⟨hsound, Nat.le_trans (deepen_le _ _) hdepth⟩
  | .index hbase hbracket h _, hts => by
    simp only [Readable, List.forall_mem_append, List.forall_mem_cons] at hts
    obtain ⟨hsound, hdepth⟩ := hbase.sound hts.1.1
    obtain ⟨hposition, hposdepth⟩ := h.fits hts.1.2.2
    exact ⟨⟨hsound, hposition, hbracket⟩, Nat.max_le.mpr ⟨hdepth, hposdepth⟩⟩
  | .slice hbase hbracket hstart _ hstop _, hts => by
    simp only [Readable, List.forall_mem_append, List.forall_mem_cons] at hts
    obtain ⟨hsound, hdepth⟩ := hbase.sound hts.1.1.1
    obtain ⟨hs, hsdepth⟩ := hstart.fits hts.1.1.2.2
    obtain ⟨ht, htdepth⟩ := hstop.fits hts.1.2.2
    exact ⟨⟨hsound, hs, ht, hbracket⟩, Nat.max_le.mpr ⟨hdepth, Nat.max_le.mpr ⟨hsdepth, htdepth⟩⟩⟩

theorem IsArguments.sound {room : Nat} {ts : List Token} {es : List Expr} :
    IsArguments room ts es → Readable ts → Expr.SoundList es ∧ Expr.depthList es ≤ room
  | .empty _, _ => ⟨trivial, Nat.zero_le _⟩
  | .items h hrest _, hts => by
    simp only [Readable, List.forall_mem_append] at hts
    obtain ⟨hsound, hdepth⟩ := h.fits hts.1.1
    obtain ⟨hmore, hmoredepth⟩ := hrest.sound hts.1.2
    exact ⟨⟨hsound, hmore⟩, Nat.max_le.mpr ⟨hdepth, hmoredepth⟩⟩

theorem IsMoreArguments.sound {room : Nat} {ts : List Token} {es : List Expr} :
    IsMoreArguments room ts es → Readable ts → Expr.SoundList es ∧ Expr.depthList es ≤ room
  | .nil, _ => ⟨trivial, Nat.zero_le _⟩
  | .cons _ h hrest, hts => by
    simp only [Readable, List.forall_mem_append, List.forall_mem_cons] at hts
    obtain ⟨hsound, hdepth⟩ := h.fits hts.1.2
    obtain ⟨hmore, hmoredepth⟩ := hrest.sound hts.2
    exact ⟨⟨hsound, hmore⟩, Nat.max_le.mpr ⟨hdepth, hmoredepth⟩⟩

end

/-! ### Statements -/

theorem IsIterable.fits {room : Nat} {ts : List Token} {e : Expr} (h : IsIterable room ts e)
    (hts : Readable ts) : e.FitsIterable room := by
  cases h with
  | expression h =>
    have hfits := h.fits hts
    cases e with
    | range start stop token => exact hfits.1.elim
    | steppedRange start stop step token => exact hfits.1.elim
    | _ => exact hfits
  | range hstart hcolon hstop =>
    simp only [Readable, List.forall_mem_append, List.forall_mem_cons] at hts
    exact ⟨hstart.fits hts.1, hstop.fits hts.2.2, hcolon⟩
  | steppedRange hstart hcolon hstop _ hstep =>
    simp only [Readable, List.forall_mem_append, List.forall_mem_cons] at hts
    exact ⟨hstart.fits hts.1.1, hstop.fits hts.1.2.2, hstep.fits hts.2.2, hcolon⟩

theorem IsDeclaredType.sound {ts : List Token} {declared : DeclaredType}
    (h : IsDeclaredType ts declared) : declared.Sound := by
  cases h with
  | named _ _ hname _ => exact TokenKind.type?_eq_some.mp hname

theorem IsDeclaredResult.sound {ts : List Token} {declared : DeclaredResult}
    (h : IsDeclaredResult ts declared) : declared.Sound := by
  cases h with
  | named _ _ hname _ => exact TokenKind.type?_eq_some.mp hname
  | void _ _ hname _ => exact hname

theorem IsInitializer.fits {room : Nat} {ts : List Token} {value : Option Expr}
    (h : IsInitializer room ts value) (hts : Readable ts) : ∀ e ∈ value, e.Fits room := by
  cases h with
  | absent => exact nofun
  | given _ h =>
    rintro e he
    cases he
    exact h.fits (List.forall_mem_cons.mp hts).2

theorem fitsDeclared {room : Nat} {token : Token} {ts : List Token} {name : String}
    {value : Option Expr} (hname : token.kind = .identifier name) (h : IsInitializer room ts value)
    (hts : Readable (token :: ts)) : FitsDeclared name value token room := by
  obtain ⟨htoken, hts⟩ := List.forall_mem_cons.mp hts
  rw [hname] at htoken
  exact ⟨htoken, hname, h.fits hts⟩

theorem IsDeclarator.fits {room : Nat} {ts : List Token} {d : Declarator}
    (h : IsDeclarator room ts d) (hts : Readable ts) : d.Fits room := by
  cases h with
  | named hname h => exact fitsDeclared hname h hts

theorem IsVarDecl.fits {room : Nat} {ts : List Token} {decl : VarDecl}
    (h : IsVarDecl room ts decl) (hts : Readable ts) : decl.Fits room := by
  cases h with
  | typed htype h hrest =>
    simp only [Readable, List.forall_mem_append] at hts
    refine ⟨htype.sound, List.cons_ne_nil _ _, List.forall_mem_cons.mpr ⟨h.fits hts.1.2, ?_⟩⟩
    intro d hd
    obtain ⟨us, hus, hderived⟩ := hrest.exists_item d hd
    exact hderived.fits fun token htoken => hts.2 token (hus htoken)

theorem IsParameter.fits {room : Nat} {ts : List Token} {param : Param}
    (h : IsParameter room ts param) (hts : Readable ts) : param.Fits room := by
  cases h with
  | typed htype hname h =>
    exact ⟨htype.sound, fitsDeclared hname h (List.forall_mem_append.mp hts).2⟩

mutual

theorem IsStatement.fits {room : Nat} {ts : List Token} {s : Statement} :
    IsStatement room ts s → Readable ts → s.Fits room
  | .empty _, _ => trivial
  | .declaration h _, hts => h.fits (List.forall_mem_append.mp hts).1
  | .assignment htarget hop h _, hts => by
    simp only [Readable, List.forall_mem_append, List.forall_mem_cons] at hts
    obtain ⟨sign, hsign, _⟩ := AssignOp.ofKind?_eq_some.mp hop
    have hname := hts.1.1
    rw [htarget] at hname
    exact ⟨hname, htarget, Option.isSome_of_eq_some hsign, h.fits hts.1.2.2⟩
  | .conditional hword hcondition hbody hotherwise, hts => by
    simp only [Readable, List.forall_mem_append, List.forall_mem_cons] at hts
    exact ⟨hword, hcondition.fits hts.1.1.2, hbody.fits hts.1.2, hotherwise.fits hts.2⟩
  | .whileLoop hword hcondition hbody, hts => by
    simp only [Readable, List.forall_mem_append, List.forall_mem_cons] at hts
    exact ⟨hword, hcondition.fits hts.1.2, hbody.fits hts.2⟩
  | .forLoop hword htype hname _ hiterable hbody, hts => by
    simp only [Readable, List.forall_mem_append, List.forall_mem_cons] at hts
    have hreadable := hts.1.2.1
    rw [hname] at hreadable
    refine ⟨hword, ⟨htype.sound, List.cons_ne_nil _ _, ?_⟩, ⟨_, rfl, rfl⟩,
      hiterable.fits hts.1.2.2.2, hbody.fits hts.2⟩
    exact List.forall_mem_singleton.mpr ⟨hreadable, hname, nofun⟩
  | .breakLoop hword _, _ => hword
  | .continueLoop hword _, _ => hword
  | .returnNothing hword _, _ => ⟨hword, nofun⟩
  | .returnValue hword h _, hts => by
    simp only [Readable, List.forall_mem_append, List.forall_mem_cons] at hts
    refine ⟨hword, ?_⟩
    intro e he
    cases he
    exact h.fits hts.1.2
  | .function hreturns hname _ hparams hbody, hts => by
    simp only [Readable, List.forall_mem_append, List.forall_mem_cons] at hts
    have hreadable := hts.1.2.1
    rw [hname] at hreadable
    refine ⟨hreturns.sound, hreadable, hname, fun param hparam => ?_, hbody.fits hts.2⟩
    obtain ⟨us, hus, hderived⟩ := hparams.exists_item param hparam
    exact hderived.fits fun token htoken => hts.1.2.2.2 token (hus htoken)
  | .expression h _, hts => ⟨_, h.fits (List.forall_mem_append.mp hts).1, rfl⟩

theorem IsAlternative.fits {room : Nat} {ts : List Token} {otherwise : Alternative} :
    IsAlternative room ts otherwise → Readable ts → otherwise.Fits room
  | .absent, _ => trivial
  | .elseif _ hcondition hbody hrest, hts => by
    simp only [Readable, List.forall_mem_append, List.forall_mem_cons] at hts
    exact ⟨hcondition.fits hts.1.1.2, hbody.fits hts.1.2, hrest.fits hts.2⟩
  | .otherwise _ hbody, hts => hbody.fits (List.forall_mem_cons.mp hts).2

theorem IsBlock.fits {room : Nat} {ts : List Token} {body : List Statement} :
    IsBlock room ts body → Readable ts → 0 < room ∧ Statement.FitsList body (room - 1)
  | .nested _ h _, hts => by
    simp only [Readable, List.forall_mem_append, List.forall_mem_cons] at hts
    exact ⟨Nat.succ_pos _, h.fits hts.1.2⟩

/-- Derived statements are sound and fit in the room they were derived with. -/
theorem IsStatements.fits {room : Nat} {ts : List Token} {body : List Statement} :
    IsStatements room ts body → Readable ts → Statement.FitsList body room
  | .nil, _ => trivial
  | .cons h hrest, hts =>
    ⟨h.fits (List.forall_mem_append.mp hts).1, hrest.fits (List.forall_mem_append.mp hts).2⟩

end

end Grammar

/-- A program that is read from a source is sound and fits in the room there is. -/
theorem fits_of_parse {source : String} {ts : List Token} {p : Program}
    (htokenize : tokenize source = .ok ts) (hparse : parse ts = .ok p) :
    Statement.FitsList p nestingLimit := by
  obtain ⟨_, hprogram⟩ := parse_eq_ok.mp hparse
  obtain ⟨before, stop, rfl, _, hderived⟩ := Parser.program_eq_ok_iff.mp hprogram
  exact hderived.fits (List.forall_mem_append.mp (readable_of_tokenize htokenize)).1

/-! ## Kinds derive their tree again -/

theorem Token.bare_eq_iff {a b : Token} : a.bare = b.bare ↔ a.kind = b.kind := by
  simp [Token.bare]

theorem Expr.bareList_eq_map (es : List Expr) : Expr.bareList es = es.map Expr.bare := by
  induction es with
  | nil => rfl
  | cons e es ih => simp [Expr.bareList, ih]

theorem Expr.kindsList_eq_map (es : List Expr) : Expr.kindsList es = es.map Expr.kinds := by
  induction es with
  | nil => rfl
  | cons e es ih => simp [Expr.kindsList, ih]

namespace Grammar

/-- Expressions of one strength. -/
inductive IsTight : Nat → Nat → List Token → Expr → Prop where
  | atom {room : Nat} {ts : List Token} {e : Expr} (h : IsAtom room ts e) :
      IsTight atomStrength room ts e
  | operand {room : Nat} {ts : List Token} {e : Expr} (h : IsOperand room ts e) :
      IsTight unaryStrength room ts e
  | level {level room : Nat} {ts : List Token} {e : Expr} (hlevel : level ≤ 6)
      (h : IsLevel level room ts e) : IsTight level room ts e

section Tight

variable {strength room : Nat} {ts : List Token} {e : Expr}

theorem IsTight.isAtom (h : IsTight strength room ts e) (hle : atomStrength ≤ strength) :
    IsAtom room ts e := by
  simp only [atomStrength] at hle
  cases h with
  | atom h => exact h
  | operand h => exact absurd hle (by decide)
  | level hlevel _ => omega

theorem IsTight.isOperand (h : IsTight strength room ts e) (hle : unaryStrength ≤ strength) :
    IsOperand room ts e := by
  simp only [unaryStrength] at hle
  cases h with
  | atom h => exact .atom h
  | operand h => exact h
  | level hlevel _ => omega

theorem IsTight.isLevel {level : Nat} (h : IsTight strength room ts e) (hlevel : level ≤ 7)
    (hle : level ≤ strength) : IsLevel level room ts e := by
  cases h with
  | atom h => exact (IsLevel.operand (.atom h)).loosen (Nat.le_refl 7) hlevel
  | operand h => exact (IsLevel.operand h).loosen (Nat.le_refl 7) hlevel
  | level hsix h => exact h.loosen (by omega) hle

theorem IsTight.isExpression (h : IsTight strength room ts e) (hle : 1 ≤ strength) :
    IsExpression (room + 1) ts e :=
  .nested (h.isLevel (by decide) hle)

end Tight

/-! ### Operands -/

/-- Tokens of the kinds of an expression derive it, up to places, if there is room for it. -/
def Derives (e : Expr) : Prop :=
  ∀ ⦃room : Nat⦄ ⦃us : List Token⦄, e.depth ≤ room → us.map Token.kind = e.kinds →
    ∃ e', e'.bare = e.bare ∧ IsTight e.strength room us e'

section Operands

variable {e : Expr} {room : Nat} {us : List Token}

theorem Derives.expression (h : Derives e) (hsound : e.Sound) (hroom : e.depth < room)
    (hus : us.map Token.kind = e.kinds) : ∃ e', e'.bare = e.bare ∧ IsExpression room us e' := by
  obtain ⟨less, rfl⟩ : ∃ less, room = less + 1 := ⟨room - 1, by omega⟩
  obtain ⟨e', hbare, he'⟩ := h (Nat.lt_succ_iff.mp hroom) hus
  exact ⟨e', hbare, he'.isExpression hsound.one_le_strength⟩

theorem Derives.group (h : Derives e) (hsound : e.Sound) (hroom : e.depth < room)
    (hus : us.map Token.kind = .mark .leftParen :: e.kinds ++ [.mark .rightParen]) :
    ∃ e', e'.bare = e.bare ∧ IsAtom room us e' := by
  simp only [List.map_eq_append_iff, List.map_eq_cons_iff, List.map_eq_nil_iff] at hus
  obtain ⟨_, _, rfl, ⟨paren, inside, rfl, hparen, hinside⟩, close, _, rfl, hclose, rfl⟩ := hus
  obtain ⟨e', hbare, he'⟩ := h.expression hsound hroom hinside
  exact ⟨e', hbare, .group hparen he' hclose⟩

theorem Derives.enclosed (h : Derives e) (hsound : e.Sound) {bound : Nat}
    (hroom : deepen (e.strength < bound) e.depth ≤ room)
    (hus : us.map Token.kind = enclose (e.strength < bound) e.kinds) :
    ∃ e', e'.bare = e.bare ∧
      (IsAtom room us e' ∨ bound ≤ e.strength ∧ IsTight e.strength room us e') := by
  by_cases hlt : e.strength < bound
  · simp only [deepen, enclose, hlt, decide_true, if_true] at hroom hus
    obtain ⟨e', hbare, he'⟩ := h.group hsound hroom hus
    exact ⟨e', hbare, .inl he'⟩
  · simp only [deepen, enclose, hlt, decide_false, Bool.false_eq_true, if_false] at hroom hus
    obtain ⟨e', hbare, he'⟩ := h hroom hus
    exact ⟨e', hbare, .inr ⟨Nat.not_lt.mp hlt, he'⟩⟩

theorem Derives.atom (h : Derives e) (hsound : e.Sound)
    (hroom : deepen (e.strength < atomStrength) e.depth ≤ room)
    (hus : us.map Token.kind = enclose (e.strength < atomStrength) e.kinds) :
    ∃ e', e'.bare = e.bare ∧ IsAtom room us e' := by
  obtain ⟨e', hbare, he' | ⟨hle, he'⟩⟩ := h.enclosed hsound hroom hus
  · exact ⟨e', hbare, he'⟩
  · exact ⟨e', hbare, he'.isAtom hle⟩

theorem Derives.operand (h : Derives e) (hsound : e.Sound)
    (hroom : deepen (e.strength < unaryStrength) e.depth ≤ room)
    (hus : us.map Token.kind = enclose (e.strength < unaryStrength) e.kinds) :
    ∃ e', e'.bare = e.bare ∧ IsOperand room us e' := by
  obtain ⟨e', hbare, he' | ⟨hle, he'⟩⟩ := h.enclosed hsound hroom hus
  · exact ⟨e', hbare, .atom he'⟩
  · exact ⟨e', hbare, he'.isOperand hle⟩

theorem Derives.level (h : Derives e) (hsound : e.Sound) {level : Nat} (hlevel : level ≤ 7)
    (hroom : deepen (e.strength < level) e.depth ≤ room)
    (hus : us.map Token.kind = enclose (e.strength < level) e.kinds) :
    ∃ e', e'.bare = e.bare ∧ IsLevel level room us e' := by
  obtain ⟨e', hbare, he' | ⟨hle, he'⟩⟩ := h.enclosed hsound hroom hus
  · exact ⟨e', hbare, (IsLevel.operand (.atom he')).loosen (Nat.le_refl 7) hlevel⟩
  · exact ⟨e', hbare, he'.isLevel hlevel hle⟩

end Operands

/-! ### Lists -/

section Lists

variable {α β : Type} {phrase : List Token → α → Prop} {kinds : α → List TokenKind} {view : α → β}

/-- Items with commas between them are derived one by one. -/
theorem derives_more {a : α} {items : List α} {us : List Token}
    (hitem : ∀ b ∈ a :: items, ∀ vs : List Token, vs.map Token.kind = kinds b →
      ∃ b', view b' = view b ∧ phrase vs b')
    (hus : us.map Token.kind = commaKinds ((a :: items).map kinds)) :
    ∃ vs ws a' items', us = vs ++ ws ∧ phrase vs a' ∧ IsMore phrase ws items' ∧
      view a' = view a ∧ items'.map view = items.map view := by
  induction items generalizing a us with
  | nil =>
    obtain ⟨a', hview, ha'⟩ := hitem a (List.mem_singleton_self a) us hus
    exact ⟨us, [], a', [], by simp, ha', .nil, hview, rfl⟩
  | cons b items ih =>
    simp only [List.map_cons, commaKinds, List.map_eq_append_iff, List.map_eq_cons_iff] at hus
    obtain ⟨vs, _, rfl, hvs, comma, ws, rfl, hcomma, hws⟩ := hus
    obtain ⟨a', hview, ha'⟩ := hitem a (List.mem_cons_self ..) vs hvs
    have hrest : ∀ c ∈ b :: items, ∀ vs : List Token, vs.map Token.kind = kinds c →
        ∃ c', view c' = view c ∧ phrase vs c' := fun c hc => hitem c (List.mem_cons_of_mem _ hc)
    obtain ⟨xs, ys, b', items', rfl, hb', hitems', hviewb, hviews⟩ := ih hrest hws
    refine ⟨vs, comma :: xs ++ ys, a', b' :: items', by simp, ha', .cons hcomma hb' hitems',
      hview, ?_⟩
    simp [hviewb, hviews]

theorem derives_commaSeparated {closing : Mark} {items : List α} {us : List Token}
    (hitem : ∀ b ∈ items, ∀ vs : List Token, vs.map Token.kind = kinds b →
      ∃ b', view b' = view b ∧ phrase vs b')
    (hus : us.map Token.kind = commaKinds (items.map kinds) ++ [.mark closing]) :
    ∃ items', items'.map view = items.map view ∧ IsList phrase closing us items' := by
  simp only [List.map_eq_append_iff, List.map_eq_cons_iff, List.map_eq_nil_iff] at hus
  obtain ⟨vs, _, rfl, hvs, close, _, rfl, hclose, rfl⟩ := hus
  cases items with
  | nil =>
    simp only [List.map_nil, commaKinds, List.map_eq_nil_iff] at hvs
    subst hvs
    exact ⟨[], rfl, .empty hclose⟩
  | cons a items =>
    obtain ⟨xs, ys, a', items', rfl, ha', hitems', hview, hviews⟩ := derives_more hitem hvs
    exact ⟨a' :: items', by simp [hview, hviews], .items ha' hitems' hclose⟩

end Lists

end Grammar

/-! ### Expressions -/

open Grammar

theorem enclose_le {a b : Nat} (kinds : List TokenKind) :
    enclose (a ≤ b) kinds = enclose (a < b + 1) kinds := by
  simp only [enclose, decide_eq_true_eq, Nat.lt_succ_iff]

theorem deepen_le_iff {a b : Nat} (depth : Nat) :
    deepen (a ≤ b) depth = deepen (a < b + 1) depth := by
  simp only [deepen, decide_eq_true_eq, Nat.lt_succ_iff]

mutual

/-- The token kinds of a sound expression derive it. -/
theorem Expr.derives : (e : Expr) → e.Sound → Derives e
  | .literal value token, hsound => by
    intro room us _ hus
    simp only [Expr.kinds, List.map_eq_cons_iff, List.map_eq_nil_iff] at hus
    obtain ⟨sign, _, rfl, hsign, rfl⟩ := hus
    have hbare : sign.bare = token.bare := Token.bare_eq_iff.mpr (hsign.trans hsound.2.symm)
    exact ⟨.literal value sign, by simp only [Expr.bare, hbare], .atom (.literal hsign)⟩
  | .var name token, hsound => by
    intro room us _ hus
    simp only [Expr.kinds, List.map_eq_cons_iff, List.map_eq_nil_iff] at hus
    obtain ⟨sign, _, rfl, hsign, rfl⟩ := hus
    have hbare : sign.bare = token.bare := Token.bare_eq_iff.mpr (hsign.trans hsound.2.symm)
    exact ⟨.var name sign, by simp only [Expr.bare, hbare], .atom (.var hsign)⟩
  | .unary op operand token, hsound => by
    intro room us hroom hus
    obtain ⟨hoperand, htoken⟩ := hsound
    simp only [Expr.kinds, Expr.depth, List.map_eq_cons_iff] at hus hroom
    obtain ⟨sign, vs, rfl, hsign, hvs⟩ := hus
    have hbare : sign.bare = token.bare := Token.bare_eq_iff.mpr (hsign.trans htoken.symm)
    obtain ⟨less, rfl⟩ : ∃ less, room = less + 1 := ⟨room - 1, by omega⟩
    obtain ⟨e', he', hderived⟩ :=
      (operand.derives hoperand).operand hoperand (Nat.le_of_succ_le_succ hroom) hvs
    refine ⟨.unary op e' sign, by simp only [Expr.bare, hbare, he'], .operand (.unary ?_ hderived)⟩
    exact UnaryOp.ofKind?_eq_some.mpr hsign
  | .binary left op right token, hsound => by
    intro room us hroom hus
    obtain ⟨hleft, hright, htoken⟩ := hsound
    have hsix := op.precedence_le_six
    simp only [Expr.kinds, Expr.depth, enclose_le, deepen_le_iff, Nat.max_le,
      List.map_eq_append_iff, List.map_eq_cons_iff] at hus hroom
    obtain ⟨vs, _, rfl, hvs, sign, ws, rfl, hsign, hws⟩ := hus
    have hbare : sign.bare = token.bare := Token.bare_eq_iff.mpr (hsign.trans htoken.symm)
    obtain ⟨l', hl', hleft⟩ := (left.derives hleft).level hleft (by omega) hroom.1 hvs
    obtain ⟨r', hr', hright⟩ := (right.derives hright).level hright (by omega) hroom.2 hws
    refine ⟨.binary l' op r' sign, by simp only [Expr.bare, hbare, hl', hr'], .level hsix ?_⟩
    exact .binary (BinaryOp.ofKind?_eq_some.mpr hsign) rfl hleft hright
  | .call name arguments isStatement token, hsound => by
    intro room us hroom hus
    obtain ⟨harguments, rfl, _, htoken, hcallee⟩ := hsound
    simp only [Expr.kinds, Expr.depth, Expr.kindsList_eq_map, List.map_eq_cons_iff] at hus hroom
    obtain ⟨sign, _, rfl, hsign, paren, ws, rfl, hparen, hws⟩ := hus
    have hkind : sign.kind = token.kind := hsign.trans htoken.symm
    have hderives := Expr.derives_list arguments harguments hroom
    obtain ⟨es', hes', hlist⟩ := derives_commaSeparated hderives hws
    refine ⟨.call name es' false sign, ?_, .atom (.call (hkind ▸ hcallee) hparen ?_)⟩
    · simp only [Expr.bare, Expr.bareList_eq_map, hes', Token.bare_eq_iff.mpr hkind]
    · exact isArguments_iff.mpr hlist
  | .index base position token, hsound => by
    intro room us hroom hus
    obtain ⟨hbase, hposition, htoken⟩ := hsound
    simp only [Expr.kinds, Expr.depth, Nat.max_le, List.map_eq_append_iff, List.map_eq_cons_iff,
      List.map_eq_nil_iff] at hus hroom
    obtain ⟨vs, _, rfl, hvs, bracket, _, rfl, hbracket, ws, _, rfl, hws, close, _, rfl, hclose,
      rfl⟩ := hus
    have hbare : bracket.bare = token.bare := Token.bare_eq_iff.mpr (hbracket.trans htoken.symm)
    obtain ⟨b', hb', hderivedb⟩ := (base.derives hbase).atom hbase hroom.1 hvs
    obtain ⟨p', hp', hderivedp⟩ := (position.derives hposition).expression hposition hroom.2 hws
    refine ⟨.index b' p' bracket, by simp only [Expr.bare, hbare, hb', hp'], .atom ?_⟩
    simpa using IsAtom.index hderivedb hbracket hderivedp hclose
  | .slice base start stop token, hsound => by
    intro room us hroom hus
    obtain ⟨hbase, hstart, hstop, htoken⟩ := hsound
    simp only [Expr.kinds, Expr.depth, Nat.max_le, List.map_eq_append_iff, List.map_eq_cons_iff,
      List.map_eq_nil_iff] at hus hroom
    obtain ⟨vs, _, rfl, hvs, bracket, _, rfl, hbracket, ws, _, rfl, hws, colon, _, rfl, hcolon, xs, _,
      rfl, hxs, close, _, rfl, hclose, rfl⟩ := hus
    have hbare : bracket.bare = token.bare := Token.bare_eq_iff.mpr (hbracket.trans htoken.symm)
    obtain ⟨b', hb', hderivedb⟩ := (base.derives hbase).atom hbase hroom.1 hvs
    obtain ⟨s', hs', hderiveds⟩ := (start.derives hstart).expression hstart hroom.2.1 hws
    obtain ⟨t', ht', hderivedt⟩ := (stop.derives hstop).expression hstop hroom.2.2 hxs
    refine ⟨.slice b' s' t' bracket, by simp only [Expr.bare, hbare, hb', hs', ht'], .atom ?_⟩
    simpa using IsAtom.slice hderivedb hbracket hderiveds hcolon hderivedt hclose
  | .range .., hsound => hsound.elim
  | .steppedRange .., hsound => hsound.elim

/-- The token kinds of sound arguments derive each of them. -/
theorem Expr.derives_list : (es : List Expr) → Expr.SoundList es → {room : Nat} →
    Expr.depthList es ≤ room → ∀ e ∈ es, ∀ us : List Token, us.map Token.kind = e.kinds →
      ∃ e', e'.bare = e.bare ∧ IsExpression room us e'
  | [], _, _, _ => nofun
  | e :: es, hsound, room, hroom => by
    obtain ⟨hfirst, hrest⟩ := hsound
    simp only [Expr.depthList, Nat.max_le] at hroom
    rw [List.forall_mem_cons]
    refine ⟨?_, Expr.derives_list es hrest hroom.2⟩
    intro us hus
    exact (e.derives hfirst).expression hfirst hroom.1 hus

end

theorem Expr.Fits.derives {e : Expr} {room : Nat} (h : e.Fits room) {us : List Token}
    (hus : us.map Token.kind = e.kinds) : ∃ e', e'.bare = e.bare ∧ IsExpression room us e' :=
  (e.derives h.1).expression h.1 h.2 hus

/-! ### Declarations -/

theorem Expr.FitsIterable.derives {e : Expr} {room : Nat} (h : e.FitsIterable room)
    {us : List Token} (hus : us.map Token.kind = e.kinds) :
    ∃ e', e'.bare = e.bare ∧ IsIterable room us e' := by
  cases e with
  | range start stop token =>
    obtain ⟨hstart, hstop, htoken⟩ := h
    simp only [Expr.kinds, List.map_eq_append_iff, List.map_eq_cons_iff] at hus
    obtain ⟨vs, _, rfl, hvs, colon, ws, rfl, hcolon, hws⟩ := hus
    have hbare : colon.bare = token.bare := Token.bare_eq_iff.mpr (hcolon.trans htoken.symm)
    obtain ⟨s', hs', hderiveds⟩ := hstart.derives hvs
    obtain ⟨t', ht', hderivedt⟩ := hstop.derives hws
    exact ⟨.range s' t' colon, by simp only [Expr.bare, hbare, hs', ht'],
      .range hderiveds hcolon hderivedt⟩
  | steppedRange start stop step token =>
    obtain ⟨hstart, hstop, hstep, htoken⟩ := h
    simp only [Expr.kinds, List.map_eq_append_iff, List.map_eq_cons_iff] at hus
    obtain ⟨vs, _, rfl, hvs, colon, _, rfl, hcolon, ws, _, rfl, hws, colon', xs, rfl, hcolon', hxs⟩ :=
      hus
    have hbare : colon.bare = token.bare := Token.bare_eq_iff.mpr (hcolon.trans htoken.symm)
    obtain ⟨s', hs', hderiveds⟩ := hstart.derives hvs
    obtain ⟨t', ht', hderivedt⟩ := hstop.derives hws
    obtain ⟨u', hu', hderivedu⟩ := hstep.derives hxs
    refine ⟨.steppedRange s' t' u' colon, by simp only [Expr.bare, hbare, hs', ht', hu'], ?_⟩
    simpa using IsIterable.steppedRange hderiveds hcolon hderivedt hcolon' hderivedu
  | _ =>
    obtain ⟨e', he', hderived⟩ := Expr.Fits.derives h hus
    exact ⟨e', he', .expression hderived⟩

theorem DeclaredType.derives {declared : DeclaredType} (h : declared.Sound) {us : List Token}
    (hus : us.map Token.kind = declared.kinds) :
    ∃ declared', declared'.bare = declared.bare ∧ IsDeclaredType us declared' := by
  simp only [DeclaredType.kinds, List.map_eq_cons_iff, List.map_eq_nil_iff] at hus
  obtain ⟨word, _, rfl, hword, paren, _, rfl, hparen, name, _, rfl, hname, close, _, rfl, hclose,
    rfl⟩ := hus
  have hbare : name.bare = declared.token.bare := Token.bare_eq_iff.mpr (hname.trans h.symm)
  refine ⟨⟨declared.type, name⟩, by simp only [DeclaredType.bare, hbare], ?_⟩
  exact .named hword hparen (TokenKind.type?_eq_some.mpr hname) hclose

theorem DeclaredResult.derives {declared : DeclaredResult} (h : declared.Sound) {us : List Token}
    (hus : us.map Token.kind = declared.kinds) :
    ∃ declared', declared'.bare = declared.bare ∧ IsDeclaredResult us declared' := by
  simp only [DeclaredResult.kinds, List.map_eq_cons_iff, List.map_eq_nil_iff] at hus
  obtain ⟨word, _, rfl, hword, paren, _, rfl, hparen, name, _, rfl, hname, close, _, rfl, hclose,
    rfl⟩ := hus
  obtain ⟨type, token⟩ := declared
  have hbare : name.bare = token.bare := Token.bare_eq_iff.mpr (hname.trans h.symm)
  refine ⟨⟨type, name⟩, by simp only [DeclaredResult.bare, hbare], ?_⟩
  cases type with
  | none => exact .void hword hparen hname hclose
  | some type => exact .named hword hparen (TokenKind.type?_eq_some.mpr hname) hclose

theorem FitsDeclared.derives {name : String} {value : Option Expr} {token : Token} {room : Nat}
    (h : FitsDeclared name value token room) {us : List Token}
    (hus : us.map Token.kind = declaredKinds name value) :
    ∃ sign vs value', us = sign :: vs ∧ sign.bare = token.bare ∧ sign.kind = .identifier name ∧
      value'.map Expr.bare = value.map Expr.bare ∧ IsInitializer room vs value' := by
  obtain ⟨_, htoken, hvalue⟩ := h
  cases value with
  | none =>
    simp only [declaredKinds, List.map_eq_cons_iff, List.map_eq_nil_iff] at hus
    obtain ⟨sign, _, rfl, hsign, rfl⟩ := hus
    have hbare : sign.bare = token.bare := Token.bare_eq_iff.mpr (hsign.trans htoken.symm)
    exact ⟨sign, [], none, rfl, hbare, hsign, rfl, .absent⟩
  | some e =>
    simp only [declaredKinds, List.map_eq_cons_iff] at hus
    obtain ⟨sign, _, rfl, hsign, assign, vs, rfl, hassign, hvs⟩ := hus
    have hbare : sign.bare = token.bare := Token.bare_eq_iff.mpr (hsign.trans htoken.symm)
    obtain ⟨e', he', hderived⟩ := (hvalue e rfl).derives hvs
    exact ⟨sign, _, some e', rfl, hbare, hsign, congrArg some he', .given hassign hderived⟩

theorem Declarator.Fits.derives {d : Declarator} {room : Nat} (h : d.Fits room) (us : List Token)
    (hus : us.map Token.kind = declaredKinds d.name d.initializer) :
    ∃ d', d'.bare = d.bare ∧ IsDeclarator room us d' := by
  obtain ⟨sign, vs, value', rfl, hbare, hsign, hvalue, hderived⟩ := FitsDeclared.derives h hus
  exact ⟨⟨d.name, value', sign⟩, by simp only [Declarator.bare, hbare, hvalue],
    .named hsign hderived⟩

theorem VarDecl.Fits.derives {decl : VarDecl} {room : Nat} (h : decl.Fits room) {us : List Token}
    (hus : us.map Token.kind = decl.kinds) :
    ∃ decl', decl'.bare = decl.bare ∧ IsVarDecl room us decl' := by
  obtain ⟨declared, declarators⟩ := decl
  obtain ⟨htype, hne, hdeclarators⟩ := h
  simp only [VarDecl.kinds, List.map_eq_append_iff] at hus
  obtain ⟨vs, ws, rfl, hvs, hws⟩ := hus
  obtain ⟨declared', hdeclared', hderivedt⟩ := DeclaredType.derives htype hvs
  cases declarators with
  | nil => exact absurd rfl hne
  | cons d ds =>
    have hitem : ∀ b ∈ d :: ds, ∀ xs : List Token,
        xs.map Token.kind = declaredKinds b.name b.initializer →
          ∃ b', b'.bare = b.bare ∧ IsDeclarator room xs b' :=
      fun b hb xs hxs => (hdeclarators b hb).derives xs hxs
    obtain ⟨xs, ys, d', ds', rfl, hd', hds', hview, hviews⟩ := derives_more hitem hws
    refine ⟨⟨declared', d' :: ds'⟩, ?_, ?_⟩
    · simp only [VarDecl.bare, hdeclared', List.map_cons, hview, hviews]
    · simpa using IsVarDecl.typed hderivedt hd' hds'

theorem Param.Fits.derives {param : Param} {room : Nat} (h : param.Fits room) (us : List Token)
    (hus : us.map Token.kind = param.kinds) :
    ∃ param', param'.bare = param.bare ∧ IsParameter room us param' := by
  obtain ⟨htype, hdeclared⟩ := h
  simp only [Param.kinds, List.map_eq_append_iff] at hus
  obtain ⟨vs, ws, rfl, hvs, hws⟩ := hus
  obtain ⟨declared', hdeclared', hderivedt⟩ := DeclaredType.derives htype hvs
  obtain ⟨sign, xs, value', rfl, hbare, hsign, hvalue, hderived⟩ := hdeclared.derives hws
  exact ⟨⟨declared', param.name, value', sign⟩, by simp only [Param.bare, hbare, hvalue, hdeclared'],
    .typed hderivedt hsign hderived⟩

/-! ### Statements -/

theorem Expr.kinds_asStatement (e : Expr) : e.asStatement.kinds = e.kinds := by
  cases e <;> rfl

theorem Expr.bare_asStatement (e : Expr) : e.asStatement.bare = e.bare.asStatement := by
  cases e <;> rfl

/-- A block is derived from its braces and what stands between them. -/
theorem derives_block {body : List Statement} {room : Nat} (hroom : 0 < room) {us : List Token}
    (hus : us.map Token.kind = blockKinds (Statement.kindsList body))
    (h : ∀ vs : List Token, vs.map Token.kind = Statement.kindsList body →
      ∃ body', Statement.bareList body' = Statement.bareList body ∧
        IsStatements (room - 1) vs body') :
    ∃ body', Statement.bareList body' = Statement.bareList body ∧ IsBlock room us body' := by
  simp only [blockKinds, List.map_eq_append_iff, List.map_eq_cons_iff, List.map_eq_nil_iff] at hus
  obtain ⟨brace, _, rfl, hbrace, vs, _, rfl, hvs, close, _, rfl, hclose, rfl⟩ := hus
  obtain ⟨body', hbody', hderived⟩ := h vs hvs
  have hblock := IsBlock.nested hbrace hderived hclose
  rw [Nat.sub_add_cancel hroom] at hblock
  exact ⟨body', hbody', hblock⟩

mutual

theorem Statement.derives : (s : Statement) → {room : Nat} → s.Fits room → (us : List Token) →
    us.map Token.kind = s.kinds → ∃ s', s'.bare = s.bare ∧ IsStatement room us s'
  | .empty, room, _, us, hus => by
    simp only [Statement.kinds, List.map_eq_cons_iff, List.map_eq_nil_iff] at hus
    obtain ⟨semicolon, _, rfl, hsemicolon, rfl⟩ := hus
    exact ⟨.empty, rfl, .empty hsemicolon⟩
  | .declaration decl, room, h, us, hus => by
    simp only [Statement.kinds, List.map_eq_append_iff, List.map_eq_cons_iff,
      List.map_eq_nil_iff] at hus
    obtain ⟨vs, _, rfl, hvs, semicolon, _, rfl, hsemicolon, rfl⟩ := hus
    obtain ⟨decl', hdecl', hderived⟩ := VarDecl.Fits.derives h hvs
    exact ⟨.declaration decl', by simp only [Statement.bare, hdecl'],
      .declaration hderived hsemicolon⟩
  | .assignment target op value token, room, h, us, hus => by
    obtain ⟨_, htoken, hop, hvalue⟩ := h
    obtain ⟨sign, hsign⟩ := Option.isSome_iff_exists.mp hop
    simp only [Statement.kinds, hsign, Option.map_some, Option.toList_some, List.singleton_append,
      List.map_eq_append_iff, List.map_eq_cons_iff, List.map_eq_nil_iff] at hus
    obtain ⟨name, _, rfl, hname, mark, _, rfl, hmark, vs, _, rfl, hvs, semicolon, _, rfl,
      hsemicolon, rfl⟩ := hus
    have hbare : name.bare = token.bare := Token.bare_eq_iff.mpr (hname.trans htoken.symm)
    obtain ⟨e', he', hderived⟩ := hvalue.derives hvs
    refine ⟨.assignment target op e' name, by simp only [Statement.bare, hbare, he'], ?_⟩
    exact .assignment hname (AssignOp.ofKind?_eq_some.mpr ⟨sign, hsign, hmark⟩) hderived hsemicolon
  | .conditional condition body otherwise token, room, h, us, hus => by
    obtain ⟨htoken, hcondition, ⟨hroom, hbody⟩, hotherwise⟩ := h
    simp only [Statement.kinds, List.map_eq_append_iff, List.map_eq_cons_iff] at hus
    obtain ⟨word, _, rfl, hword, vs, _, rfl, hvs, ws, xs, rfl, hws, hxs⟩ := hus
    have hbare : word.bare = token.bare := Token.bare_eq_iff.mpr (hword.trans htoken.symm)
    obtain ⟨c', hc', hderivedc⟩ := hcondition.derives hvs
    obtain ⟨b', hb', hderivedb⟩ := derives_block hroom hws (Statement.derives_list body hbody)
    obtain ⟨o', ho', hderivedo⟩ := Alternative.derives otherwise hotherwise xs hxs
    refine ⟨.conditional c' b' o' word, by simp only [Statement.bare, hbare, hc', hb', ho'], ?_⟩
    simpa using IsStatement.conditional hword hderivedc hderivedb hderivedo
  | .whileLoop condition body token, room, h, us, hus => by
    obtain ⟨htoken, hcondition, hroom, hbody⟩ := h
    simp only [Statement.kinds, List.map_eq_append_iff, List.map_eq_cons_iff] at hus
    obtain ⟨word, _, rfl, hword, vs, ws, rfl, hvs, hws⟩ := hus
    have hbare : word.bare = token.bare := Token.bare_eq_iff.mpr (hword.trans htoken.symm)
    obtain ⟨c', hc', hderivedc⟩ := hcondition.derives hvs
    obtain ⟨b', hb', hderivedb⟩ := derives_block hroom hws (Statement.derives_list body hbody)
    exact ⟨.whileLoop c' b' word, by simp only [Statement.bare, hbare, hc', hb'],
      .whileLoop hword hderivedc hderivedb⟩
  | .forLoop ⟨declared, declarators⟩ iterable body token, room, h, us, hus => by
    obtain ⟨htoken, ⟨htype, _, hdeclarators⟩, ⟨⟨name, value, nameToken⟩, hd, hvalue⟩, hiterable,
      hroom, hbody⟩ := h
    obtain rfl : declarators = [⟨name, value, nameToken⟩] := hd
    obtain rfl : value = none := hvalue
    have hnamed := (hdeclarators _ (List.mem_singleton_self _)).2.1
    simp only [Statement.kinds, VarDecl.kinds, List.map_cons, List.map_nil, commaKinds,
      declaredKinds, List.append_assoc, List.map_eq_append_iff, List.map_eq_cons_iff,
      List.singleton_append] at hus
    obtain ⟨word, _, rfl, hword, ts, _, rfl, hts, sign, _, rfl, hsign, within, _, rfl, hwithin, vs,
      ws, rfl, hvs, hws⟩ := hus
    have hbare : word.bare = token.bare := Token.bare_eq_iff.mpr (hword.trans htoken.symm)
    have hbare' : sign.bare = nameToken.bare := Token.bare_eq_iff.mpr (hsign.trans hnamed.symm)
    obtain ⟨t', ht', hderivedt⟩ := DeclaredType.derives htype hts
    obtain ⟨i', hi', hderivedi⟩ := hiterable.derives hvs
    obtain ⟨b', hb', hderivedb⟩ := derives_block hroom hws (Statement.derives_list body hbody)
    refine ⟨.forLoop ⟨t', [⟨name, none, sign⟩]⟩ i' b' word, ?_, ?_⟩
    · simp only [Statement.bare, VarDecl.bare, Declarator.bare, List.map_cons, List.map_nil,
        Option.map_none, hbare, hbare', ht', hi', hb']
    · simpa using IsStatement.forLoop hword hderivedt hsign hwithin hderivedi hderivedb
  | .breakLoop token, room, h, us, hus => by
    simp only [Statement.kinds, List.map_eq_cons_iff, List.map_eq_nil_iff] at hus
    obtain ⟨word, _, rfl, hword, semicolon, _, rfl, hsemicolon, rfl⟩ := hus
    have hbare : word.bare = token.bare := Token.bare_eq_iff.mpr (hword.trans (Eq.symm h))
    exact ⟨.breakLoop word, by simp only [Statement.bare, hbare], .breakLoop hword hsemicolon⟩
  | .continueLoop token, room, h, us, hus => by
    simp only [Statement.kinds, List.map_eq_cons_iff, List.map_eq_nil_iff] at hus
    obtain ⟨word, _, rfl, hword, semicolon, _, rfl, hsemicolon, rfl⟩ := hus
    have hbare : word.bare = token.bare := Token.bare_eq_iff.mpr (hword.trans (Eq.symm h))
    exact ⟨.continueLoop word, by simp only [Statement.bare, hbare],
      .continueLoop hword hsemicolon⟩
  | .returnFrom none token, room, h, us, hus => by
    simp only [Statement.kinds, List.map_eq_cons_iff, List.map_eq_nil_iff] at hus
    obtain ⟨word, _, rfl, hword, semicolon, _, rfl, hsemicolon, rfl⟩ := hus
    have hbare : word.bare = token.bare := Token.bare_eq_iff.mpr (hword.trans h.1.symm)
    exact ⟨.returnFrom none word, by simp only [Statement.bare, hbare],
      .returnNothing hword hsemicolon⟩
  | .returnFrom (some value) token, room, h, us, hus => by
    simp only [Statement.kinds, List.map_eq_append_iff, List.map_eq_cons_iff,
      List.map_eq_nil_iff] at hus
    obtain ⟨word, _, rfl, hword, vs, _, rfl, hvs, semicolon, _, rfl, hsemicolon, rfl⟩ := hus
    have hbare : word.bare = token.bare := Token.bare_eq_iff.mpr (hword.trans h.1.symm)
    obtain ⟨e', he', hderived⟩ := (h.2 value rfl).derives hvs
    exact ⟨.returnFrom (some e') word,
      by simp only [Statement.bare, Option.map_some, hbare, he'],
      .returnValue hword hderived hsemicolon⟩
  | .function ⟨returns, name, params, body, token⟩, room, h, us, hus => by
    obtain ⟨hreturns, _, hnamed, hparams, hroom, hbody⟩ := h
    simp only [Statement.kinds, FunctionDecl.kinds, List.map_eq_append_iff,
      List.map_eq_cons_iff] at hus
    obtain ⟨ts, _, rfl, hts, sign, _, rfl, hsign, paren, _, rfl, hparen, vs, _, rfl, hvs, close, ws,
      rfl, hclose, hws⟩ := hus
    have hbare : sign.bare = token.bare := Token.bare_eq_iff.mpr (hsign.trans hnamed.symm)
    obtain ⟨r', hr', hderivedr⟩ := DeclaredResult.derives hreturns hts
    have hlist : (vs ++ [close]).map Token.kind =
        commaKinds (params.map Param.kinds) ++ [.mark .rightParen] := by
      rw [List.map_append, hvs, List.map_singleton, hclose]
    obtain ⟨p', hp', hderivedp⟩ :=
      derives_commaSeparated (fun param hparam => (hparams param hparam).derives) hlist
    obtain ⟨b', hb', hderivedb⟩ := derives_block hroom hws (Statement.derives_list body hbody)
    refine ⟨.function ⟨r', name, p', b', sign⟩, ?_, ?_⟩
    · simp only [Statement.bare, FunctionDecl.bare, hbare, hr', hp', hb']
    · simpa using IsStatement.function hderivedr hsign hparen hderivedp hderivedb
  | .expression expr, room, h, us, hus => by
    obtain ⟨e, he, rfl⟩ := h
    simp only [Statement.kinds, Expr.kinds_asStatement, List.map_eq_append_iff,
      List.map_eq_cons_iff, List.map_eq_nil_iff] at hus
    obtain ⟨vs, _, rfl, hvs, semicolon, _, rfl, hsemicolon, rfl⟩ := hus
    obtain ⟨e', he', hderived⟩ := he.derives hvs
    refine ⟨.expression e'.asStatement, ?_, .expression hderived hsemicolon⟩
    simp only [Statement.bare, Expr.bare_asStatement, he']

theorem Alternative.derives : (otherwise : Alternative) → {room : Nat} → otherwise.Fits room →
    (us : List Token) → us.map Token.kind = otherwise.kinds →
      ∃ otherwise', otherwise'.bare = otherwise.bare ∧ IsAlternative room us otherwise'
  | .absent, room, _, us, hus => by
    simp only [Alternative.kinds, List.map_eq_nil_iff] at hus
    subst hus
    exact ⟨.absent, rfl, .absent⟩
  | .elseif condition body rest, room, h, us, hus => by
    obtain ⟨hcondition, ⟨hroom, hbody⟩, hrest⟩ := h
    simp only [Alternative.kinds, List.map_eq_append_iff, List.map_eq_cons_iff] at hus
    obtain ⟨word, _, rfl, hword, vs, _, rfl, hvs, ws, xs, rfl, hws, hxs⟩ := hus
    obtain ⟨c', hc', hderivedc⟩ := hcondition.derives hvs
    obtain ⟨b', hb', hderivedb⟩ := derives_block hroom hws (Statement.derives_list body hbody)
    obtain ⟨o', ho', hderivedo⟩ := Alternative.derives rest hrest xs hxs
    refine ⟨.elseif c' b' o', by simp only [Alternative.bare, hc', hb', ho'], ?_⟩
    simpa using IsAlternative.elseif hword hderivedc hderivedb hderivedo
  | .otherwise body, room, h, us, hus => by
    obtain ⟨hroom, hbody⟩ := h
    simp only [Alternative.kinds, List.map_eq_cons_iff] at hus
    obtain ⟨word, vs, rfl, hword, hvs⟩ := hus
    obtain ⟨b', hb', hderivedb⟩ := derives_block hroom hvs (Statement.derives_list body hbody)
    exact ⟨.otherwise b', by simp only [Alternative.bare, hb'], .otherwise hword hderivedb⟩

/-- The token kinds of sound statements derive them again, with the room they fit in. -/
theorem Statement.derives_list : (body : List Statement) → {room : Nat} →
    Statement.FitsList body room → (us : List Token) → us.map Token.kind = Statement.kindsList body →
      ∃ body', Statement.bareList body' = Statement.bareList body ∧ IsStatements room us body'
  | [], room, _, us, hus => by
    simp only [Statement.kindsList, List.map_eq_nil_iff] at hus
    subst hus
    exact ⟨[], rfl, .nil⟩
  | s :: body, room, h, us, hus => by
    simp only [Statement.kindsList, List.map_eq_append_iff] at hus
    obtain ⟨vs, ws, rfl, hvs, hws⟩ := hus
    obtain ⟨s', hs', hderived⟩ := Statement.derives s h.1 vs hvs
    obtain ⟨body', hbody', hrest⟩ := Statement.derives_list body h.2 ws hws
    exact ⟨s' :: body', by simp only [Statement.bareList, hs', hbody'], .cons hderived hrest⟩

end

end ScopedScript
