import ScopedScript.Proofs.RoundTrip.Derivation

/-!
# Parentheses for grouping

Of the parentheses in a source some belong to a name, a type or a declaration: they open a list of
arguments or parameters, or hold a type. All others group an expression and leave no trace in the
tree. Which is which can be seen from the token before, since no expression begins behind a name or
a type.

An expression that is derived with parentheses around it is derived without them wherever it holds
together tightly enough. So the tokens of any phrase can shed all the parentheses for grouping that
the written tree does without, and stay tokens of that phrase. What is shed by parts of a phrase that
stand next to each other is shed by the phrase.
-/

namespace ScopedScript

/-- A parenthesis behind such a token goes with it: the token names what is called or declared, or
is about to be told a type. -/
def TokenKind.opensList : TokenKind → Bool
  | .identifier _ => true
  | .keyword word => word.type?.isSome || word = .kwVar || word = .kwFunc
  | _ => false

theorem BinaryOp.opensList_kind (op : BinaryOp) : op.kind.opensList = false := by
  cases op <;> rfl

theorem BinaryOp.kind_ne_leftParen (op : BinaryOp) : op.kind ≠ .mark .leftParen := by
  cases op <;> decide

theorem UnaryOp.opensList_kind (op : UnaryOp) : op.kind.opensList = false := by
  cases op <;> rfl

/-- A parenthesis. -/
def TokenKind.isParenthesis : TokenKind → Bool
  | .mark .leftParen | .mark .rightParen => true
  | _ => false

namespace Grammar

/-! ## Tokens without parentheses -/

/-- A parenthesis at the start of the second part does not go with the end of the first. -/
def Apart (ts us : List Token) : Prop :=
  ∀ t ∈ ts.getLast?, t.kind.opensList → ∀ u ∈ us.head?, u.kind ≠ .mark .leftParen

/-- The second list is the first one without so many pairs of parentheses that group expressions. -/
inductive Ungroups : Nat → List Token → List Token → Prop where
  | keep (ts : List Token) : Ungroups 0 ts ts
  /-- Parentheses around an expression are left out, and others inside. -/
  | drop {count room : Nat} {paren close : Token} {ts us : List Token} {e : Expr}
      (hparen : paren.kind = .mark .leftParen) (h : IsExpression room ts e)
      (hclose : close.kind = .mark .rightParen) (hinside : Ungroups count ts us) :
      Ungroups (count + 1) (paren :: ts ++ [close]) us
  | append {count count' : Nat} {ts us ts' us' : List Token} (h : Ungroups count ts us)
      (h' : Ungroups count' ts' us') (hapart : Apart ts ts') :
      Ungroups (count + count') (ts ++ ts') (us ++ us')

theorem Ungroups.eq_of_zero {count : Nat} {ts us : List Token} (h : Ungroups count ts us)
    (hcount : count = 0) : us = ts := by
  induction h with
  | keep ts => rfl
  | drop => cases hcount
  | append _ _ _ ih ih' => rw [ih (by omega), ih' (by omega)]

/-- Of each of the two signs as many are lost as there are pairs left out. -/
theorem Ungroups.count_eq {count : Nat} {ts us : List Token} (h : Ungroups count ts us) {sign : Mark}
    (hsign : sign = .leftParen ∨ sign = .rightParen) :
    (ts.map Token.kind).count (.mark sign) = (us.map Token.kind).count (.mark sign) + count := by
  induction h with
  | keep ts => rfl
  | drop hparen _ hclose _ ih =>
    obtain rfl | rfl := hsign
    all_goals
      simp [hparen, hclose, ih]
      omega
  | append _ _ _ ih ih' =>
    simp only [List.map_append, List.count_append, ih, ih']
    omega

/-- All other tokens stay, in their order. -/
theorem Ungroups.others_eq {count : Nat} {ts us : List Token} (h : Ungroups count ts us) :
    us.filter (fun t => !t.kind.isParenthesis) = ts.filter fun t => !t.kind.isParenthesis := by
  induction h with
  | keep ts => rfl
  | drop hparen _ hclose _ ih =>
    have hopens : (TokenKind.mark .leftParen).isParenthesis := rfl
    have hcloses : (TokenKind.mark .rightParen).isParenthesis := rfl
    simp [hparen, hclose, hopens, hcloses, ih]
  | append _ _ _ ih ih' => rw [List.filter_append, List.filter_append, ih, ih']

/-! ### What stands apart -/

section Apart

variable {ts us : List Token} {t : Token}

theorem apart_concat (ts : List Token) (ht : t.kind.opensList = false) :
    Apart (ts ++ [t]) us := by
  intro t' ht' hopens
  rw [List.getLast?_concat] at ht'
  obtain rfl := Option.some.inj ht'
  rw [ht] at hopens
  cases hopens

theorem apart_of_head (h : ∀ u ∈ us.head?, u.kind ≠ .mark .leftParen) : Apart ts us :=
  fun _ _ _ => h

/-- Behind a sign everything stands apart. -/
theorem apart_mark {sign : Mark} (ts : List Token) (h : t.kind = .mark sign) :
    Apart (ts ++ [t]) us :=
  apart_concat ts (by rw [h]; rfl)

/-- So does everything before a token other than an opening parenthesis. -/
theorem apart_cons (h : t.kind ≠ .mark .leftParen) : Apart ts (t :: us) := by
  refine apart_of_head fun u hu => ?_
  obtain rfl := Option.some.inj hu
  exact h

theorem apart_cons_mark {sign : Mark} (h : t.kind = .mark sign) (hsign : sign ≠ .leftParen) :
    Apart ts (t :: us) :=
  apart_cons (by rw [h]; exact fun heq => hsign (TokenKind.mark.inj heq))

end Apart

/-! ## Phrases without parentheses -/

/-- Tokens that derive something shed parentheses for grouping until they have the given kinds, and
derive the same then. If they shed any, they can do without one pair alone. -/
structure Sheds (D : List Token → Prop) (kinds : List TokenKind) (ts : List Token) : Prop where
  derives : D ts
  sheds : ∃ count us, Ungroups count ts us ∧ D us ∧ us.map Token.kind = kinds ∧
    (count = 0 ∨ ∃ vs, Ungroups 1 ts vs ∧ D vs)

/-- Tokens of one phrase and of another behind it. -/
def Joined (D D' : List Token → Prop) (ts : List Token) : Prop :=
  ∃ us vs, D us ∧ D' vs ∧ ts = us ++ vs

section Sheds

variable {D D' : List Token → Prop} {kinds kinds' : List TokenKind} {ts us : List Token}

theorem sheds_of_derives (h : D ts) (hkinds : ts.map Token.kind = kinds) : Sheds D kinds ts :=
  ⟨h, 0, ts, .keep ts, h, hkinds, .inl rfl⟩

theorem sheds_keep (ts : List Token) : Sheds (· = ts) (ts.map Token.kind) ts :=
  sheds_of_derives rfl rfl

theorem Sheds.imp (h : Sheds D kinds ts) (himp : ∀ xs, D xs → D' xs) (hkinds : kinds = kinds') :
    Sheds D' kinds' ts := by
  obtain ⟨hderives, count, us, hus, hus', rfl, hone⟩ := h
  refine ⟨himp ts hderives, count, us, hus, himp us hus', hkinds, hone.imp id ?_⟩
  rintro ⟨vs, hvs, hvs'⟩
  exact ⟨vs, hvs, himp vs hvs'⟩

theorem Sheds.append (h : Sheds D kinds ts) (h' : Sheds D' kinds' us) (hapart : Apart ts us) :
    Sheds (Joined D D') (kinds ++ kinds') (ts ++ us) := by
  obtain ⟨hts, count, ts', hdrop, hts', rfl, hone⟩ := h
  obtain ⟨hus, count', us', hdrop', hus', rfl, hone'⟩ := h'
  refine ⟨⟨ts, us, hts, hus, rfl⟩, count + count', ts' ++ us', hdrop.append hdrop' hapart,
    ⟨ts', us', hts', hus', rfl⟩, List.map_append, ?_⟩
  obtain rfl | ⟨vs, hvs, hderives⟩ := hone
  · obtain rfl | ⟨vs, hvs, hderives⟩ := hone'
    · exact .inl rfl
    · exact .inr ⟨ts ++ vs, (Ungroups.keep ts).append hvs hapart, ts, vs, hts, hderives, rfl⟩
  · exact .inr ⟨vs ++ us, hvs.append (.keep us) hapart, vs, us, hderives, hus, rfl⟩

/-- A token in front of a phrase stays. -/
theorem Sheds.cons (h : Sheds D kinds ts) {t : Token} (ht : t.kind.opensList = false) :
    Sheds (fun xs => ∃ ys, D ys ∧ xs = t :: ys) (t.kind :: kinds) (t :: ts) := by
  refine ((sheds_keep [t]).append h (apart_concat [] ht)).imp ?_ rfl
  rintro _ ⟨_, ys, rfl, hys, rfl⟩
  exact ⟨ys, hys, rfl⟩

/-- So does one behind it. -/
theorem Sheds.concat (h : Sheds D kinds ts) {t : Token} (ht : t.kind ≠ .mark .leftParen) :
    Sheds (fun xs => ∃ ys, D ys ∧ xs = ys ++ [t]) (kinds ++ [t.kind]) (ts ++ [t]) := by
  refine (h.append (sheds_keep [t]) (apart_cons ht)).imp ?_ rfl
  rintro _ ⟨ys, _, hys, rfl, rfl⟩
  exact ⟨ys, hys, rfl⟩

/-- Parentheses around an expression are shed with those inside, wherever it stands without them. -/
theorem Sheds.drop {paren close : Token} {room : Nat} {e : Expr} (h : Sheds D kinds ts)
    (hparen : paren.kind = .mark .leftParen) (hexpression : IsExpression room ts e)
    (hclose : close.kind = .mark .rightParen) (hgroup : D' (paren :: ts ++ [close]))
    (himp : ∀ xs, D xs → D' xs) : Sheds D' kinds (paren :: ts ++ [close]) := by
  obtain ⟨hts, count, us, hdrop, hus, rfl, -⟩ := h
  refine ⟨hgroup, count + 1, us, .drop hparen hexpression hclose hdrop, himp us hus, rfl, .inr ?_⟩
  exact ⟨ts, .drop hparen hexpression hclose (.keep ts), himp ts hts⟩

end Sheds

/-! ## Expressions -/

/-! ### Room and strength -/

mutual

/-- What is derived is derived with more room. -/
theorem IsExpression.mono {room room' : Nat} {ts : List Token} {e : Expr} :
    IsExpression room ts e → room ≤ room' → IsExpression room' ts e
  | .nested h, hle => by
    obtain ⟨less, rfl⟩ : ∃ less, room' = less + 1 := ⟨room' - 1, by omega⟩
    exact .nested (h.mono (Nat.le_of_succ_le_succ hle))

theorem IsLevel.mono {level room room' : Nat} {ts : List Token} {e : Expr} :
    IsLevel level room ts e → room ≤ room' → IsLevel level room' ts e
  | .operand h, hle => .operand (h.mono hle)
  | .tighter hlevel h, hle => .tighter hlevel (h.mono hle)
  | .binary hop hlevel hleft hright, hle =>
    .binary hop hlevel (hleft.mono hle) (hright.mono hle)

theorem IsOperand.mono {room room' : Nat} {ts : List Token} {e : Expr} :
    IsOperand room ts e → room ≤ room' → IsOperand room' ts e
  | .atom h, hle => .atom (h.mono hle)
  | .unary hop h, hle => by
    obtain ⟨less, rfl⟩ : ∃ less, room' = less + 1 := ⟨room' - 1, by omega⟩
    exact .unary hop (h.mono (Nat.le_of_succ_le_succ hle))

theorem IsAtom.mono {room room' : Nat} {ts : List Token} {e : Expr} :
    IsAtom room ts e → room ≤ room' → IsAtom room' ts e
  | .literal h, _ => .literal h
  | .var h, _ => .var h
  | .call hname hparen h, hle => .call hname hparen (h.mono hle)
  | .group hparen h hclose, hle => .group hparen (h.mono hle) hclose
  | .index hbase hbracket h hclose, hle =>
    .index (hbase.mono hle) hbracket (h.mono hle) hclose
  | .slice hbase hbracket hstart hcolon hstop hclose, hle =>
    .slice (hbase.mono hle) hbracket (hstart.mono hle) hcolon (hstop.mono hle) hclose

theorem IsArguments.mono {room room' : Nat} {ts : List Token} {es : List Expr} :
    IsArguments room ts es → room ≤ room' → IsArguments room' ts es
  | .empty hclose, _ => .empty hclose
  | .items h hrest hclose, hle => .items (h.mono hle) (hrest.mono hle) hclose

theorem IsMoreArguments.mono {room room' : Nat} {ts : List Token} {es : List Expr} :
    IsMoreArguments room ts es → room ≤ room' → IsMoreArguments room' ts es
  | .nil, _ => .nil
  | .cons hcomma h hrest, hle => .cons hcomma (h.mono hle) (hrest.mono hle)

end

section Tight

variable {strength room : Nat} {ts : List Token} {e : Expr}

theorem IsTight.mono (h : IsTight strength room ts e) {room' : Nat} (hle : room ≤ room') :
    IsTight strength room' ts e := by
  cases h with
  | atom h => exact .atom (h.mono hle)
  | operand h => exact .operand (h.mono hle)
  | level hlevel h => exact .level hlevel (h.mono hle)

/-- What holds together tightly is fit for looser places. -/
theorem IsTight.loosen (h : IsTight strength room ts e) {looser : Nat} (hle : looser ≤ strength) :
    IsTight looser room ts e := by
  by_cases hatom : atomStrength ≤ looser
  · have hstrength : strength ≤ atomStrength := by
      cases h with
      | atom => exact Nat.le_refl _
      | operand => decide
      | level hlevel _ => exact Nat.le_trans hlevel (by decide)
    obtain rfl : looser = atomStrength := by omega
    exact .atom (h.isAtom hle)
  · by_cases hoperand : unaryStrength ≤ looser
    · obtain rfl : looser = unaryStrength := by
        simp only [atomStrength, unaryStrength] at *
        omega
      exact .operand (h.isOperand hle)
    · have hlevel : looser ≤ 6 := by
        simp only [unaryStrength] at hoperand
        omega
      exact .level hlevel (h.isLevel (by omega) hle)

end Tight

end Grammar

theorem Expr.strength_le (e : Expr) : e.strength ≤ atomStrength := by
  cases e with
  | binary left op right token => exact Nat.le_trans op.precedence_le_six (by decide)
  | _ => simp [Expr.strength, atomStrength, unaryStrength]

namespace Grammar

/-! ### Operands -/

/-- Tokens of an expression shed all parentheses that need not be written, those around the whole
among them. Where the expression does not hold together tightly enough there are some around it, and
these can be kept. -/
structure ShedsAt (level room : Nat) (ts : List Token) (e : Expr) : Prop where
  bare : Sheds (IsTight e.strength room · e) e.kinds ts
  grouped : e.strength < level → Sheds (IsAtom room · e) (enclose true e.kinds) ts

section ShedsAt

variable {level room : Nat} {ts : List Token} {e : Expr}

theorem ShedsAt.loosen (h : ShedsAt level room ts e) {looser : Nat} (hle : looser ≤ level) :
    ShedsAt looser room ts e :=
  ⟨h.bare, fun hlt => h.grouped (Nat.lt_of_lt_of_le hlt hle)⟩

/-- An expression that is fit for its place needs no parentheses. -/
theorem shedsAt_of_bare (h : Sheds (IsTight e.strength room · e) e.kinds ts)
    (hle : level ≤ e.strength) : ShedsAt level room ts e :=
  ⟨h, fun hlt => absurd hle (Nat.not_le_of_lt hlt)⟩

/-- An operand keeps the parentheses that are written around it. -/
theorem ShedsAt.operand (h : ShedsAt level room ts e) (hlevel : level ≤ atomStrength) :
    Sheds (IsTight level room · e) (enclose (e.strength < level) e.kinds) ts := by
  by_cases hlt : e.strength < level
  · exact (h.grouped hlt).imp (fun _ hxs => (IsTight.atom hxs).loosen hlevel) (by simp [hlt])
  · exact h.bare.imp (fun _ hxs => hxs.loosen (Nat.not_lt.mp hlt)) (by simp [enclose, hlt])

/-- Tokens that derive the tree of an expression as tightly as can be derive an expression. -/
theorem IsExpression.of_tight (h : IsExpression room ts e) (hts : Readable ts) {xs : List Token}
    (hxs : IsTight e.strength (room - 1) xs e) : IsExpression room xs e := by
  have hstrength := (h.fits hts).1.one_le_strength
  cases h with
  | nested h => exact hxs.isExpression hstrength

/-- Parentheses are kept around an expression that is loose, and else are shed. -/
theorem shedsAt_group {paren close : Token} (hparen : paren.kind = .mark .leftParen)
    (h : IsExpression room ts e) (hts : Readable ts) (hclose : close.kind = .mark .rightParen)
    (hbare : Sheds (IsTight e.strength (room - 1) · e) e.kinds ts) :
    ShedsAt atomStrength room (paren :: ts ++ [close]) e where
  bare := by
    have hgroup := (IsTight.atom (.group hparen h hclose)).loosen e.strength_le
    exact hbare.drop hparen h hclose hgroup fun _ hxs => hxs.mono (Nat.sub_le _ _)
  grouped _ := by
    have hall := (hbare.cons (by rw [hparen]; rfl)).concat (by rw [hclose]; decide)
    refine hall.imp ?_ (by simp [enclose, hparen, hclose])
    rintro _ ⟨_, ⟨xs, hxs, rfl⟩, rfl⟩
    exact .group hparen (h.of_tight hts hxs) hclose

end ShedsAt

/-! ### All expressions -/

/-- More of a list begins with a comma. -/
theorem IsMore.apart {α : Type} {item : List Token → α → Prop} {ts us : List Token}
    {items : List α} (h : IsMore item us items) : Apart ts us := by
  cases h with
  | nil => exact apart_of_head nofun
  | cons hcomma _ _ => exact apart_cons_mark hcomma (by decide)

theorem commaKinds_cons (kinds : List TokenKind) (rest : List (List TokenKind)) :
    commaKinds (kinds :: rest) = kinds ++ rest.flatMap (.mark .comma :: ·) := by
  induction rest generalizing kinds with
  | nil => simp [commaKinds]
  | cons kinds' rest ih => simp [commaKinds, ih]

mutual

/-- Expressions shed the parentheses that are not written, those around the whole among them. -/
theorem IsExpression.shedsTight {room : Nat} {ts : List Token} {e : Expr} :
    IsExpression room ts e → Readable ts → Sheds (IsTight e.strength (room - 1) · e) e.kinds ts
  | .nested h, hts => (h.sheds hts).bare

theorem IsLevel.sheds {level room : Nat} {ts : List Token} {e : Expr} :
    IsLevel level room ts e → Readable ts → ShedsAt level room ts e
  | .operand h, hts => h.sheds hts
  | .tighter _ h, hts => (h.sheds hts).loosen (Nat.le_succ _)
  | @IsLevel.binary _ _ _ _ _ _ _ op hop rfl hleft hright, hts => by
    simp only [Readable, List.forall_mem_append, List.forall_mem_cons] at hts
    have hsign := BinaryOp.ofKind?_eq_some.mp hop
    have hsix := op.precedence_le_six
    have hl := (hleft.sheds hts.1).operand (Nat.le_trans hsix (by decide))
    have hr := (hright.sheds hts.2.2).operand (Nat.le_trans (Nat.succ_le_succ hsix) (by decide))
    have hsigned := hr.cons (by rw [hsign, op.opensList_kind])
    have hall := hl.append hsigned (apart_cons (by rw [hsign]; exact op.kind_ne_leftParen))
    refine shedsAt_of_bare (hall.imp ?_ ?_) (Nat.le_refl _)
    · rintro _ ⟨xs, _, hxs, ⟨ys, hys, rfl⟩, rfl⟩
      have hl := hxs.isLevel (Nat.le_trans hsix (by decide)) (Nat.le_refl _)
      have hr := hys.isLevel (Nat.succ_le_succ hsix) (Nat.le_refl _)
      exact .level hsix (.binary hop rfl hl hr)
    · simp [Expr.kinds, enclose_le, hsign]

theorem IsOperand.sheds {room : Nat} {ts : List Token} {e : Expr} :
    IsOperand room ts e → Readable ts → ShedsAt unaryStrength room ts e
  | .atom h, hts => (h.sheds hts).loosen (by decide)
  | @IsOperand.unary _ _ _ _ op hop h, hts => by
    have hsign := UnaryOp.ofKind?_eq_some.mp hop
    have hoperand := (h.sheds (List.forall_mem_cons.mp hts).2).operand (by decide)
    have hall := hoperand.cons (by rw [hsign, op.opensList_kind])
    refine shedsAt_of_bare (hall.imp ?_ (by simp [Expr.kinds, hsign])) (Nat.le_refl _)
    rintro _ ⟨xs, hxs, rfl⟩
    exact .operand (.unary hop (hxs.isOperand (Nat.le_refl _)))

theorem IsAtom.sheds {room : Nat} {ts : List Token} {e : Expr} :
    IsAtom room ts e → Readable ts → ShedsAt atomStrength room ts e
  | .literal h, _ =>
    shedsAt_of_bare (sheds_of_derives (.atom (.literal h)) (by simp [Expr.kinds, h])) (Nat.le_refl _)
  | .var h, _ =>
    shedsAt_of_bare (sheds_of_derives (.atom (.var h)) (by simp [Expr.kinds, h])) (Nat.le_refl _)
  | @IsAtom.call _ token paren _ _ _ hname hparen h, hts => by
    simp only [Readable, List.forall_mem_cons] at hts
    have hword := hname.eq_wordKind hts.1
    have hall := (sheds_keep [token, paren]).append (h.sheds hts.2.2) (apart_mark [token] hparen)
    refine shedsAt_of_bare (hall.imp ?_ (by simp [Expr.kinds, hword, hparen])) (Nat.le_refl _)
    rintro _ ⟨_, xs, rfl, hxs, rfl⟩
    exact .atom (.call hname hparen hxs)
  | .group hparen h hclose, hts => by
    simp only [Readable, List.forall_mem_append, List.forall_mem_cons] at hts
    exact shedsAt_group hparen h hts.1.2 hclose (h.shedsTight hts.1.2)
  | .index hbase hbracket h hclose, hts => by
    simp only [Readable, List.forall_mem_append, List.forall_mem_cons] at hts
    have hposition := (h.shedsTight hts.1.2.2).cons (by rw [hbracket]; rfl)
    have hopen := ((hbase.sheds hts.1.1).operand (Nat.le_refl _)).append hposition
      (apart_cons_mark hbracket (by decide))
    have hall := hopen.concat (by rw [hclose]; decide)
    refine shedsAt_of_bare (hall.imp ?_ ?_) (Nat.le_refl _)
    · rintro _ ⟨_, ⟨xs, _, hxs, ⟨ys, hys, rfl⟩, rfl⟩, rfl⟩
      exact .atom (.index (hxs.isAtom (Nat.le_refl _)) hbracket (h.of_tight hts.1.2.2 hys) hclose)
    · simp [Expr.kinds, hbracket, hclose]
  | .slice hbase hbracket hstart hcolon hstop hclose, hts => by
    simp only [Readable, List.forall_mem_append, List.forall_mem_cons] at hts
    have hfrom := (hstart.shedsTight hts.1.1.2.2).cons (by rw [hbracket]; rfl)
    have huntil := (hstop.shedsTight hts.1.2.2).cons (by rw [hcolon]; rfl)
    have hopen := ((hbase.sheds hts.1.1.1).operand (Nat.le_refl _)).append hfrom
      (apart_cons_mark hbracket (by decide))
    have hbounds := hopen.append huntil (apart_cons_mark hcolon (by decide))
    have hall := hbounds.concat (by rw [hclose]; decide)
    refine shedsAt_of_bare (hall.imp ?_ ?_) (Nat.le_refl _)
    · rintro _ ⟨_, ⟨_, _, ⟨xs, _, hxs, ⟨ys, hys, rfl⟩, rfl⟩, ⟨zs, hzs, rfl⟩, rfl⟩, rfl⟩
      exact .atom (.slice (hxs.isAtom (Nat.le_refl _)) hbracket (hstart.of_tight hts.1.1.2.2 hys)
        hcolon (hstop.of_tight hts.1.2.2 hzs) hclose)
    · simp [Expr.kinds, hbracket, hcolon, hclose]

theorem IsArguments.sheds {room : Nat} {ts : List Token} {es : List Expr} :
    IsArguments room ts es → Readable ts →
      Sheds (IsArguments room · es) (commaKinds (Expr.kindsList es) ++ [.mark .rightParen]) ts
  | .empty hclose, _ =>
    sheds_of_derives (.empty hclose) (by simp [Expr.kindsList, commaKinds, hclose])
  | .items h hrest hclose, hts => by
    simp only [Readable, List.forall_mem_append] at hts
    have hitems := (h.shedsTight hts.1.1).append (hrest.sheds hts.1.2)
      (isMoreArguments_iff.mp hrest).apart
    refine (hitems.concat (by rw [hclose]; decide)).imp ?_
      (by simp [Expr.kindsList, commaKinds_cons, hclose])
    rintro _ ⟨_, ⟨xs, ys, hxs, hys, rfl⟩, rfl⟩
    exact .items (h.of_tight hts.1.1 hxs) hys hclose

theorem IsMoreArguments.sheds {room : Nat} {ts : List Token} {es : List Expr} :
    IsMoreArguments room ts es → Readable ts →
      Sheds (IsMoreArguments room · es) ((Expr.kindsList es).flatMap (.mark .comma :: ·)) ts
  | .nil, _ => sheds_of_derives .nil rfl
  | .cons hcomma h hrest, hts => by
    simp only [Readable, List.forall_mem_append, List.forall_mem_cons] at hts
    have hitem := (h.shedsTight hts.1.2).cons (by rw [hcomma]; rfl)
    have hall := hitem.append (hrest.sheds hts.2) (isMoreArguments_iff.mp hrest).apart
    refine hall.imp ?_ (by simp [Expr.kindsList, hcomma])
    rintro _ ⟨_, ys, ⟨xs, hxs, rfl⟩, hys, rfl⟩
    exact .cons hcomma (h.of_tight hts.1.2 hxs) hys

end

/-- Expressions shed the parentheses that are not written. -/
theorem IsExpression.sheds {room : Nat} {ts : List Token} {e : Expr} (h : IsExpression room ts e)
    (hts : Readable ts) : Sheds (IsExpression room · e) e.kinds ts :=
  (h.shedsTight hts).imp (fun _ hxs => h.of_tight hts hxs) rfl

end Grammar

end ScopedScript
