import ScopedScript.Proofs.Lexing.Munch
import ScopedScript.Proofs.RoundTrip.Grouping
import ScopedScript.Proofs.RoundTrip.Meaning

/-!
# The fewest parentheses

A written program has the tokens of its source, without some of the parentheses that group
expressions there. It does without all that can be done without: where no pair of parentheses can be
left out of a source, the written program has the same tokens, and no source of the same program has
fewer parentheses.

Statements never begin with a parenthesis that belongs to the token before: a statement ends in a
semicolon or a brace. So what is shed inside of a statement is shed by the program.
-/

namespace ScopedScript

namespace Grammar

/-! ## Lists -/

section Lists

variable {α : Type} {item : List Token → α → Prop} {kinds : α → List TokenKind}
  (hitem : ∀ ts a, item ts a → Readable ts → Sheds (item · a) (kinds a) ts)

include hitem

theorem IsMore.sheds {ts : List Token} {items : List α} (h : IsMore item ts items)
    (hts : Readable ts) :
    Sheds (IsMore item · items) (items.flatMap fun a => .mark .comma :: kinds a) ts := by
  induction h with
  | nil => exact sheds_of_derives .nil rfl
  | cons hcomma h hrest ih =>
    simp only [Readable, List.forall_mem_append, List.forall_mem_cons] at hts
    have hfirst := (hitem _ _ h hts.1.2).cons (by rw [hcomma]; rfl)
    have hall := hfirst.append (ih hts.2) hrest.apart
    refine hall.imp ?_ (by simp [hcomma])
    rintro _ ⟨_, ys, ⟨xs, hxs, rfl⟩, hys, rfl⟩
    exact .cons hcomma hxs hys

theorem IsList.sheds {closing : Mark} (hclosing : closing ≠ .leftParen) {ts : List Token}
    {items : List α} (h : IsList item closing ts items) (hts : Readable ts) :
    Sheds (IsList item closing · items) (commaKinds (items.map kinds) ++ [.mark closing]) ts := by
  cases h with
  | empty hclose => exact sheds_of_derives (.empty hclose) (by simp [commaKinds, hclose])
  | items h hrest hclose =>
    simp only [Readable, List.forall_mem_append] at hts
    have hitems := (hitem _ _ h hts.1.1).append (IsMore.sheds hitem hrest hts.1.2) hrest.apart
    have hall := hitems.concat fun heq => hclosing (TokenKind.mark.inj (hclose.symm.trans heq))
    refine hall.imp ?_ (by simp [commaKinds_cons, List.flatMap_map, hclose])
    rintro _ ⟨_, ⟨xs, ys, hxs, hys, rfl⟩, rfl⟩
    exact .items hxs hys hclose

end Lists

/-! ## Declarations -/

theorem IsDeclaredType.kinds_eq {ts : List Token} {declared : DeclaredType}
    (h : IsDeclaredType ts declared) : ts.map Token.kind = declared.kinds := by
  cases h with
  | named hword hparen hname hclose =>
    simp [DeclaredType.kinds, hword, hparen, TokenKind.type?_eq_some.mp hname, hclose]

theorem IsDeclaredResult.kinds_eq {ts : List Token} {declared : DeclaredResult}
    (h : IsDeclaredResult ts declared) : ts.map Token.kind = declared.kinds := by
  cases h with
  | named hword hparen hname hclose =>
    simp [DeclaredResult.kinds, DeclaredResult.word, hword, hparen,
      TokenKind.type?_eq_some.mp hname, hclose]
  | void hword hparen hname hclose =>
    simp [DeclaredResult.kinds, DeclaredResult.word, hword, hparen, hname, hclose]

/-- Behind a declared type everything stands apart. -/
theorem IsDeclaredType.apart {ts us : List Token} {declared : DeclaredType}
    (h : IsDeclaredType ts declared) : Apart ts us := by
  cases h with
  | named _ _ _ hclose => exact apart_mark [_, _, _] hclose

/-- A name sheds the parentheses in its value. -/
theorem IsInitializer.sheds {room : Nat} {token : Token} {ts : List Token} {name : String}
    {value : Option Expr} (h : IsInitializer room ts value) (hname : token.kind = .identifier name)
    (hts : Readable (token :: ts)) :
    Sheds (Joined (· = [token]) (IsInitializer room · value)) (declaredKinds name value)
      (token :: ts) := by
  cases h with
  | absent =>
    exact sheds_of_derives ⟨[token], [], rfl, .absent, rfl⟩ (by simp [declaredKinds, hname])
  | @given sign _ _ hsign h =>
    simp only [Readable, List.forall_mem_cons] at hts
    have hall := (sheds_keep [token, sign]).append (h.sheds hts.2.2) (apart_mark [token] hsign)
    refine hall.imp ?_ (by simp [declaredKinds, hname, hsign])
    rintro _ ⟨_, xs, rfl, hxs, rfl⟩
    exact ⟨[token], sign :: xs, rfl, .given hsign hxs, rfl⟩

theorem IsDeclarator.sheds {room : Nat} {ts : List Token} {d : Declarator}
    (h : IsDeclarator room ts d) (hts : Readable ts) :
    Sheds (IsDeclarator room · d) (declaredKinds d.name d.initializer) ts := by
  cases h with
  | named hname h =>
    refine (h.sheds hname hts).imp ?_ rfl
    rintro _ ⟨_, xs, rfl, hxs, rfl⟩
    exact .named hname hxs

theorem IsVarDecl.sheds {room : Nat} {ts : List Token} {decl : VarDecl}
    (h : IsVarDecl room ts decl) (hts : Readable ts) :
    Sheds (IsVarDecl room · decl) decl.kinds ts := by
  cases h with
  | typed htype h hrest =>
    simp only [Readable, List.forall_mem_append] at hts
    have hfirst := (sheds_keep _).append (h.sheds hts.1.2) htype.apart
    have hmore := IsMore.sheds (fun us d (h : IsDeclarator room us d) => h.sheds) hrest hts.2
    have hall := hfirst.append hmore hrest.apart
    refine hall.imp ?_ ?_
    · rintro _ ⟨_, ys, ⟨_, xs, rfl, hxs, rfl⟩, hys, rfl⟩
      exact .typed htype hxs hys
    · simp [VarDecl.kinds, commaKinds_cons, List.flatMap_map, htype.kinds_eq]

theorem IsParameter.sheds {room : Nat} {ts : List Token} {param : Param}
    (h : IsParameter room ts param) (hts : Readable ts) :
    Sheds (IsParameter room · param) param.kinds ts := by
  cases h with
  | typed htype hname h =>
    simp only [Readable, List.forall_mem_append] at hts
    have hall := (sheds_keep _).append (h.sheds hname hts.2) htype.apart
    refine hall.imp ?_ (by simp [Param.kinds, htype.kinds_eq])
    rintro _ ⟨_, _, rfl, ⟨_, xs, rfl, hxs, rfl⟩, rfl⟩
    exact .typed htype hname hxs

theorem IsIterable.sheds {room : Nat} {ts : List Token} {e : Expr} (h : IsIterable room ts e)
    (hts : Readable ts) : Sheds (IsIterable room · e) e.kinds ts := by
  cases h with
  | expression h => exact (h.sheds hts).imp (fun _ hxs => .expression hxs) rfl
  | range hstart hcolon hstop =>
    simp only [Readable, List.forall_mem_append, List.forall_mem_cons] at hts
    have huntil := (hstop.sheds hts.2.2).cons (by rw [hcolon]; rfl)
    have hall := (hstart.sheds hts.1).append huntil (apart_cons_mark hcolon (by decide))
    refine hall.imp ?_ (by simp [Expr.kinds, hcolon])
    rintro _ ⟨xs, _, hxs, ⟨ys, hys, rfl⟩, rfl⟩
    exact .range hxs hcolon hys
  | steppedRange hstart hcolon hstop hcolon' hstep =>
    simp only [Readable, List.forall_mem_append, List.forall_mem_cons] at hts
    have huntil := (hstop.sheds hts.1.2.2).cons (by rw [hcolon]; rfl)
    have hby := (hstep.sheds hts.2.2).cons (by rw [hcolon']; rfl)
    have hrange := (hstart.sheds hts.1.1).append huntil (apart_cons_mark hcolon (by decide))
    have hall := hrange.append hby (apart_cons_mark hcolon' (by decide))
    refine hall.imp ?_ (by simp [Expr.kinds, hcolon, hcolon'])
    rintro _ ⟨_, _, ⟨xs, _, hxs, ⟨ys, hys, rfl⟩, rfl⟩, ⟨zs, hzs, rfl⟩, rfl⟩
    exact .steppedRange hxs hcolon hys hcolon' hzs

/-! ## Statements -/

/-- Before a block everything stands apart. -/
theorem IsBlock.apart {room : Nat} {ts us : List Token} {body : List Statement}
    (h : IsBlock room us body) : Apart ts us := by
  cases h with
  | nested hbrace _ _ => exact apart_cons_mark hbrace (by decide)

/-- So it does before further branches. -/
theorem IsAlternative.apart {room : Nat} {ts us : List Token} {otherwise : Alternative}
    (h : IsAlternative room us otherwise) : Apart ts us := by
  cases h with
  | absent => exact apart_of_head nofun
  | elseif hword _ _ _ | otherwise hword _ => exact apart_cons (by rw [hword]; decide)

/-- Tokens end in one that takes no parenthesis behind it. -/
def Ends (ts : List Token) : Prop := ∃ us t, ts = us ++ [t] ∧ t.kind.opensList = false

section Ends

variable {ts us : List Token}

theorem ends_mark {t : Token} {sign : Mark} (ts : List Token) (h : t.kind = .mark sign) :
    Ends (ts ++ [t]) :=
  ⟨ts, t, rfl, by rw [h]; rfl⟩

theorem Ends.behind (h : Ends us) (ts : List Token) : Ends (ts ++ us) := by
  obtain ⟨vs, t, rfl, ht⟩ := h
  exact ⟨ts ++ vs, t, (List.append_assoc _ _ _).symm, ht⟩

theorem Ends.apart (h : Ends ts) : Apart ts us := by
  obtain ⟨vs, t, rfl, ht⟩ := h
  exact apart_concat vs ht

theorem IsBlock.ends {room : Nat} {body : List Statement} (h : IsBlock room ts body) : Ends ts := by
  cases h with
  | nested _ _ hclose => exact ends_mark _ hclose

theorem IsAlternative.ends {room : Nat} {ts us : List Token} {otherwise : Alternative} :
    IsAlternative room us otherwise → Ends ts → Ends (ts ++ us)
  | .absent, h => by rwa [List.append_nil]
  | .elseif _ _ hbody hrest, _ => (hrest.ends (hbody.ends.behind _)).behind ts
  | .otherwise _ hbody, _ => (hbody.ends.behind [_]).behind ts

/-- A statement ends in a semicolon or a brace. -/
theorem IsStatement.ends {room : Nat} {s : Statement} (h : IsStatement room ts s) : Ends ts := by
  cases h with
  | empty h => exact ends_mark [] h
  | declaration _ hend | assignment _ _ _ hend | returnValue _ _ hend | expression _ hend =>
    exact ends_mark _ hend
  | breakLoop _ hend | continueLoop _ hend | returnNothing _ hend => exact ends_mark [_] hend
  | conditional _ _ hbody hotherwise => exact hotherwise.ends (hbody.ends.behind _)
  | whileLoop _ _ hbody | forLoop _ _ _ _ _ hbody | function _ _ _ _ hbody =>
    exact hbody.ends.behind _

end Ends

mutual

theorem IsStatement.sheds {room : Nat} {ts : List Token} {s : Statement} :
    IsStatement room ts s → Readable ts → Sheds (IsStatement room · s) s.kinds ts
  | .empty h, _ => sheds_of_derives (.empty h) (by simp [Statement.kinds, h])
  | .declaration h hend, hts => by
    have hall := (h.sheds (List.forall_mem_append.mp hts).1).concat (by rw [hend]; decide)
    refine hall.imp ?_ (by simp [Statement.kinds, hend])
    rintro _ ⟨xs, hxs, rfl⟩
    exact .declaration hxs hend
  | @IsStatement.assignment _ target sign _ _ _ op _ htarget hop h hend, hts => by
    simp only [Readable, List.forall_mem_append, List.forall_mem_cons] at hts
    obtain ⟨mark, hmark, hsign⟩ := AssignOp.ofKind?_eq_some.mp hop
    have hvalue := (sheds_keep [target, sign]).append (h.sheds hts.1.2.2) (apart_mark [target] hsign)
    have hall := hvalue.concat (by rw [hend]; decide)
    refine hall.imp ?_ (by simp [Statement.kinds, htarget, hmark, hsign, hend])
    rintro _ ⟨_, ⟨_, xs, rfl, hxs, rfl⟩, rfl⟩
    exact .assignment htarget hop hxs hend
  | .conditional hword hcondition hbody hotherwise, hts => by
    simp only [Readable, List.forall_mem_append, List.forall_mem_cons] at hts
    have hlead := (hcondition.sheds hts.1.1.2).cons (by rw [hword]; rfl)
    have hbranch := hlead.append (hbody.sheds hts.1.2) hbody.apart
    have hall := hbranch.append (hotherwise.sheds hts.2) hotherwise.apart
    refine hall.imp ?_ (by simp [Statement.kinds, hword])
    rintro _ ⟨_, zs, ⟨_, ys, ⟨xs, hxs, rfl⟩, hys, rfl⟩, hzs, rfl⟩
    exact .conditional hword hxs hys hzs
  | .whileLoop hword hcondition hbody, hts => by
    simp only [Readable, List.forall_mem_append, List.forall_mem_cons] at hts
    have hlead := (hcondition.sheds hts.1.2).cons (by rw [hword]; rfl)
    have hall := hlead.append (hbody.sheds hts.2) hbody.apart
    refine hall.imp ?_ (by simp [Statement.kinds, hword])
    rintro _ ⟨_, ys, ⟨xs, hxs, rfl⟩, hys, rfl⟩
    exact .whileLoop hword hxs hys
  | @IsStatement.forLoop _ word token within ts _ _ _ _ _ _ hword htype hname hwithin hiterable
      hbody, hts => by
    simp only [Readable, List.forall_mem_append, List.forall_mem_cons] at hts
    have hover := (sheds_keep [token, within]).append (hiterable.sheds hts.1.2.2.2)
      (apart_concat [token] (by rw [hwithin]; rfl))
    have hlead := (sheds_keep (word :: ts)).append hover (apart_cons (by simp [hname]))
    have hall := hlead.append (hbody.sheds hts.2) hbody.apart
    refine hall.imp ?_ ?_
    · rintro _ ⟨_, ys, ⟨_, _, rfl, ⟨_, xs, rfl, hxs, rfl⟩, rfl⟩, hys, rfl⟩
      exact .forLoop hword htype hname hwithin hxs hys
    · simp [Statement.kinds, VarDecl.kinds, commaKinds, declaredKinds, hword, htype.kinds_eq, hname,
        hwithin]
  | .breakLoop hword hend, _ =>
    sheds_of_derives (.breakLoop hword hend) (by simp [Statement.kinds, hword, hend])
  | .continueLoop hword hend, _ =>
    sheds_of_derives (.continueLoop hword hend) (by simp [Statement.kinds, hword, hend])
  | .returnNothing hword hend, _ =>
    sheds_of_derives (.returnNothing hword hend) (by simp [Statement.kinds, hword, hend])
  | .returnValue hword h hend, hts => by
    simp only [Readable, List.forall_mem_append, List.forall_mem_cons] at hts
    have hvalue := (h.sheds hts.1.2).cons (by rw [hword]; rfl)
    have hall := hvalue.concat (by rw [hend]; decide)
    refine hall.imp ?_ (by simp [Statement.kinds, hword, hend])
    rintro _ ⟨_, ⟨xs, hxs, rfl⟩, rfl⟩
    exact .returnValue hword hxs hend
  | @IsStatement.function _ token paren ts _ _ _ _ _ _ hreturns hname hparen hparams hbody, hts => by
    simp only [Readable, List.forall_mem_append, List.forall_mem_cons] at hts
    have hsign : Mark.rightParen ≠ .leftParen := by decide
    have hlist := IsList.sheds (fun us d (h : IsParameter _ us d) => h.sheds) hsign hparams
      hts.1.2.2.2
    have hnamed := (sheds_keep [token, paren]).append hlist (apart_mark [token] hparen)
    have hlead := (sheds_keep ts).append hnamed (apart_cons (by simp [hname]))
    have hall := hlead.append (hbody.sheds hts.2) hbody.apart
    refine hall.imp ?_ ?_
    · rintro _ ⟨_, ys, ⟨_, _, rfl, ⟨_, xs, rfl, hxs, rfl⟩, rfl⟩, hys, rfl⟩
      exact .function hreturns hname hparen hxs hys
    · simp [Statement.kinds, FunctionDecl.kinds, hreturns.kinds_eq, hname, hparen]
  | .expression h hend, hts => by
    have hall := (h.sheds (List.forall_mem_append.mp hts).1).concat (by rw [hend]; decide)
    refine hall.imp ?_ (by simp [Statement.kinds, Expr.kinds_asStatement, hend])
    rintro _ ⟨xs, hxs, rfl⟩
    exact .expression hxs hend

theorem IsAlternative.sheds {room : Nat} {ts : List Token} {otherwise : Alternative} :
    IsAlternative room ts otherwise → Readable ts →
      Sheds (IsAlternative room · otherwise) otherwise.kinds ts
  | .absent, _ => sheds_of_derives .absent rfl
  | .elseif hword hcondition hbody hrest, hts => by
    simp only [Readable, List.forall_mem_append, List.forall_mem_cons] at hts
    have hlead := (hcondition.sheds hts.1.1.2).cons (by rw [hword]; rfl)
    have hbranch := hlead.append (hbody.sheds hts.1.2) hbody.apart
    have hall := hbranch.append (hrest.sheds hts.2) hrest.apart
    refine hall.imp ?_ (by simp [Alternative.kinds, hword])
    rintro _ ⟨_, zs, ⟨_, ys, ⟨xs, hxs, rfl⟩, hys, rfl⟩, hzs, rfl⟩
    exact .elseif hword hxs hys hzs
  | .otherwise hword hbody, hts => by
    have hall := (hbody.sheds (List.forall_mem_cons.mp hts).2).cons (by rw [hword]; rfl)
    refine hall.imp ?_ (by simp [Alternative.kinds, hword])
    rintro _ ⟨xs, hxs, rfl⟩
    exact .otherwise hword hxs

theorem IsBlock.sheds {room : Nat} {ts : List Token} {body : List Statement} :
    IsBlock room ts body → Readable ts →
      Sheds (IsBlock room · body) (blockKinds (Statement.kindsList body)) ts
  | .nested hbrace h hclose, hts => by
    simp only [Readable, List.forall_mem_append, List.forall_mem_cons] at hts
    have hall := ((h.sheds hts.1.2).cons (by rw [hbrace]; rfl)).concat (by rw [hclose]; decide)
    refine hall.imp ?_ (by simp [blockKinds, hbrace, hclose])
    rintro _ ⟨_, ⟨xs, hxs, rfl⟩, rfl⟩
    exact .nested hbrace hxs hclose

/-- Statements shed the parentheses that are not written. -/
theorem IsStatements.sheds {room : Nat} {ts : List Token} {body : List Statement} :
    IsStatements room ts body → Readable ts →
      Sheds (IsStatements room · body) (Statement.kindsList body) ts
  | .nil, _ => sheds_of_derives .nil rfl
  | .cons h hrest, hts => by
    have hparts := List.forall_mem_append.mp hts
    have hall := (h.sheds hparts.1).append (hrest.sheds hparts.2) h.ends.apart
    refine hall.imp ?_ rfl
    rintro _ ⟨xs, ys, hxs, hys, rfl⟩
    exact .cons hxs hys

end

end Grammar

/-! ## Programs -/

open Grammar

/-- What is read from a source is derived from all of its tokens but the end. -/
theorem derived_of_tokenize {source : String} {ts : List Token} {p : Program}
    (htokenize : tokenize source = .ok ts) (hparse : parse ts = .ok p) :
    ∃ us stop, ts = us ++ [stop] ∧ stop.kind = .endOfInput ∧
      IsStatements nestingLimit us p := by
  obtain ⟨rest, hprogram⟩ := parse_eq_ok.mp hparse
  obtain ⟨before, stop, rfl, hstop, hderived⟩ := Parser.program_eq_ok_iff.mp hprogram
  obtain ⟨us, last, heq, -, hus⟩ := ends_of_tokenize htokenize
  obtain rfl | ⟨rest, other, rfl⟩ := rest.eq_nil_or_concat
  · exact ⟨before, stop, rfl, hstop, hderived⟩
  · have hends : (before ++ stop :: rest) ++ [other] = us ++ [last] := by simpa using heq
    have hbefore := (List.append_inj' hends rfl).1
    exact absurd hstop (hus stop (by simp [← hbefore]))

/-- The tokens of a source shed the parentheses that are not written. -/
theorem sheds_of_tokenize {source : String} {ts : List Token} {p : Program}
    (htokenize : tokenize source = .ok ts) (hparse : parse ts = .ok p) :
    Sheds (parse · = .ok p) (Statement.kindsList p ++ [.endOfInput]) ts := by
  obtain ⟨us, stop, rfl, hstop, hderived⟩ := derived_of_tokenize htokenize hparse
  have hreadable := (List.forall_mem_append.mp (readable_of_tokenize htokenize)).1
  have hall := (hderived.sheds hreadable).concat (t := stop) (by rw [hstop]; decide)
  refine hall.imp ?_ (by simp [hstop])
  rintro _ ⟨xs, hxs, rfl⟩
  exact parse_eq_ok.mpr ⟨[], Parser.program_eq_ok_iff.mpr ⟨xs, stop, rfl, hstop, hxs⟩⟩

/-- The text of a program has the fewest parentheses. Its token kinds are those of any source of the
program without some pairs of parentheses that group expressions there, and with all other tokens;
without these the source is read as the very same program. If no pair of such parentheses can be
left out of a source, the kinds are the same; and no source of the program, up to the places of its
tokens, has fewer parentheses. -/
theorem text_least_parentheses {source : String} {ts : List Token} {p : Program}
    (htokenize : tokenize source = .ok ts) (hparse : parse ts = .ok p) :
    ∃ ts', tokenize p.text = .ok ts' ∧
      (∃ count us, Ungroups count ts us ∧ parse us = .ok p ∧
        us.filter (fun t => !t.kind.isParenthesis) = ts.filter (fun t => !t.kind.isParenthesis) ∧
        us.map Token.kind = ts'.map Token.kind) ∧
      ((∀ us, Ungroups 1 ts us → parse us ≠ .ok p) →
        ts'.map Token.kind = ts.map Token.kind) ∧
      ∀ source₂ ts₂ p₂, tokenize source₂ = .ok ts₂ → parse ts₂ = .ok p₂ → p₂.bare = p.bare →
        ∀ sign, sign = .leftParen ∨ sign = .rightParen →
          (ts'.map Token.kind).count (.mark sign) ≤ (ts₂.map Token.kind).count (.mark sign) := by
  obtain ⟨ts', htokenize', hkinds'⟩ := Program.tokenize_text (fits_of_parse htokenize hparse)
  obtain ⟨-, count, us, hdrop, hus, hkinds, hone⟩ := sheds_of_tokenize htokenize hparse
  refine ⟨ts', htokenize', ⟨count, us, hdrop, hus, hdrop.others_eq, hkinds.trans hkinds'.symm⟩,
    fun hleast => ?_, fun source₂ ts₂ p₂ htokenize₂ hparse₂ hbare sign hsign => ?_⟩
  · obtain rfl | ⟨vs, hvs, hparse'⟩ := hone
    · rw [← hdrop.eq_of_zero rfl, hkinds, hkinds']
    · exact absurd hparse' (hleast vs hvs)
  · -- The text of the other program is the same, and its tokens too.
    obtain ⟨ts₃, htokenize₃, hkinds₃⟩ := Program.tokenize_text (fits_of_parse htokenize₂ hparse₂)
    rw [← Program.text_bare, hbare, Program.text_bare, htokenize'] at htokenize₃
    obtain rfl := Except.ok.inj htokenize₃
    obtain ⟨-, count₂, us₂, hdrop₂, -, hkinds₂, -⟩ := sheds_of_tokenize htokenize₂ hparse₂
    rw [hdrop₂.count_eq hsign, hkinds₂, hkinds₃]
    exact Nat.le_add_right _ _

/-- Of four pairs in the source one is needed to group, and one belongs to a call. -/
theorem text_least_parentheses_product : ∃ ts p, tokenize "x = ((1 + 2)) * (f(3));" = .ok ts ∧
    parse ts = .ok p ∧ p.text = "x = (1 + 2) * f(3);\n" ∧
    ∃ ts', tokenize p.text = .ok ts' ∧ ∃ count us, Ungroups count ts us ∧ parse us = .ok p ∧
      us.map Token.kind = ts'.map Token.kind := by
  obtain ⟨ts, p, htokenize, hparse, htext⟩ := exists_read "x = ((1 + 2)) * (f(3));"
    rfl (fun p => p.text = "x = (1 + 2) * f(3);\n") (by decide +kernel)
  obtain ⟨ts', htokenize', ⟨count, us, hdrop, hus, -, hkinds⟩, -⟩ :=
    text_least_parentheses htokenize hparse
  exact ⟨ts, p, htokenize, hparse, of_decide_eq_true htext, ts', htokenize', count, us, hdrop, hus,
    hkinds⟩

end ScopedScript
