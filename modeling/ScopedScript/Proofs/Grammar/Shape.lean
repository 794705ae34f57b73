import ScopedScript.Proofs.RoundTrip.Derivation
import ScopedScript.Proofs.Scoping.Jumps

/-!
# The shape of programs

Trees have room for more than sources can say: ranges in arithmetic, loops over several variables,
compound assignments that compare, calls that are marked as statements inside of others. None of
these is read from a source, wherever in a program it could be, in the bodies and the defaults of
functions as elsewhere.

An expression has a role in what it is right inside of. Only two roles are special, to be a
statement and to be what a loop runs over, and only a whole expression has one: its parts have not.
-/

namespace ScopedScript

/-! ## Roles -/

/-- What an expression is for. -/
inductive Role where
  /-- It is a statement. -/
  | alone
  | iterable
  /-- It is inside of something else. -/
  | inner
  deriving DecidableEq

/-- The expressions right inside a statement, in their roles. The defaults of a function are among
them. -/
def Statement.roles : Statement → List (Role × Expr)
  | .expression e => [(.alone, e)]
  | .forLoop loopVariable iterable _ _ =>
    (.iterable, iterable) :: loopVariable.parts.map (.inner, ·)
  | .function decl => decl.parts.map (.inner, ·)
  | s => s.parts.map (.inner, ·)

/-- Of what is right inside a statement, only what a loop runs over can have that role. -/
theorem Statement.exists_role {s : Statement} {e : Expr} (he : e ∈ s.parts)
    (hs : ∀ loopVariable iterable body token, s ≠ .forLoop loopVariable iterable body token) :
    ∃ role, role ≠ .iterable ∧ (role, e) ∈ s.roles := by
  cases s with
  | expression expr =>
    obtain rfl := List.mem_singleton.mp he
    exact ⟨.alone, nofun, List.mem_singleton_self _⟩
  | forLoop => exact absurd rfl (hs _ _ _ _)
  | function decl => cases he
  | _ => exact ⟨.inner, nofun, List.mem_map_of_mem he⟩

/-- The expressions of a program, in their roles. -/
inductive Program.Mentions (p : Program) : Role → Expr → Prop where
  | statement {site : Site} {s : Statement} {role : Role} {e : Expr} (hs : p.Contains site s)
      (h : (role, e) ∈ s.roles) : Mentions p role e
  | part {role : Role} {e part : Expr} (h : Mentions p role e) (hpart : part ∈ e.parts) :
      Mentions p .inner part

/-- The expressions that are read in a role. -/
def Role.Admits : Role → Expr → Prop
  | .alone, e => ∃ e' : Expr, e'.Sound ∧ e = e'.asStatement
  | .iterable, e => e.Sound ∨ e.isRange ∧ ∀ part ∈ e.parts, part.Sound
  | .inner, e => e.Sound

/-! ## Expressions -/

namespace Expr

theorem sound_of_mem_soundList {es : List Expr} (h : SoundList es) : ∀ e ∈ es, e.Sound := by
  induction es with
  | nil => exact nofun
  | cons e es ih => exact List.forall_mem_cons.mpr ⟨h.1, ih h.2⟩

variable {e : Expr}

theorem Sound.parts (h : e.Sound) : ∀ part ∈ e.parts, part.Sound := by
  cases e with
  | literal value token | var name token => exact nofun
  | unary op operand token => exact List.forall_mem_singleton.mpr h.1
  | binary left op right token | index left right token =>
    exact List.forall_mem_cons.mpr ⟨h.1, List.forall_mem_singleton.mpr h.2.1⟩
  | call name arguments isStatement token => exact sound_of_mem_soundList h.1
  | slice base start stop token =>
    exact List.forall_mem_cons.mpr ⟨h.1, List.forall_mem_cons.mpr
      ⟨h.2.1, List.forall_mem_singleton.mpr h.2.2.1⟩⟩
  | range | steppedRange => exact h.elim

theorem Sound.isRange (h : e.Sound) : e.isRange = false := by
  cases e with
  | range | steppedRange => exact h.elim
  | _ => rfl

@[simp] theorem parts_asStatement (e : Expr) : e.asStatement.parts = e.parts := by
  cases e <;> rfl

@[simp] theorem isRange_asStatement (e : Expr) : e.asStatement.isRange = e.isRange := by
  cases e <;> rfl

theorem FitsIterable.admits {room : Nat} (h : e.FitsIterable room) : Role.iterable.Admits e := by
  cases e with
  | range start stop token =>
    exact .inr ⟨rfl, List.forall_mem_cons.mpr ⟨h.1.1, List.forall_mem_singleton.mpr h.2.1.1⟩⟩
  | steppedRange start stop step token =>
    exact .inr ⟨rfl, List.forall_mem_cons.mpr ⟨h.1.1, List.forall_mem_cons.mpr
      ⟨h.2.1.1, List.forall_mem_singleton.mpr h.2.2.1.1⟩⟩⟩
  | _ =>
    have hfits : Expr.Fits _ room := h
    exact .inl hfits.1

end Expr

namespace Role.Admits

variable {role : Role} {e : Expr} (h : role.Admits e)

include h

/-- Everything inside of an expression is an inner one. -/
theorem parts : ∀ part ∈ e.parts, part.Sound := by
  cases role with
  | alone =>
    obtain ⟨e', he', rfl⟩ := h
    rw [e'.parts_asStatement]
    exact he'.parts
  | iterable => exact h.elim Expr.Sound.parts And.right
  | inner => exact Expr.Sound.parts h

/-- Only a loop has a use for a range. -/
theorem eq_iterable_of_isRange (hrange : e.isRange) : role = .iterable := by
  cases role with
  | iterable => rfl
  | alone =>
    obtain ⟨e', he', rfl⟩ := h
    rw [e'.isRange_asStatement, he'.isRange] at hrange
    cases hrange
  | inner =>
    rw [Expr.Sound.isRange h] at hrange
    cases hrange

/-- Calls are marked as statements where they are. -/
theorem isStatement_iff {name : String} {arguments : List Expr} {isStatement : Bool}
    {token : Token} (hcall : e = .call name arguments isStatement token) :
    isStatement = true ↔ role = .alone := by
  subst hcall
  cases role with
  | alone =>
    obtain ⟨e', -, hcall⟩ := h
    cases e' <;> cases hcall
    exact iff_of_true rfl rfl
  | iterable =>
    obtain h | ⟨hrange, -⟩ := h
    · exact iff_of_false (by simp [h.2.1]) nofun
    · cases hrange
  | inner => exact iff_of_false (by simp [h.2.1]) nofun

end Role.Admits

/-! ## Statements -/

/-- A statement as sources have them: a loop declares one variable, without a value; a conditional
has a branch; and a compound assignment computes. -/
def Statement.Shaped : Statement → Prop
  | .forLoop loopVariable _ _ _ =>
    ∃ d, loopVariable.declarators = [d] ∧ d.initializer = none
  | .conditional condition body otherwise _ => (condition, body) :: otherwise.branches ≠ []
  | .assignment _ (.compound op) _ _ => op.isArithmetic
  | _ => True

section Statements

variable {room : Nat}

theorem Statement.fits_of_mem_fitsList {body : List Statement} (h : Statement.FitsList body room) :
    ∀ s ∈ body, s.Fits room := by
  induction body with
  | nil => exact nofun
  | cons s body ih => exact List.forall_mem_cons.mpr ⟨h.1, ih h.2⟩

theorem Alternative.Fits.parts {otherwise : Alternative} (h : otherwise.Fits room) :
    ∀ e ∈ otherwise.parts, e.Sound := by
  induction otherwise using Exec.alternative.induct with
  | case1 | case3 => exact fun _ he => absurd he List.not_mem_nil
  | case2 e body rest ih => exact List.forall_mem_cons.mpr ⟨h.1.1, ih h.2.2⟩

theorem Alternative.Fits.inner {otherwise : Alternative} (h : otherwise.Fits room) :
    ∀ s ∈ otherwise.inner, s.Fits (room - 1) := by
  induction otherwise using Exec.alternative.induct with
  | case1 => exact fun _ hs => absurd hs List.not_mem_nil
  | case2 e body rest ih =>
    exact List.forall_mem_append.mpr ⟨Statement.fits_of_mem_fitsList h.2.1.2, ih h.2.2⟩
  | case3 body => exact Statement.fits_of_mem_fitsList h.2

theorem VarDecl.Fits.parts {decl : VarDecl} (h : decl.Fits room) : ∀ e ∈ decl.parts, e.Sound := by
  intro e he
  obtain ⟨d, hd, hvalue⟩ := List.mem_filterMap.mp he
  exact ((h.2.2 d hd).2.2 e hvalue).1

theorem FunctionDecl.Fits.parts {decl : FunctionDecl} (h : decl.Fits room) :
    ∀ e ∈ decl.parts, e.Sound := by
  obtain ⟨returns, name, params, body, token⟩ := decl
  intro e he
  obtain ⟨param, hparam, hvalue⟩ := List.mem_filterMap.mp he
  exact ((h.2.2.2.1 param hparam).2.2.2 e hvalue).1

theorem FunctionDecl.Fits.body {decl : FunctionDecl} (h : decl.Fits room) :
    ∀ s ∈ decl.body, s.Fits (room - 1) := by
  obtain ⟨returns, name, params, body, token⟩ := decl
  exact Statement.fits_of_mem_fitsList h.2.2.2.2.2

namespace Statement.Fits

variable {s : Statement} (h : s.Fits room)

include h

theorem inner : ∀ s' ∈ s.inner, s'.Fits (room - 1) := by
  cases s with
  | conditional condition body otherwise token =>
    exact List.forall_mem_append.mpr ⟨fits_of_mem_fitsList h.2.2.1.2, h.2.2.2.inner⟩
  | whileLoop condition body token => exact fits_of_mem_fitsList h.2.2.2
  | forLoop loopVariable iterable body token => exact fits_of_mem_fitsList h.2.2.2.2.2
  | _ => exact nofun

/-- What is read right inside a statement is admitted in its role. -/
theorem admits {role : Role} {e : Expr} (he : (role, e) ∈ s.roles) : role.Admits e := by
  have hinner : ∀ {es : List Expr}, (∀ e ∈ es, e.Sound) →
      (role, e) ∈ es.map (Role.inner, ·) → role.Admits e := by
    intro es hes hmem
    obtain ⟨e', he', heq⟩ := List.mem_map.mp hmem
    cases heq
    exact hes e he'
  cases s with
  | expression expr =>
    obtain ⟨e', hfits, rfl⟩ := h
    cases List.mem_singleton.mp he
    exact ⟨e', hfits.1, rfl⟩
  | forLoop loopVariable iterable body token =>
    obtain heq | hmem := List.mem_cons.mp he
    · cases heq
      exact h.2.2.2.1.admits
    · exact hinner h.2.1.parts hmem
  | function decl => exact hinner (FunctionDecl.Fits.parts h) he
  | declaration decl => exact hinner (VarDecl.Fits.parts h) he
  | assignment target op value token =>
    exact hinner (List.forall_mem_singleton.mpr h.2.2.2.1) he
  | conditional condition body otherwise token =>
    exact hinner (List.forall_mem_cons.mpr ⟨h.2.1.1, h.2.2.2.parts⟩) he
  | whileLoop condition body token => exact hinner (List.forall_mem_singleton.mpr h.2.1.1) he
  | returnFrom value token =>
    refine hinner (fun e he => ?_) he
    exact (h.2 e (Option.mem_toList.mp he)).1
  | empty | breakLoop token | continueLoop token => cases he

theorem shaped : s.Shaped := by
  cases s with
  | forLoop loopVariable iterable body token => exact h.2.2.1
  | conditional condition body otherwise token => exact List.cons_ne_nil _ _
  | assignment target op value token =>
    cases op with
    | plain => trivial
    | compound op =>
      have hmark := h.2.2.1
      cases op <;> first | rfl | cases hmark
  | _ => trivial

end Statement.Fits

end Statements

/-! ## Programs -/

namespace Program

variable {p : Program} {room : Nat} (hfits : Statement.FitsList p room)

include hfits

theorem fits_of_contains {site : Site} {s : Statement} (h : p.Contains site s) :
    ∃ room, s.Fits room := by
  induction h with
  | top hs => exact ⟨room, Statement.fits_of_mem_fitsList hfits _ hs⟩
  | inner _ hs' ih =>
    obtain ⟨room, hs⟩ := ih
    exact ⟨room - 1, hs.inner _ hs'⟩
  | body _ hs ih =>
    obtain ⟨room, hdecl⟩ := ih
    exact ⟨room - 1, FunctionDecl.Fits.body hdecl _ hs⟩

/-- All statements of a program that is read are such as sources have them. -/
theorem shaped_of_contains {site : Site} {s : Statement} (h : p.Contains site s) : s.Shaped := by
  obtain ⟨room, hs⟩ := fits_of_contains hfits h
  exact hs.shaped

/-- All its expressions are such as are read in their roles. -/
theorem admits_of_mentions {role : Role} {e : Expr} (h : p.Mentions role e) :
    role.Admits e := by
  induction h with
  | statement hs he =>
    obtain ⟨room, hs⟩ := fits_of_contains hfits hs
    exact hs.admits he
  | part _ hpart ih => exact ih.parts _ hpart

end Program

end ScopedScript
