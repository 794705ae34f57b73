import ScopedScript.Proofs.Scoping.History
import ScopedScript.Proofs.Tree.Parts

/-!
# Where jumps stand

A jump leaves the innermost loop or the innermost function around it, so of all that is around a
statement only these two matter to jumps. Loops around a function do not count inside of it: nothing
in its body is executed before a call, which can come when those loops have long been left.

A check keeps a count of loops and the innermost function, which it sets and sets back as it goes
in and out. So at every statement of a program these two are what the site of the statement says,
and in a program without a fault every jump has somewhere to go.
-/

namespace ScopedScript

/-! ## Sites -/

/-- Whether a statement is a loop. -/
def Statement.isLoop : Statement → Bool
  | .whileLoop _ _ _ | .forLoop _ _ _ _ => true
  | _ => false

/-- What is around a statement and matters to jumps. -/
structure Site where
  /-- Whether it lies in a loop of the innermost function around it. -/
  inLoop : Bool
  function : Option FunctionDecl

namespace Site

/-- The site of the statements of a program. -/
def program : Site := ⟨false, none⟩

/-- The site of what is right inside a statement. -/
def inside (site : Site) (s : Statement) : Site :=
  { site with inLoop := s.isLoop || site.inLoop }

/-- The site of the statements of a function: loops outside do not count. -/
def call (decl : FunctionDecl) : Site := ⟨false, some decl⟩

end Site

/-- The statements of a program, those of its functions among them, each at its site. -/
inductive Program.Contains (p : Program) : Site → Statement → Prop where
  | top {s : Statement} (h : s ∈ p) : Contains p .program s
  | inner {site : Site} {s s' : Statement} (hs : Contains p site s) (h : s' ∈ s.inner) :
      Contains p (site.inside s) s'
  | body {site : Site} {decl : FunctionDecl} {s : Statement}
      (hdecl : Contains p site (.function decl)) (h : s ∈ decl.body) : Contains p (.call decl) s

/-- A function is declared somewhere in a program. -/
def Program.Declares (p : Program) (decl : FunctionDecl) : Prop :=
  ∃ site, p.Contains site (.function decl)

/-- A jump has somewhere to go from its site: there is a loop to leave, or a function that returns
a value exactly if the jump carries one. -/
def Statement.Stands (site : Site) : Statement → Prop
  | .breakLoop _ | .continueLoop _ => site.inLoop
  | .returnFrom value _ =>
    ∃ decl, site.function = some decl ∧ value.isSome = decl.returns.type.isSome
  | _ => True

/-! ## Contains of checks -/

/-- The loops and the function that a check has gone into are those of a site. -/
structure Site.Describes (site : Site) (c : Checker) : Prop where
  inLoop : site.inLoop ↔ c.loopDepth ≠ 0
  function : c.function = site.function.map fun decl => ⟨decl.name, decl.returns.type.isNone⟩

/-- Somewhere at a site a check finds no fault with a statement. -/
def Site.Accepts (site : Site) (s : Statement) : Prop :=
  ∃ c, site.Describes c ∧ Check.fault? (Check.statement s) c = none

namespace Site

variable {site : Site} {c : Checker}

theorem describes_initial : program.Describes .initial := ⟨by decide, rfl⟩

theorem Describes.congr (h : site.Describes c) {after : Checker}
    (hsame : after.loopDepth = c.loopDepth ∧ after.function = c.function) :
    site.Describes after :=
  ⟨by rw [hsame.1, h.inLoop], hsame.2.trans h.function⟩

theorem Describes.block (h : site.Describes c) {s : Statement} (hs : s.isLoop = false) :
    (site.inside s).Describes c :=
  ⟨by rw [inside, hs, Bool.false_or, h.inLoop], h.function⟩

theorem Describes.loop (h : site.Describes c) {s : Statement} (hs : s.isLoop) :
    (site.inside s).Describes { c with loopDepth := c.loopDepth + 1 } :=
  ⟨iff_of_true (by rw [inside, hs, Bool.true_or]) (Nat.succ_ne_zero _), h.function⟩

end Site

namespace Check

/-- Every step of a check leaves the loops and the function around as they were. -/
theorem leads_around :
    Leads fun c after => after.loopDepth = c.loopDepth ∧ after.function = c.function where
  refl _ := ⟨rfl, rfl⟩
  trans h h' := ⟨h'.1.trans h.1, h'.2.trans h.2⟩
  declare _ _ := ⟨rfl, rfl⟩
  scope _ h := h
  mark _ _ := ⟨rfl, rfl⟩
  loop h := ⟨Nat.sub_eq_of_eq_add h.1, h.2⟩
  function _ _ := ⟨rfl, rfl⟩

section Accepts

variable {site : Site} {c : Checker}

/-- Two checks find no fault if neither does, and the second is at the site of the first. -/
theorem and_then_eq_none {x y : Check Unit} (h : fault? (do x; y) c = none) :
    fault? x c = none ∧ fault? y (final x c) = none := by
  rwa [fault?_and_then, Option.or_eq_none_iff] at h

theorem fault?_inBlock (word : Keyword) (x : Check Unit) (c : Checker) :
    fault? (inBlock word x) c =
      fault? x (enterScope (blockName word c) (markBlock word c)) :=
  fault?_bracket _ _ _ _

/-- Statements without a fault are found one after the other, at one site. -/
theorem accepts_of_statements {body : List Statement} (hat : site.Describes c)
    (h : fault? (statements body) c = none) : ∀ s ∈ body, site.Accepts s := by
  induction body generalizing c with
  | nil => exact nofun
  | cons s body ih =>
    simp only [statements] at h
    obtain ⟨hfirst, hrest⟩ := and_then_eq_none h
    have hbehind := hat.congr (leads_around.statement s c)
    exact List.forall_mem_cons.mpr ⟨⟨c, hat, hfirst⟩, ih hbehind hrest⟩

theorem accepts_of_block {word : Keyword} {body : List Statement} (hat : site.Describes c)
    (h : fault? (inBlock word (statements body)) c = none) : ∀ s ∈ body, site.Accepts s := by
  rw [fault?_inBlock] at h
  have hinside : site.Describes (enterScope (blockName word c) (markBlock word c)) :=
    hat.congr ⟨rfl, rfl⟩
  exact accepts_of_statements hinside h

theorem accepts_of_alternative {otherwise : Alternative} (hat : site.Describes c)
    (h : fault? (alternative otherwise) c = none) : ∀ s ∈ otherwise.inner, site.Accepts s := by
  induction otherwise using Exec.alternative.induct generalizing c with
  | case1 => exact nofun
  | case2 e body rest ih =>
    simp only [alternative] at h
    obtain ⟨-, hbranches⟩ := and_then_eq_none h
    obtain ⟨hbranch, hrest⟩ := and_then_eq_none hbranches
    have hbody := hat.congr (leads_around.expression e c)
    have hbehind := hbody.congr (leads_around.inBlock (leads_around.statements body) .kwElseif _)
    exact List.forall_mem_append.mpr ⟨accepts_of_block hbody hbranch, ih hbehind hrest⟩
  | case3 body =>
    simp only [alternative] at h
    exact accepts_of_block hat h

/-- The body of a loop is checked where one more loop is around. -/
theorem exists_describes_of_inLoop {word : Keyword} {x : Check Unit}
    (hat : site.Describes { c with loopDepth := c.loopDepth + 1 })
    (h : fault? (inLoop word x) c = none) : ∃ c', site.Describes c' ∧ fault? x c' = none := by
  rw [inLoop, fault?_inBlock, fault?_bracket] at h
  refine ⟨_, ?_, h⟩
  exact hat.congr ⟨rfl, rfl⟩

/-- What is right inside a statement without a fault is found at its site. -/
theorem accepts_of_inner {s s' : Statement} (h : site.Accepts s) (hs' : s' ∈ s.inner) :
    (site.inside s).Accepts s' := by
  obtain ⟨c, hat, h⟩ := h
  cases s with
  | conditional e body otherwise token =>
    simp only [statement] at h
    obtain ⟨-, hbranches⟩ := and_then_eq_none h
    obtain ⟨hbranch, hrest⟩ := and_then_eq_none hbranches
    have hbody := (hat.block (s := .conditional e body otherwise token) rfl).congr
      (leads_around.expression e c)
    have hbehind := hbody.congr (leads_around.inBlock (leads_around.statements body) .kwIf _)
    obtain hs' | hs' := List.mem_append.mp hs'
    · exact accepts_of_block hbody hbranch s' hs'
    · exact accepts_of_alternative hbehind hrest s' hs'
  | whileLoop e body token =>
    simp only [statement] at h
    obtain ⟨-, hloop⟩ := and_then_eq_none h
    have hbody := hat.congr (leads_around.expression e c)
    obtain ⟨c', hinside, hnone⟩ := exists_describes_of_inLoop
      (hbody.loop (s := .whileLoop e body token) rfl) hloop
    exact accepts_of_statements hinside hnone s' hs'
  | forLoop loopVariable iterable body token =>
    simp only [statement] at h
    obtain ⟨-, hloop⟩ := and_then_eq_none h
    have hbody := hat.congr (leads_around.expression iterable c)
    obtain ⟨c', hinside, hnone⟩ := exists_describes_of_inLoop
      (hbody.loop (s := .forLoop loopVariable iterable body token) rfl) hloop
    have hbound := hinside.congr (leads_around.varDecl loopVariable c')
    exact accepts_of_statements hbound (and_then_eq_none hnone).2 s' hs'
  | _ => cases hs'

/-- So is what is in the body of a function. -/
theorem accepts_of_body {decl : FunctionDecl} (h : site.Accepts (.function decl))
    {s : Statement} (hs : s ∈ decl.body) : (Site.call decl).Accepts s := by
  obtain ⟨c, hat, h⟩ := h
  obtain ⟨returns, name, params, body, token⟩ := decl
  simp only [statement, function] at h
  split at h
  · cases h
  · obtain ⟨-, hinside⟩ := and_then_eq_none h
    rw [inFunction, fault?_bracket, inScope, fault?_bracket] at hinside
    obtain ⟨-, hbody⟩ := and_then_eq_none hinside
    refine accepts_of_statements (Site.Describes.congr ?_ (leads_around.parameters params _))
      hbody s hs
    exact ⟨iff_of_false Bool.false_ne_true (not_not_intro rfl), rfl⟩

/-- A function that is accepted asks for its arguments before it has defaults. -/
theorem requiredAfterDefault?_of_accepts {decl : FunctionDecl}
    (h : site.Accepts (.function decl)) : requiredAfterDefault? decl.params = none := by
  obtain ⟨c, -, h⟩ := h
  obtain ⟨returns, name, params, body, token⟩ := decl
  simp only [statement, function] at h
  split at h
  · cases h
  next hnone => exact Option.eq_none_iff_forall_ne_some.mpr hnone

/-- A check of a program that finds no fault comes to all its statements at their sites. -/
theorem accepts_of_contains {p : Program} (htop : Site.program.Describes c)
    (h : fault? (program p) c = none) {s : Statement} (hs : p.Contains site s) :
    site.Accepts s := by
  induction hs with
  | top hs =>
    rw [program, inScope, fault?_bracket] at h
    have hinside : Site.program.Describes (enterScope "global" c) := htop.congr ⟨rfl, rfl⟩
    exact accepts_of_statements hinside h _ hs
  | inner _ hs' ih => exact accepts_of_inner ih hs'
  | body _ hs ih => exact accepts_of_body ih hs

end Accepts

/-! ## Jumps -/

section Jumps

variable {site : Site}

/-- A check that looks at the state first. -/
theorem fault?_of_get (next : Checker → Check Unit) (c : Checker) :
    fault? (get >>= next) c = fault? (next c) c := rfl

theorem inLoop_of_jump {word : Keyword} {position : Position} {c : Checker}
    (hat : site.Describes c) (h : fault? (jump word position) c = none) : site.inLoop := by
  refine hat.inLoop.mpr fun hzero => ?_
  rw [jump, fault?_of_get, if_pos hzero] at h
  cases h

/-- A jump that is accepted has somewhere to go. -/
theorem stands_of_accepts {s : Statement} (h : site.Accepts s) : s.Stands site := by
  obtain ⟨c, hat, h⟩ := h
  cases s with
  | breakLoop token | continueLoop token => exact inLoop_of_jump hat h
  | returnFrom value token =>
    rw [statement, returnFrom_eq, fault?_of_get, hat.function] at h
    cases hdecl : site.function with
    | none =>
      rw [hdecl] at h
      cases h
    | some decl =>
      rw [hdecl, Option.map_some] at h
      refine ⟨decl, hdecl, ?_⟩
      match htype : decl.returns.type, value with
      | none, none | some _, some _ => rfl
      | none, some _ | some _, none =>
        rw [htype] at h
        cases h
  | _ => trivial

/-- All jumps of a program without a fault have somewhere to go. -/
theorem stands_of_contains {p : Program} {c : Checker} (htop : Site.program.Describes c)
    (h : fault? (program p) c = none) {s : Statement} (hs : p.Contains site s) :
    s.Stands site :=
  stands_of_accepts (accepts_of_contains htop h hs)

end Jumps

end Check

end ScopedScript
