import ScopedScript.Proofs.Grammar.Completeness
import ScopedScript.Proofs.Scoping.Environment
import ScopedScript.Proofs.State
import ScopedScript.Scope.Checker

/-!
# Accepted programs use names as they were declared

The scopes that the checker keeps show an environment: the current one and those around it record
what the zones have declared, apart from the marks of blocks. What the checker accepts follows the
rules of names in that environment, and behind it the scopes show the environment behind it.

What the parser accepts declares one variable in every `for` loop, which the checker does not look
at.
-/

namespace ScopedScript

/-! ## Scopes and environments -/

/-- A scope records what a zone has declared, and marks of blocks. -/
def Zone.RecordedBy (zone : Zone) (scope : Scope) : Prop :=
  ∀ name, scope.symbols.find? name = zone.symbols.find? name ∨
    scope.symbols.find? name = some .block

namespace ScopeTree

/-- The scopes from a position outward record an environment. -/
def Shows (tree : ScopeTree) : Nat → Env → Prop
  | i, [] => tree.scopes[i]? = some .root
  | i, zone :: env => ∃ scope outer, tree.scopes[i]? = some scope ∧ zone.RecordedBy scope ∧
      scope.outer = some outer ∧ outer < i ∧ tree.Shows outer env

/-- What a chain of scopes finds is what the name stands for. -/
theorem lookup_of_shows {tree : ScopeTree} {env : Env} {i count : Nat} (h : tree.Shows i env)
    (hcount : i < count) {name : String} {symbol : Symbol}
    (hfound : (chainUpTo tree.link count i).findSome?
      (fun j => (tree.scopes[j]?).bind (·.find? name)) = some symbol)
    (hkind : symbol.kind ≠ .block) : env.lookup? name = some symbol.kind := by
  induction env generalizing i count with
  | nil =>
    obtain ⟨count, rfl⟩ : ∃ less, count = less + 1 := ⟨count - 1, by omega⟩
    have hscope : tree.scopes[i]? = some .root := h
    simp only [chainUpTo, link, hscope, Option.bind_some, Scope.root, List.findSome?_cons,
      Scope.find?, List.findSome?_nil] at hfound
    cases hsymbol : builtinSymbols.find? name with
    | none => simp [hsymbol] at hfound
    | some kind =>
      simp only [hsymbol, Option.map_some, Option.some.injEq] at hfound
      subst hfound
      exact hsymbol
  | cons zone env ih =>
    obtain ⟨count, rfl⟩ : ∃ less, count = less + 1 := ⟨count - 1, by omega⟩
    obtain ⟨scope, outer, hscope, hrecords, houter, hlt, hshows⟩ := h
    simp only [chainUpTo, link, hscope, Option.bind_some, houter, List.findSome?_cons,
      Scope.find?] at hfound
    cases hsymbol : scope.symbols.find? name with
    | none =>
      have hzone : zone.symbols.find? name = none := by
        obtain heq | heq := hrecords name
        · rw [← heq, hsymbol]
        · rw [heq] at hsymbol
          cases hsymbol
      rw [Env.lookup?, hzone, Option.none_or]
      simp only [hsymbol, Option.map_none] at hfound
      exact ih hshows (by omega) hfound
    | some kind =>
      simp only [hsymbol, Option.map_some, Option.some.injEq] at hfound
      subst hfound
      obtain heq | heq := hrecords name
      · rw [Env.lookup?, ← heq, hsymbol]
        rfl
      · rw [heq] at hsymbol
        exact absurd (Option.some.inj hsymbol).symm hkind

theorem lookup?_of_shows {tree : ScopeTree} {env : Env} (h : tree.Shows tree.currentIndex env)
    {name : String} {symbol : Symbol} (hfound : tree.lookup? name = some symbol)
    (hkind : symbol.kind ≠ .block) : env.lookup? name = some symbol.kind :=
  lookup_of_shows h (Nat.lt_succ_self _) hfound hkind

/-! ## What checks do to scopes -/

/-- Scopes around the current one are left alone, and no link changes. -/
structure Grows (before after : ScopeTree) : Prop where
  current : after.currentIndex = before.currentIndex
  size : before.scopes.size ≤ after.scopes.size
  others : ∀ i < before.scopes.size, i ≠ before.currentIndex → after.scopes[i]? = before.scopes[i]?
  link : ∀ i < before.scopes.size, after.link i = before.link i

theorem Grows.refl (tree : ScopeTree) : tree.Grows tree :=
  ⟨rfl, Nat.le_refl _, fun _ _ _ => rfl, fun _ _ => rfl⟩

theorem Grows.trans {a b c : ScopeTree} (hab : a.Grows b) (hbc : b.Grows c) : a.Grows c where
  current := hbc.current.trans hab.current
  size := Nat.le_trans hab.size hbc.size
  others i hi hne := by
    rw [hbc.others i (Nat.lt_of_lt_of_le hi hab.size) (by rw [hab.current]; exact hne)]
    exact hab.others i hi hne
  link i hi := by
    rw [hbc.link i (Nat.lt_of_lt_of_le hi hab.size)]
    exact hab.link i hi

/-- All scopes are as they were, and new ones can have come behind them. -/
structure Restored (before after : ScopeTree) : Prop where
  current : after.currentIndex = before.currentIndex
  size : before.scopes.size ≤ after.scopes.size
  scopes : ∀ i < before.scopes.size, after.scopes[i]? = before.scopes[i]?

theorem Restored.grows {before after : ScopeTree} (h : before.Restored after) :
    before.Grows after where
  current := h.current
  size := h.size
  others i hi _ := h.scopes i hi
  link i hi := congrArg (·.bind Scope.outer) (h.scopes i hi)

/-- Scopes below a position that are left alone show the same environment. -/
theorem Shows.congr {before after : ScopeTree} {env : Env} {i : Nat} (h : before.Shows i env)
    (hsame : ∀ j ≤ i, after.scopes[j]? = before.scopes[j]?) : after.Shows i env := by
  induction env generalizing i with
  | nil => exact (hsame i (Nat.le_refl i)).trans h
  | cons zone env ih =>
    obtain ⟨scope, outer, hscope, hrecords, houter, hlt, hshows⟩ := h
    refine ⟨scope, outer, (hsame i (Nat.le_refl i)).trans hscope, hrecords, houter, hlt, ?_⟩
    exact ih hshows fun j hj => hsame j (by omega)

theorem Shows.lt_size {tree : ScopeTree} {env : Env} {i : Nat} (h : tree.Shows i env) :
    i < tree.scopes.size := by
  cases env with
  | nil =>
    have hscope : tree.scopes[i]? = some .root := h
    exact (Array.getElem?_eq_some_iff.mp hscope).1
  | cons zone env =>
    obtain ⟨scope, outer, hscope, _⟩ := h
    exact (Array.getElem?_eq_some_iff.mp hscope).1

section Changes

variable {tree : ScopeTree} {zone : Zone} {env : Env}

/-- A change of the current scope that keeps its link. -/
theorem grows_modifyCurrent {change : Scope → Scope} (hchange : ∀ s, (change s).outer = s.outer) :
    tree.Grows (tree.modifyCurrent change) where
  current := rfl
  size := by simp [modifyCurrent]
  others i _ hne := by simp [modifyCurrent, Array.getElem?_modify, Ne.symm hne]
  link i _ := by
    simp only [link, modifyCurrent, Array.getElem?_modify]
    split
    · cases tree.scopes[i]? with
      | none => rfl
      | some scope => exact hchange scope
    · rfl

theorem shows_modifyCurrent {zone' : Zone} {change : Scope → Scope}
    (h : tree.Shows tree.currentIndex (zone :: env)) (hchange : ∀ s, (change s).outer = s.outer)
    (hrecords : ∀ s, zone.RecordedBy s → zone'.RecordedBy (change s)) :
    (tree.modifyCurrent change).Shows tree.currentIndex (zone' :: env) := by
  obtain ⟨scope, outer, hscope, hzone, houter, hlt, hshows⟩ := h
  refine ⟨change scope, outer, ?_, hrecords scope hzone, (hchange scope).trans houter, hlt, ?_⟩
  · simp [modifyCurrent, Array.getElem?_modify, hscope]
  · refine hshows.congr fun j hj => ?_
    have hne : tree.currentIndex ≠ j := by omega
    simp [modifyCurrent, Array.getElem?_modify, hne]

/-- A name that is declared in the current scope is declared in its zone. -/
theorem shows_insert {symbol : Symbol} {zone' : Zone} {after : ScopeTree}
    (hinsert : tree.insert symbol = (true, after))
    (h : tree.Shows tree.currentIndex (zone :: env))
    (hzone : zone'.symbols = zone.symbols.insert symbol.name symbol.kind) :
    tree.Grows after ∧ after.Shows after.currentIndex (zone' :: env) := by
  unfold insert at hinsert
  split at hinsert
  · cases hinsert
  · obtain rfl := (Prod.mk.inj hinsert).2
    refine ⟨grows_modifyCurrent fun _ => rfl, shows_modifyCurrent h (fun _ => rfl) ?_⟩
    intro scope hrecords name
    simp only [hzone, Table.find?_insert]
    split
    · exact .inl rfl
    · exact hrecords name

/-- The mark of a block is declared in no zone. -/
theorem shows_mark (name : String) (h : tree.Shows tree.currentIndex (zone :: env)) :
    tree.Grows (tree.insert ⟨name, .block⟩).2 ∧
      (tree.insert ⟨name, .block⟩).2.Shows tree.currentIndex (zone :: env) := by
  unfold insert
  split
  · exact ⟨.refl tree, h⟩
  · refine ⟨grows_modifyCurrent fun _ => rfl, shows_modifyCurrent h (fun _ => rfl) ?_⟩
    intro scope hrecords other
    simp only [Table.find?_insert]
    split
    · exact .inr rfl
    · exact hrecords other

/-- A new scope has declared nothing. -/
theorem shows_enter (name : String) (inner : Zone) (hinner : inner.symbols = .empty)
    (h : tree.Shows tree.currentIndex env) :
    (tree.enter name).Shows (tree.enter name).currentIndex (inner :: env) := by
  have hlt := h.lt_size
  refine ⟨_, tree.currentIndex, Array.getElem?_push_size, ?_, rfl, hlt, h.congr fun j hj => ?_⟩
  · intro name
    rw [hinner]
    exact .inl rfl
  · rw [enter, Array.getElem?_push, if_neg (by omega)]

/-- A declaration leaves the other scopes alone. -/
theorem grows_insert (symbol : Symbol) : tree.Grows (tree.insert symbol).2 := by
  unfold insert
  split
  · exact .refl tree
  · exact grows_modifyCurrent fun _ => rfl

/-- Behind a scope the one around it is the current one again, and all scopes that were there are as
they were. -/
theorem restored_exit {name : String} {after : ScopeTree}
    (hgrows : (tree.enter name).Grows after) : tree.Restored after.exit := by
  have hsize : tree.scopes.size < (tree.enter name).scopes.size := by simp [enter]
  have hcurrent : after.currentIndex = tree.scopes.size := hgrows.current
  have hlink : after.link tree.scopes.size = some tree.currentIndex := by
    rw [hgrows.link _ hsize, link, enter, Array.getElem?_push_size]
    rfl
  have hexit : after.exit = { after with currentIndex := tree.currentIndex } := by
    obtain ⟨scope, hscope, houter⟩ := Option.bind_eq_some_iff.mp hlink
    have hsame : after.current = scope := by rw [current, hcurrent, hscope, Option.getD_some]
    rw [exit, hsame, houter]
  rw [hexit]
  refine ⟨rfl, Nat.le_trans (Nat.le_of_lt hsize) hgrows.size, fun i hi => ?_⟩
  rw [hgrows.others i (by omega) (by simp only [enter]; omega), enter, Array.getElem?_push,
    if_neg (by omega)]

/-- Behind a scope the one around it shows what it showed. -/
theorem shows_exit {name : String} {after : ScopeTree} (h : tree.Shows tree.currentIndex env)
    (hgrows : (tree.enter name).Grows after) :
    tree.Grows after.exit ∧ after.exit.Shows after.exit.currentIndex env := by
  have hrestored := restored_exit hgrows
  have hlt := h.lt_size
  rw [hrestored.current]
  exact ⟨hrestored.grows, h.congr fun j hj => hrestored.scopes j (by omega)⟩

end Changes

end ScopeTree

/-! ## Expressions -/

namespace Check

/-- A check that looks at an environment: it leaves the state alone, and what it accepts holds in
every environment that the scopes show. -/
def Reads (check : Check Unit) (holds : Env → Bool) : Prop :=
  ∀ ⦃before after : Checker⦄, check before = .ok () after → after = before ∧
    ∀ env, before.scopes.Shows before.scopes.currentIndex env → holds env

theorem reads_pure : Reads (pure ()) fun _ => true := by
  intro before after h
  cases h
  exact ⟨rfl, fun _ _ => rfl⟩

theorem Reads.and_then {first second : Check Unit} {holds holds' : Env → Bool}
    (hfirst : Reads first holds) (hsecond : Reads second holds') :
    Reads (do first; second) fun env => holds env && holds' env := by
  intro before after h
  obtain ⟨_, middle, h₁, h₂⟩ := bind_eq_ok.mp h
  obtain ⟨rfl, hholds⟩ := hfirst h₁
  obtain ⟨rfl, hholds'⟩ := hsecond h₂
  refine ⟨rfl, fun env hshows => ?_⟩
  exact Bool.and_eq_true_iff.mpr ⟨hholds env hshows, hholds' env hshows⟩

theorem reads_variableUse (name : String) (position : Position) :
    Reads (variableUse name position) (Rules.named.use · name) := by
  intro before after h
  obtain ⟨state, middle, hget, h⟩ := bind_eq_ok.mp h
  cases hget
  cases hlookup : before.scopes.lookup? name with
  | none =>
    rw [hlookup] at h
    cases h
  | some symbol =>
    obtain ⟨found, kind⟩ := symbol
    rw [hlookup] at h
    cases kind with
    | var type =>
      cases h
      refine ⟨rfl, fun env hshows => ?_⟩
      simp [Rules.named, ScopeTree.lookup?_of_shows hshows hlookup nofun, SymbolKind.isVariable]
    | _ => cases h

theorem reads_callUse (name : String) (count : Nat) (position : Position) :
    Reads (callUse name count position) (Rules.named.call · name count) := by
  intro before after h
  obtain ⟨state, middle, hget, h⟩ := bind_eq_ok.mp h
  cases hget
  cases hlookup : before.scopes.lookup? name with
  | none =>
    rw [hlookup] at h
    cases h
  | some symbol =>
    obtain ⟨found, kind⟩ := symbol
    rw [hlookup] at h
    cases kind with
    | function returns arity =>
      simp only at h
      split at h
      next haccepts =>
        cases h
        refine ⟨rfl, fun env hshows => ?_⟩
        simp [Rules.named, ScopeTree.lookup?_of_shows hshows hlookup nofun, SymbolKind.takes,
          haccepts]
      next => cases h
    | _ => cases h

mutual

theorem reads_expression : (e : Expr) → Reads (expression e) (e.follows .named)
  | .literal _ _ => reads_pure
  | .var name token => reads_variableUse name token.position
  | .unary _ operand _ => reads_expression operand
  | .binary left _ right _ => (reads_expression left).and_then (reads_expression right)
  | .call name arguments _ token =>
    (reads_callUse name arguments.length token.position).and_then (reads_expressions arguments)
  | .index base position _ => (reads_expression base).and_then (reads_expression position)
  | .slice base start stop _ =>
    (reads_expression base).and_then ((reads_expression start).and_then (reads_expression stop))
  | .range start stop _ => (reads_expression start).and_then (reads_expression stop)
  | .steppedRange start stop step _ =>
    (reads_expression start).and_then ((reads_expression stop).and_then (reads_expression step))

theorem reads_expressions : (es : List Expr) → Reads (expressions es) (Expr.followsList .named · es)
  | [] => reads_pure
  | e :: es => (reads_expression e).and_then (reads_expressions es)

end

theorem reads_optional (value : Option Expr) :
    Reads (optional value) (Expr.followsOption .named · value) := by
  cases value with
  | none => exact reads_pure
  | some e => exact reads_expression e

/-! ## Statements -/

/-- A check of a piece of text: what it accepts holds, and the scopes go from showing one zone to
showing another. -/
def Extends (check : Check Unit) (env : Env) (zone zone' : Zone) (holds : Bool) : Prop :=
  ∀ ⦃before after : Checker⦄, check before = .ok () after →
    before.scopes.Shows before.scopes.currentIndex (zone :: env) →
      holds ∧ before.scopes.Grows after.scopes ∧
        after.scopes.Shows after.scopes.currentIndex (zone' :: env)

section Rules

variable {env : Env} {zone zone' zone'' : Zone}

theorem Reads.extends {check : Check Unit} {holds : Env → Bool} (h : Reads check holds) :
    Extends check env zone zone (holds (zone :: env)) := by
  intro before after hok hshows
  obtain ⟨rfl, hholds⟩ := h hok
  exact ⟨hholds _ hshows, .refl _, hshows⟩

theorem Extends.and_then {first second : Check Unit} {holds holds' : Bool}
    (hfirst : Extends first env zone zone' holds)
    (hsecond : Extends second env zone' zone'' holds') :
    Extends (do first; second) env zone zone'' (holds && holds') := by
  intro before after h hshows
  obtain ⟨_, middle, h₁, h₂⟩ := bind_eq_ok.mp h
  obtain ⟨hholds, hgrows, hshows⟩ := hfirst h₁ hshows
  obtain ⟨hholds', hgrows', hshows⟩ := hsecond h₂ hshows
  exact ⟨Bool.and_eq_true_iff.mpr ⟨hholds, hholds'⟩, hgrows.trans hgrows', hshows⟩

theorem extends_declare {symbol : Symbol} (position : Position)
    (hzone : zone'.symbols = zone.symbols.insert symbol.name symbol.kind) :
    Extends (declare symbol position) env zone zone' true := by
  intro before after h hshows
  obtain ⟨state, middle, hget, h⟩ := bind_eq_ok.mp h
  cases hget
  cases hinsert : before.scopes.insert symbol with
  | mk inserted scopes =>
    cases inserted with
    | false =>
      simp only [hinsert] at h
      cases h
    | true =>
      simp only [hinsert] at h
      cases h
      exact ⟨rfl, ScopeTree.shows_insert hinsert hshows hzone⟩

/-- A bracket that leaves the scopes to its body. -/
theorem Extends.bracket {enter : Checker → Checker} {leave : Checker → Checker → Checker}
    {body : Check Unit} {holds : Bool} (h : Extends body env zone zone' holds)
    (henter : ∀ c, (enter c).scopes = c.scopes) (hleave : ∀ c d, (leave c d).scopes = d.scopes) :
    Extends (bracket enter leave body) env zone zone' holds := by
  intro before after hok hshows
  unfold Check.bracket at hok
  split at hok
  next a middle hbody =>
    cases hok
    rw [← henter before] at hshows
    have hresult := h hbody hshows
    rw [henter] at hresult
    rw [hleave]
    exact hresult
  next => cases hok

/-- A scope of its own is closed behind what is checked in it. -/
theorem Extends.inScope {inner inner' : Zone} {body : Check Unit} {holds : Bool}
    (h : Extends body (zone :: env) inner inner' holds) (hinner : inner.symbols = .empty)
    (name : String) : Extends (inScope name body) env zone zone holds := by
  intro before after hok hshows
  unfold Check.inScope Check.bracket at hok
  split at hok
  next a middle hbody =>
    cases hok
    obtain ⟨hholds, hgrows, _⟩ := h hbody (ScopeTree.shows_enter name inner hinner hshows)
    exact ⟨hholds, ScopeTree.shows_exit hshows hgrows⟩
  next => cases hok

theorem Extends.inBlock {inner inner' : Zone} {body : Check Unit} {holds : Bool}
    (h : Extends body (zone :: env) inner inner' holds) (hinner : inner.symbols = .empty)
    (word : Keyword) : Extends (inBlock word body) env zone zone holds := by
  intro before after hok hshows
  obtain ⟨hgrows, hmarked⟩ := ScopeTree.shows_mark (blockName word before) hshows
  rw [← hgrows.current] at hmarked
  obtain ⟨hholds, hgrows', hshows'⟩ := h.inScope hinner _ hok hmarked
  exact ⟨hholds, hgrows.trans hgrows', hshows'⟩

theorem Extends.inLoop {inner inner' : Zone} {body : Check Unit} {holds : Bool}
    (h : Extends body (zone :: env) inner inner' holds) (hinner : inner.symbols = .empty)
    (word : Keyword) : Extends (inLoop word body) env zone zone holds := by
  refine @Extends.inBlock env zone inner inner' _ holds ?_ hinner word
  exact h.bracket (fun _ => rfl) fun _ _ => rfl

theorem Extends.inFunction {inner inner' : Zone} {body : Check Unit} {holds : Bool}
    (h : Extends body (zone :: env) inner inner' holds) (hinner : inner.symbols = .empty)
    (decl : FunctionDecl) : Extends (inFunction decl body) env zone zone holds := by
  refine Extends.bracket (h.inScope hinner decl.name) ?_ ?_
  · exact fun _ => rfl
  · exact fun _ _ => rfl

end Rules

/-! ## The rules of statements -/

theorem extends_declarators (env : Env) (type : Ty) (ds : List Declarator) (zone : Zone) :
    Extends (declarators type ds) env zone (zone.declareAll type ds)
      (VarDecl.followsFrom .named env type zone ds) := by
  induction ds generalizing zone with
  | nil => exact reads_pure.extends
  | cons d ds ih =>
    have hvalue : Extends (optional d.initializer) env zone zone _ :=
      (reads_optional d.initializer).extends
    have hdeclare : Extends (declare ⟨d.name, .var type⟩ d.token.position) env zone
        (zone.declare d.name type) true := extends_declare _ rfl
    exact hvalue.and_then (hdeclare.and_then (ih _))

theorem extends_parameters (env : Env) (params : List Param) (zone : Zone) :
    Extends (parameters params) env zone (zone.declareParams params)
      (Param.followsFrom .named env zone params) := by
  induction params generalizing zone with
  | nil => exact reads_pure.extends
  | cons p params ih =>
    have hvalue : Extends (optional p.fallback) env zone zone _ :=
      (reads_optional p.fallback).extends
    have hdeclare : Extends (declare ⟨p.name, .var p.declared.type⟩ p.token.position) env zone
        (zone.declare p.name p.declared.type) true := extends_declare _ rfl
    exact hvalue.and_then (hdeclare.and_then (ih _))

theorem reads_jump (word : Keyword) (position : Position) :
    Reads (jump word position) fun _ => true := by
  intro before after h
  obtain ⟨state, middle, hget, h⟩ := bind_eq_ok.mp h
  cases hget
  split at h
  · cases h
  · cases h
    exact ⟨rfl, fun _ _ => rfl⟩

theorem reads_returnFrom (value : Option Expr) (position : Position) :
    Reads (returnFrom value position) (Expr.followsOption .named · value) := by
  intro before after h
  obtain ⟨state, middle, hget, h⟩ := bind_eq_ok.mp h
  cases hget
  cases hfunction : before.function with
  | none =>
    simp only [hfunction] at h
    cases h
  | some enclosing =>
    obtain ⟨name, isVoid⟩ := enclosing
    simp only [hfunction] at h
    cases isVoid <;> cases value
    · cases h
    · exact reads_expression _ h
    · cases h
      exact ⟨rfl, fun _ _ => rfl⟩
    · cases h

mutual

theorem extends_statement (env : Env) (zone : Zone) : (s : Statement) →
    Extends (statement s) env zone (zone.after s) (s.follows .named env zone)
  | .empty => reads_pure.extends
  | .declaration decl => extends_declarators env _ decl.declarators zone
  | .assignment target _ value token =>
    ((reads_expression value).and_then (reads_variableUse target token.position)).extends
  | .conditional condition body otherwise _ => by
    have hbody := (extends_statements (zone :: env) (.start body) body).inBlock rfl .kwIf
    exact (reads_expression condition).extends.and_then
      (hbody.and_then (extends_alternative env zone otherwise))
  | .whileLoop condition body _ => by
    have hbody := (extends_statements (zone :: env) (.start body) body).inLoop rfl .kwWhile
    exact (reads_expression condition).extends.and_then hbody
  | .forLoop loopVariable iterable body _ => by
    have hvariable := extends_declarators (zone :: env) loopVariable.declared.type
      loopVariable.declarators (.round body)
    have hbody := (hvariable.and_then (extends_statements (zone :: env) _ body)).inLoop rfl .kwFor
    intro before after hok hshows
    obtain ⟨hholds, hgrows, hshows'⟩ :=
      (reads_expression iterable).extends.and_then hbody hok hshows
    simp only [Bool.and_eq_true] at hholds
    refine ⟨?_, hgrows, hshows'⟩
    simp only [Statement.follows, Bool.and_eq_true]
    exact ⟨hholds.1, rfl, hholds.2.2⟩
  | .breakLoop token => (reads_jump .kwBreak token.position).extends
  | .continueLoop token => (reads_jump .kwContinue token.position).extends
  | .returnFrom value token => (reads_returnFrom value token.position).extends
  | .function decl => by
    rw [statement, Statement.follows]
    exact extends_function env zone decl
  | .expression expr => (reads_expression expr).extends

theorem extends_alternative (env : Env) (zone : Zone) : (otherwise : Alternative) →
    Extends (alternative otherwise) env zone zone (otherwise.follows .named (zone :: env))
  | .absent => reads_pure.extends
  | .elseif condition body rest => by
    have hbody := (extends_statements (zone :: env) (.start body) body).inBlock rfl .kwElseif
    exact (reads_expression condition).extends.and_then
      (hbody.and_then (extends_alternative env zone rest))
  | .otherwise body => by
    rw [alternative, Alternative.follows]
    exact (extends_statements (zone :: env) (.start body) body).inBlock rfl .kwElse

theorem extends_function (env : Env) (zone : Zone) : (decl : FunctionDecl) →
    Extends (function decl) env zone (zone.declareFunction decl)
      (decl.follows .named ((zone.declareFunction decl).later :: env))
  | ⟨returns, name, params, body, token⟩ => by
    have hinside := (extends_parameters ((zone.declareFunction ⟨returns, name, params, body,
      token⟩).later :: env) params (.start body)).and_then (extends_statements _ _ body)
    have hfunction := hinside.inFunction rfl ⟨returns, name, params, body, token⟩
    have hdeclare : Extends (declare ⟨name, .function returns.type
        (FunctionDecl.arity ⟨returns, name, params, body, token⟩)⟩ token.position) env zone
        (zone.declareFunction ⟨returns, name, params, body, token⟩).later true :=
      extends_declare _ rfl
    intro before after hok hshows
    rw [function] at hok
    cases hparam : requiredAfterDefault? params with
    | some param =>
      rw [hparam] at hok
      cases hok
    | none =>
      rw [hparam] at hok
      exact hdeclare.and_then hfunction hok hshows

theorem extends_statements (env : Env) (zone : Zone) : (body : List Statement) →
    Extends (statements body) env zone (body.foldl Zone.after zone)
      (Statement.followsList .named env zone body)
  | [] => reads_pure.extends
  | s :: body =>
    (extends_statement env zone s).and_then (extends_statements env (zone.after s) body)

end

/-- What is known of accepted statements holds of those of an accepted program. -/
theorem Extends.of_program {p : Program} {zone : Zone} {holds : Bool} {after : Checker}
    (hbody : Extends (statements p) [] (.start p) zone holds)
    (h : program p .initial = .ok () after) : holds := by
  have hroot : Checker.initial.scopes.Shows Checker.initial.scopes.currentIndex [] := rfl
  unfold program Check.inScope Check.bracket at h
  split at h
  next a middle hrun =>
    exact (hbody hrun (ScopeTree.shows_enter "global" (.start p) rfl hroot)).1
  next => cases h

/-- A program that is accepted uses names as they were declared. -/
theorem program_follows_named {p : Program} {after : Checker}
    (h : program p .initial = .ok () after) : p.follows .named :=
  (extends_statements [] (.start p) p).of_program h

end Check

/-! ## Loops of parsed programs -/

mutual

theorem Expr.follows_single (env : Env) : (e : Expr) → e.follows .single env
  | .literal _ _ => rfl
  | .var _ _ => rfl
  | .unary _ operand _ => Expr.follows_single env operand
  | .binary left _ right _ => by
    simp only [Expr.follows, Expr.follows_single env left, Expr.follows_single env right,
      Bool.and_self]
  | .call _ arguments _ _ => by
    simp only [Expr.follows, Bool.and_eq_true]
    exact ⟨rfl, Expr.followsList_single env arguments⟩
  | .index base position _ => by
    simp only [Expr.follows, Expr.follows_single env base, Expr.follows_single env position,
      Bool.and_self]
  | .slice base start stop _ => by
    simp only [Expr.follows, Expr.follows_single env base, Expr.follows_single env start,
      Expr.follows_single env stop, Bool.and_self]
  | .range start stop _ => by
    simp only [Expr.follows, Expr.follows_single env start, Expr.follows_single env stop,
      Bool.and_self]
  | .steppedRange start stop step _ => by
    simp only [Expr.follows, Expr.follows_single env start, Expr.follows_single env stop,
      Expr.follows_single env step, Bool.and_self]

theorem Expr.followsList_single (env : Env) : (es : List Expr) → Expr.followsList .single env es
  | [] => rfl
  | e :: es => by
    simp only [Expr.followsList, Expr.follows_single env e, Expr.followsList_single env es,
      Bool.and_self]

end

theorem Expr.followsOption_single (env : Env) (value : Option Expr) :
    Expr.followsOption .single env value := by
  cases value with
  | none => rfl
  | some e => exact e.follows_single env

theorem VarDecl.followsFrom_single (env : Env) (type : Ty) (zone : Zone) (ds : List Declarator) :
    VarDecl.followsFrom .single env type zone ds := by
  induction ds generalizing zone with
  | nil => rfl
  | cons d ds ih =>
    simp only [VarDecl.followsFrom, Bool.and_eq_true]
    exact ⟨rfl, Expr.followsOption_single _ _, ih _⟩

theorem Param.followsFrom_single (env : Env) (zone : Zone) (params : List Param) :
    Param.followsFrom .single env zone params := by
  induction params generalizing zone with
  | nil => rfl
  | cons p params ih =>
    simp only [Param.followsFrom, Expr.followsOption_single, ih, Bool.and_self]

namespace Grammar

mutual

theorem IsStatement.follows_single {room : Nat} {ts : List Token} {s : Statement} (env : Env)
    (zone : Zone) : IsStatement room ts s → s.follows .single env zone
  | .empty _ => rfl
  | .declaration _ _ => VarDecl.followsFrom_single env _ zone _
  | .assignment _ _ _ _ => by
    simp only [Statement.follows, Bool.and_eq_true]
    exact ⟨Expr.follows_single _ _, rfl⟩
  | .conditional _ _ hbody hotherwise => by
    simp only [Statement.follows, Expr.follows_single, hbody.follows_single _ _,
      hotherwise.follows_single _, Bool.and_self]
  | .whileLoop _ _ hbody => by
    simp only [Statement.follows, Expr.follows_single, hbody.follows_single _ _, Bool.and_self]
  | .forLoop _ _ _ _ _ hbody => by
    simp only [Statement.follows, Bool.and_eq_true]
    exact ⟨Expr.follows_single _ _, rfl, hbody.follows_single _ _⟩
  | .breakLoop _ _ => rfl
  | .continueLoop _ _ => rfl
  | .returnNothing _ _ => rfl
  | .returnValue _ _ _ => by
    rw [Statement.follows]
    exact Expr.followsOption_single _ _
  | .function _ _ _ _ hbody => by
    simp only [Statement.follows, FunctionDecl.follows, Param.followsFrom_single,
      hbody.follows_single _ _, Bool.and_self]
  | .expression _ _ => by
    rw [Statement.follows]
    exact Expr.follows_single _ _

theorem IsAlternative.follows_single {room : Nat} {ts : List Token} {otherwise : Alternative}
    (env : Env) : IsAlternative room ts otherwise → otherwise.follows .single env
  | .absent => rfl
  | .elseif _ _ hbody hrest => by
    simp only [Alternative.follows, Expr.follows_single, hbody.follows_single _ _,
      hrest.follows_single _, Bool.and_self]
  | .otherwise _ hbody => by
    simp only [Alternative.follows, hbody.follows_single _ _]

theorem IsBlock.follows_single {room : Nat} {ts : List Token} {body : List Statement} (env : Env)
    (zone : Zone) : IsBlock room ts body → Statement.followsList .single env zone body
  | .nested _ h _ => h.follows_single env zone

theorem IsStatements.follows_single {room : Nat} {ts : List Token} {body : List Statement}
    (env : Env) (zone : Zone) :
    IsStatements room ts body → Statement.followsList .single env zone body
  | .nil => rfl
  | .cons h hrest => by
    simp only [Statement.followsList, h.follows_single env zone, hrest.follows_single env _,
      Bool.and_self]

end

end Grammar

/-- A program that is parsed declares one variable in every `for` loop. -/
theorem parse_follows_single {ts : List Token} {p : Program} (h : parse ts = .ok p) :
    p.follows .single := by
  obtain ⟨rest, hprogram⟩ := parse_eq_ok.mp h
  obtain ⟨_, _, _, _, hderived⟩ := Parser.program_eq_ok_iff.mp hprogram
  exact hderived.follows_single [] _

end ScopedScript
