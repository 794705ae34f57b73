import ScopedScript.Proofs.RoundTrip.Derivation
import ScopedScript.Proofs.RoundTrip.Lexing
import ScopedScript.Proofs.Run.Frames
import ScopedScript.Proofs.Scoping.Acceptance
import ScopedScript.Proofs.Scoping.Judgement
import ScopedScript.Proofs.Session
import ScopedScript.Proofs.Tree.Names

/-!
# The checker decides the rules of scoping

The checker walks over a program once. It keeps all scopes that were opened, which of them is the
current one, a count of loops and the function around the current statement, and stops at the first
fault. All of this stands for the surroundings of the place that it has come to: the scopes from the
current one outward hold what has been declared, apart from marks of blocks, which no declared name
can be mistaken for. So at every place the checker goes on exactly if the rules are followed there.
-/

namespace ScopedScript

/-! ## Marks of blocks -/

/-- A name that marks a block. The sign in it belongs to no name of a program. -/
def IsMark (name : String) : Prop := '#' ∈ name.toList

theorem IsWord.not_isMark {name : String} (h : IsWord name) : ¬ IsMark name := by
  obtain ⟨first, rest, htext, hfirst, hrest⟩ := h
  have hsign : Text.isNamePart '#' = false := by decide
  unfold IsMark
  rw [htext, List.mem_cons]
  rintro (rfl | hmem)
  · rw [Text.isNamePart_of_isNameStart hfirst] at hsign
    exact Bool.noConfusion hsign
  · rw [List.all_eq_true.mp hrest _ hmem] at hsign
    exact Bool.noConfusion hsign

/-- The mark of a block: the word that opens it, and a number. -/
def markName (word : Keyword) (number : Nat) : String := word.spelling ++ s!"#{number}"

theorem isMark_markName (word : Keyword) (number : Nat) : IsMark (markName word number) := by
  simp only [IsMark, markName, String.toList_append, List.mem_append]
  exact .inr (.inl (by decide))

theorem isMark_blockName (word : Keyword) (c : Checker) : IsMark (Check.blockName word c) :=
  isMark_markName word (c.blocks + 1)

/-- Every program can use only names that are no marks, and none of them is a block. -/
theorem builtinSymbols_not_isMark {name : String} {kind : SymbolKind}
    (h : builtinSymbols.find? name = some kind) : ¬ IsMark name ∧ kind ≠ .block := by
  have hall : ∀ entry ∈ builtinSymbols.entries, '#' ∉ entry.1.toList ∧ entry.2 ≠ .block := by
    decide +kernel
  exact hall _ (Table.mem_of_findIn h)

namespace ScopeTree

/-! ## Scopes that hold the declared names -/

/-- Only marks stand for blocks. -/
def Marked (tree : ScopeTree) : Prop :=
  ∀ (i : Nat) (scope : Scope), tree.scopes[i]? = some scope →
    ∀ name : String, scope.symbols.find? name = some .block → IsMark name

variable {tree : ScopeTree} {names : Names}

/-- In the beginning there is only the outermost scope. -/
theorem eq_root_of_initial {i : Nat} {scope : Scope} (h : initial.scopes[i]? = some scope) :
    scope = .root := by
  simp only [initial, Array.getElem?_singleton] at h
  split at h
  · exact (Option.some.inj h).symm
  · cases h

theorem marked_initial : initial.Marked := by
  intro i scope hscope name hname
  rw [eq_root_of_initial hscope] at hname
  exact absurd rfl (builtinSymbols_not_isMark hname).2

theorem Marked.insert (h : tree.Marked) {symbol : Symbol}
    (hsymbol : symbol.kind = .block → IsMark symbol.name) : (tree.insert symbol).2.Marked := by
  unfold ScopeTree.insert
  split
  · exact h
  · intro i scope hscope name hname
    simp only [modifyCurrent, Array.getElem?_modify] at hscope
    split at hscope
    next =>
      obtain ⟨before, hbefore, rfl⟩ := Option.map_eq_some_iff.mp hscope
      rw [Table.find?_insert] at hname
      split at hname
      next heq =>
        rw [heq]
        exact hsymbol (Option.some.inj hname)
      next => exact h i before hbefore name hname
    next => exact h i scope hscope name hname

theorem Marked.enter (h : tree.Marked) (name : String) : (tree.enter name).Marked := by
  intro i scope hscope other hother
  rw [ScopeTree.enter, Array.getElem?_push] at hscope
  split at hscope
  · obtain rfl := Option.some.inj hscope
    cases hother
  · exact h i scope hscope other hother

theorem Marked.exit (h : tree.Marked) : tree.exit.Marked := by
  unfold ScopeTree.exit
  split
  · exact fun i scope => h i scope
  · exact h

end ScopeTree

/-- The zones that have declared the names. -/
def Names.env (names : Names) : Env := names.map fun declared => ⟨declared, [], []⟩

theorem Names.lookup?_env (names : Names) (name : String) :
    names.env.lookup? name = names.find? name := by
  induction names with
  | nil => rfl
  | cons inner outer ih => exact congrArg _ ih

namespace ScopeTree

/-- The scopes from the current one outward hold the declared names, and apart from these marks. -/
structure Records (tree : ScopeTree) (names : Names) : Prop where
  shows : tree.Shows tree.currentIndex names.env
  /-- What is held and not declared are marks. -/
  marked : tree.Marked
  declared : ∀ inner ∈ names, ∀ name kind, inner.find? name = some kind → ¬ IsMark name

variable {tree : ScopeTree} {names : Names} {name : String}

/-- No mark is declared. -/
theorem Records.find?_of_isMark (h : tree.Records names) (hmark : IsMark name) :
    names.find? name = none := by
  have hdeclared := h.declared
  clear h
  induction names with
  | nil =>
    cases hfound : builtinSymbols.find? name with
    | none => exact hfound
    | some kind => exact absurd hmark (builtinSymbols_not_isMark hfound).1
  | cons inner outer ih =>
    rw [List.forall_mem_cons] at hdeclared
    rw [Names.find?, ih hdeclared.2, Option.or_none]
    cases hfound : inner.find? name with
    | none => rfl
    | some kind => exact absurd hmark (hdeclared.1 name kind hfound)

/-- A scope holds a name that is no mark as what its zone has declared it as. -/
theorem Marked.find?_eq (h : tree.Marked) {i : Nat} {scope : Scope}
    (hscope : tree.scopes[i]? = some scope) {zone : Zone} (hrecords : zone.RecordedBy scope)
    (hname : ¬ IsMark name) : scope.symbols.find? name = zone.symbols.find? name := by
  obtain heq | hblock := hrecords name
  · exact heq
  · exact absurd (h i scope hscope name hblock) hname

/-- Along a chain of scopes, a name that is no mark is found as what it stands for. -/
theorem Marked.findSome?_eq (h : tree.Marked) {i count : Nat} (hshows : tree.Shows i names.env)
    (hcount : i < count) (hname : ¬ IsMark name) :
    (chainUpTo tree.link count i).findSome? (fun j => (tree.scopes[j]?).bind (·.find? name)) =
      (names.find? name).map (⟨name, ·⟩) := by
  induction names generalizing i count with
  | nil =>
    obtain ⟨count, rfl⟩ : ∃ less, count = less + 1 := ⟨count - 1, by omega⟩
    have hscope : tree.scopes[i]? = some .root := hshows
    simp only [chainUpTo, link, hscope, Option.bind_some, Scope.root, List.findSome?_cons,
      Scope.find?, List.findSome?_nil, Names.find?]
    cases builtinSymbols.find? name <;> rfl
  | cons inner outer ih =>
    obtain ⟨count, rfl⟩ : ∃ less, count = less + 1 := ⟨count - 1, by omega⟩
    obtain ⟨scope, around, hscope, hrecords, houter, hlt, hshows⟩ := hshows
    have hsame := h.find?_eq hscope hrecords hname
    simp only [chainUpTo, link, hscope, Option.bind_some, houter, List.findSome?_cons,
      Scope.find?, hsame, Names.find?]
    cases inner.find? name with
    | none => exact ih hshows (by omega)
    | some kind => rfl

/-- A name that is no mark is found as what it stands for. -/
theorem Records.lookup?_of_not_isMark (h : tree.Records names) (hname : ¬ IsMark name) :
    tree.lookup? name = (names.find? name).map (⟨name, ·⟩) :=
  h.marked.findSome?_eq h.shows (Nat.lt_succ_self _) hname

/-- What the scopes find is what the name stands for. A mark stands for nothing, and nothing or the
block is found. -/
theorem Records.lookup?_eq (h : tree.Records names) (name : String) :
    tree.lookup? name = (names.find? name).map (⟨name, ·⟩) ∨
      names.find? name = none ∧ ∃ other, tree.lookup? name = some ⟨other, .block⟩ := by
  by_cases hmark : IsMark name
  · have hnone := h.find?_of_isMark hmark
    cases hlookup : tree.lookup? name with
    | none =>
      rw [hnone]
      exact .inl rfl
    | some symbol =>
      obtain ⟨other, kind⟩ := symbol
      by_cases hkind : kind = .block
      · exact .inr ⟨hnone, other, by rw [hkind]⟩
      · have hfound := lookup?_of_shows h.shows hlookup hkind
        rw [Names.lookup?_env, hnone] at hfound
        cases hfound
  · exact .inl (h.lookup?_of_not_isMark hmark)

/-- The current scope holds a name that is no mark as what it has declared it as. -/
theorem Records.current_eq {inner : Table SymbolKind} (h : tree.Records (inner :: names))
    (hname : ¬ IsMark name) : tree.current.symbols.find? name = inner.find? name := by
  obtain ⟨scope, _, hscope, hrecords, _⟩ := h.shows
  rw [current, hscope, Option.getD_some]
  exact h.marked.find?_eq hscope hrecords hname

section Changes

variable {inner : Table SymbolKind} {symbol : Symbol}

/-- A name is taken exactly if the current scope has not declared it. -/
theorem Records.insert_fst (h : tree.Records (inner :: names)) (hname : ¬ IsMark symbol.name) :
    (tree.insert symbol).1 = (inner.find? symbol.name).isNone := by
  rw [ScopeTree.insert, Table.contains, h.current_eq hname]
  cases inner.find? symbol.name <;> rfl

theorem Records.insert {after : ScopeTree} (h : tree.Records (inner :: names))
    (hname : ¬ IsMark symbol.name) (hkind : symbol.kind ≠ .block)
    (hinsert : tree.insert symbol = (true, after)) :
    tree.Grows after ∧ after.Records (inner.insert symbol.name symbol.kind :: names) := by
  let zone : Zone := ⟨inner.insert symbol.name symbol.kind, [], []⟩
  have hzone : zone.symbols = inner.insert symbol.name symbol.kind := rfl
  obtain ⟨hgrows, hshows⟩ := shows_insert hinsert h.shows hzone
  refine ⟨hgrows, hshows, ?_, ?_⟩
  · have hmarked := h.marked.insert fun hblock => absurd hblock hkind
    rw [hinsert] at hmarked
    exact hmarked
  · obtain ⟨hinner, houter⟩ := List.forall_mem_cons.mp h.declared
    refine List.forall_mem_cons.mpr ⟨fun other kind hother => ?_, houter⟩
    rw [Table.find?_insert] at hother
    split at hother
    next heq => exact heq ▸ hname
    next => exact hinner other kind hother

theorem Records.mark (h : tree.Records (inner :: names)) {name : String} (hname : IsMark name) :
    tree.Grows (tree.insert ⟨name, .block⟩).2 ∧
      (tree.insert ⟨name, .block⟩).2.Records (inner :: names) := by
  obtain ⟨hgrows, hshows⟩ := shows_mark name h.shows
  rw [← hgrows.current] at hshows
  exact ⟨hgrows, hshows, h.marked.insert fun _ => hname, h.declared⟩

theorem Records.enter (h : tree.Records names) (name : String) :
    (tree.enter name).Records (.empty :: names) where
  shows := shows_enter name ⟨.empty, [], []⟩ rfl h.shows
  marked := h.marked.enter name
  declared := List.forall_mem_cons.mpr ⟨nofun, h.declared⟩

theorem Records.exit (h : tree.Records names) {name : String} {after : ScopeTree}
    (hgrows : (tree.enter name).Grows after) (hafter : after.Marked) :
    tree.Grows after.exit ∧ after.exit.Records names := by
  obtain ⟨hback, hshows⟩ := shows_exit h.shows hgrows
  exact ⟨hback, hshows, hafter.exit, h.declared⟩

end Changes

end ScopeTree

/-! ## States and places -/

/-- The state of a check stands for a place: its scopes hold the declared names, and it knows of the
loop and the function around. -/
structure Checker.At (c : Checker) (around : Surroundings) (inner : Table SymbolKind) : Prop where
  records : c.scopes.Records (inner :: around.outer)
  inLoop : 0 < c.loopDepth ↔ around.inLoop
  function : c.function.map (·.isVoid) = around.function.map (·.isNone)

namespace Check

/-- From a state that stands for a place, a check goes on exactly if a rule is followed there, and
then stands for the place behind, with as many loops around. The rule tells what is declared
behind. -/
def Decides (check : Check Unit) (around : Surroundings) (inner : Table SymbolKind)
    (rule : Table SymbolKind → Prop) : Prop :=
  ∀ c : Checker, c.At around inner →
    match check c with
    | .ok _ after => ∃ last, (∀ other, rule other ↔ other = last) ∧
        c.scopes.Grows after.scopes ∧ after.loopDepth = c.loopDepth ∧ after.At around last
    | .error _ _ => ∀ other, ¬ rule other

/-- A check that declares nothing goes on exactly if something holds. -/
abbrev Passes (check : Check Unit) (around : Surroundings) (inner : Table SymbolKind)
    (holds : Prop) : Prop :=
  Decides check around inner fun last => holds ∧ last = inner

theorem declare_apply (symbol : Symbol) (position : Position) (c : Checker) :
    declare symbol position c =
      if (c.scopes.insert symbol).1 then .ok () { c with scopes := (c.scopes.insert symbol).2 }
      else .error ⟨.redeclared symbol.name, position⟩ c := by
  simp only [declare, bind_apply, get_apply]
  cases (c.scopes.insert symbol).1 <;> rfl

section Rules

variable {check check' : Check Unit} {around : Surroundings} {inner : Table SymbolKind}
  {rule rule' : Table SymbolKind → Prop} {holds holds' : Prop}

theorem Decides.congr (h : Decides check around inner rule)
    (hsame : ∀ last, rule' last ↔ rule last) : Decides check around inner rule' := by
  obtain rfl : rule' = rule := funext fun last => propext (hsame last)
  exact h

/-- Two checks, the second where the first one has come to. -/
theorem Decides.and_then (h : Decides check around inner rule)
    (rules : Table SymbolKind → Table SymbolKind → Prop)
    (h' : ∀ middle, rule middle → Decides check' around middle (rules middle)) :
    Decides (do check; check') around inner fun last =>
      ∃ middle, rule middle ∧ rules middle last := by
  intro c hat
  have hfirst := h c hat
  rw [bind_apply]
  cases hcheck : check c with
  | error fault after =>
    rw [hcheck] at hfirst
    rintro last ⟨middle, hmiddle, _⟩
    exact hfirst middle hmiddle
  | ok _ after =>
    rw [hcheck] at hfirst
    obtain ⟨middle, honly, hgrows, hdepth, hafter⟩ := hfirst
    have hmiddle := (honly middle).mpr rfl
    have hsecond := h' middle hmiddle after hafter
    change match check' after with
      | .ok _ last => _
      | .error _ _ => _
    cases hcheck' : check' after with
    | error fault last =>
      rw [hcheck'] at hsecond
      rintro other ⟨middle', hmiddle', hother⟩
      obtain rfl := (honly middle').mp hmiddle'
      exact hsecond other hother
    | ok _ last =>
      rw [hcheck'] at hsecond
      obtain ⟨inner', honly', hgrows', hdepth', hlast⟩ := hsecond
      refine ⟨inner', fun other => ⟨?_, ?_⟩, hgrows.trans hgrows', hdepth'.trans hdepth, hlast⟩
      · rintro ⟨middle', hmiddle', hother⟩
        obtain rfl := (honly middle').mp hmiddle'
        exact (honly' other).mp hother
      · exact fun hother => ⟨middle, hmiddle, (honly' other).mpr hother⟩

/-- Two checks, the first of which can only come to one place. -/
theorem Decides.behind {middle : Table SymbolKind}
    (h : Decides check around inner fun last => holds ∧ last = middle)
    (h' : Decides check' around middle rule) :
    Decides (do check; check') around inner fun last => holds ∧ rule last := by
  have hboth := h.and_then (fun _ => rule) fun _ hmiddle => by
    rw [hmiddle.2]
    exact h'
  refine hboth.congr fun last => ⟨?_, ?_⟩
  · exact fun ⟨hholds, hrule⟩ => ⟨middle, ⟨hholds, rfl⟩, hrule⟩
  · exact fun ⟨_, ⟨hholds, _⟩, hrule⟩ => ⟨hholds, hrule⟩

theorem Passes.congr (h : Passes check around inner holds) (hsame : holds' ↔ holds) :
    Passes check around inner holds' := by
  obtain rfl : holds' = holds := propext hsame
  exact h

/-- A check of something that declares nothing. -/
theorem Passes.decides (h : Passes check around inner holds)
    (hsame : ∀ last, rule last ↔ holds ∧ last = inner) : Decides check around inner rule :=
  Decides.congr h hsame

theorem Passes.and (h : Passes check around inner holds)
    (h' : Passes check' around inner holds') :
    Passes (do check; check') around inner (holds ∧ holds') :=
  (Decides.behind h h').congr fun _ => and_assoc

theorem passes_return (hholds : holds) : Passes (pure ()) around inner holds :=
  fun _ hat => ⟨inner, fun _ => and_iff_right hholds, .refl _, rfl, hat⟩

theorem passes_fail (fault : ScopeFault) (position : Position) (hnot : ¬ holds) :
    Passes (fail fault position) around inner holds :=
  fun _ _ _ h => hnot h.1

/-- A check that looks at the state first. -/
theorem Decides.of_get {next : Checker → Check Unit}
    (h : ∀ state : Checker, state.At around inner → Decides (next state) around inner rule) :
    Decides (get >>= next) around inner rule :=
  fun state hat => h state hat state hat

/-! ## Names in expressions -/

theorem passes_variableUse (name : String) (position : Position) :
    Passes (variableUse name position) around inner
      (∃ type, Names.find? (inner :: around.outer) name = some (.var type)) := by
  refine Decides.of_get fun c hat => ?_
  obtain hlookup | ⟨hnone, other, hlookup⟩ := hat.records.lookup?_eq name
  · rw [hlookup]
    cases hfound : Names.find? (inner :: around.outer) name with
    | none => exact passes_fail _ _ (by simp)
    | some kind =>
      cases kind with
      | var type => exact passes_return ⟨type, rfl⟩
      | _ => exact passes_fail _ _ (by simp)
  · rw [hlookup]
    exact passes_fail _ _ (by simp [hnone])

theorem passes_callUse (name : String) (count : Nat) (position : Position) :
    Passes (callUse name count position) around inner
      (∃ returns arity, Names.find? (inner :: around.outer) name =
        some (.function returns arity) ∧ arity.accepts count) := by
  refine Decides.of_get fun c hat => ?_
  obtain hlookup | ⟨hnone, other, hlookup⟩ := hat.records.lookup?_eq name
  · rw [hlookup]
    cases hfound : Names.find? (inner :: around.outer) name with
    | none => exact passes_fail _ _ (by simp)
    | some kind =>
      cases kind with
      | function returns arity =>
        simp only [Option.map_some]
        by_cases haccepts : arity.accepts count
        · rw [if_pos haccepts]
          exact passes_return ⟨returns, arity, rfl, haccepts⟩
        · rw [if_neg haccepts]
          exact passes_fail _ _ (by simpa using haccepts)
      | _ => exact passes_fail _ _ (by simp)
  · rw [hlookup]
    exact passes_fail _ _ (by simp [hnone])

mutual

/-- The names in an expression are accepted exactly if it follows the rules. -/
theorem passes_expression : (e : Expr) →
    Passes (expression e) around inner (e.WellScoped (inner :: around.outer))
  | .literal _ _ => passes_return .literal
  | .var name token => (passes_variableUse name token.position).congr
    ⟨fun | .var h => ⟨_, h⟩, fun ⟨_, h⟩ => .var h⟩
  | .unary _ operand _ => (passes_expression operand).congr ⟨fun | .unary h => h, .unary⟩
  | .binary left _ right _ => ((passes_expression left).and (passes_expression right)).congr
    ⟨fun | .binary hleft hright => ⟨hleft, hright⟩, fun h => .binary h.1 h.2⟩
  | .call name arguments _ token =>
    ((passes_callUse name arguments.length token.position).and
      (passes_expressions arguments)).congr
    ⟨fun | .call hname hcount h => ⟨⟨_, _, hname, hcount⟩, h⟩,
      fun ⟨⟨_, _, hname, hcount⟩, h⟩ => .call hname hcount h⟩
  | .index base position _ => ((passes_expression base).and (passes_expression position)).congr
    ⟨fun | .index hbase hposition => ⟨hbase, hposition⟩, fun h => .index h.1 h.2⟩
  | .slice base start stop _ =>
    ((passes_expression base).and ((passes_expression start).and (passes_expression stop))).congr
    ⟨fun | .slice hbase hstart hstop => ⟨hbase, hstart, hstop⟩, fun h => .slice h.1 h.2.1 h.2.2⟩
  | .range start stop _ => ((passes_expression start).and (passes_expression stop)).congr
    ⟨fun | .range hstart hstop => ⟨hstart, hstop⟩, fun h => .range h.1 h.2⟩
  | .steppedRange start stop step _ =>
    ((passes_expression start).and ((passes_expression stop).and (passes_expression step))).congr
    ⟨fun | .steppedRange hstart hstop hstep => ⟨hstart, hstop, hstep⟩,
      fun h => .steppedRange h.1 h.2.1 h.2.2⟩

theorem passes_expressions : (es : List Expr) →
    Passes (expressions es) around inner (∀ e ∈ es, e.WellScoped (inner :: around.outer))
  | [] => passes_return (by simp)
  | e :: es => ((passes_expression e).and (passes_expressions es)).congr List.forall_mem_cons

end

theorem passes_optional (value : Option Expr) :
    Passes (optional value) around inner
      (∀ e ∈ value, e.WellScoped (inner :: around.outer)) := by
  cases value with
  | none => exact passes_return (by simp)
  | some e => exact (passes_expression e).congr (by simp)

/-! ## Declarations -/

/-- A name is declared exactly if its scope has not declared it before. -/
theorem decides_declare {symbol : Symbol} (position : Position) (hname : ¬ IsMark symbol.name)
    (hkind : symbol.kind ≠ .block) :
    Decides (declare symbol position) around inner fun last =>
      inner.find? symbol.name = none ∧ last = inner.insert symbol.name symbol.kind := by
  intro c hat
  have hfst := hat.records.insert_fst hname
  cases hinsert : c.scopes.insert symbol with
  | mk inserted scopes =>
    rw [hinsert] at hfst
    rw [declare_apply, hinsert]
    cases inserted with
    | false =>
      rintro other ⟨hnew, _⟩
      rw [hnew] at hfst
      cases hfst
    | true =>
      obtain ⟨hgrows, hrecords⟩ := hat.records.insert hname hkind hinsert
      refine ⟨_, fun other => and_iff_right ?_, hgrows, rfl, hrecords, hat.inLoop, hat.function⟩
      exact Option.isNone_iff_eq_none.mp hfst.symm

/-- Of further variables, the first is declared behind its value. -/
theorem decides_variable {v : NewVariable} {vs : List NewVariable} {rest : Check Unit}
    (hname : ¬ IsMark v.name) (position : Position)
    (hrest : ∀ middle, Decides rest around middle (Declares around.outer middle vs)) :
    Decides (do optional v.value; declare ⟨v.name, .var v.type⟩ position; rest) around inner
      (Declares around.outer inner (v :: vs)) := by
  have hdeclare : Decides (declare ⟨v.name, .var v.type⟩ position) around inner _ :=
    decides_declare position hname nofun
  refine ((passes_optional v.value).behind (hdeclare.behind (hrest _))).congr fun last => ?_
  exact ⟨fun | .cons hvalue hnew hrest => ⟨hvalue, hnew, hrest⟩, fun h => .cons h.1 h.2.1 h.2.2⟩

theorem decides_nothing : Decides (pure ()) around inner (Declares around.outer inner []) :=
  (passes_return trivial).decides fun _ =>
    ⟨fun | .nil => ⟨trivial, rfl⟩, fun ⟨_, h⟩ => h ▸ .nil⟩

theorem decides_declarators (type : Ty) (ds : List Declarator)
    (hnames : ∀ name ∈ ds.flatMap Declarator.names, ¬ IsMark name) (inner : Table SymbolKind) :
    Decides (declarators type ds) around inner
      (Declares around.outer inner (ds.map fun d => ⟨d.name, type, d.initializer⟩)) := by
  induction ds generalizing inner with
  | nil => exact decides_nothing
  | cons d ds ih =>
    obtain ⟨hfirst, hrest⟩ := List.forall_mem_append.mp hnames
    exact decides_variable (v := ⟨d.name, type, d.initializer⟩)
      (hfirst _ List.mem_cons_self) d.token.position (ih hrest)

theorem decides_parameters (params : List Param)
    (hnames : ∀ name ∈ params.flatMap Param.names, ¬ IsMark name) (inner : Table SymbolKind) :
    Decides (parameters params) around inner
      (Declares around.outer inner (params.map Param.variable)) := by
  induction params generalizing inner with
  | nil => exact decides_nothing
  | cons p params ih =>
    obtain ⟨hfirst, hrest⟩ := List.forall_mem_append.mp hnames
    exact decides_variable (v := p.variable) (hfirst _ List.mem_cons_self) p.token.position
      (ih hrest)

/-- No parameter without a default is found behind one with a default exactly if there is none. -/
theorem requiredAfterDefault?_eq_none_iff {params : List Param} :
    requiredAfterDefault? params = none ↔
      params.Pairwise fun p q => p.fallback.isSome → q.fallback.isSome := by
  induction params with
  | nil => simp [requiredAfterDefault?]
  | cons p params ih =>
    rw [requiredAfterDefault?, List.pairwise_cons]
    split
    next hdefault =>
      simp only [List.find?_eq_none, Bool.not_eq_true, Option.isNone_eq_false_iff]
      refine ⟨fun h => ⟨fun q hq _ => h q hq, ?_⟩, fun h q hq => h.1 q hq hdefault⟩
      exact List.pairwise_of_forall_mem_list fun _ _ q hq _ => h q hq
    next hrequired =>
      rw [ih]
      exact (and_iff_right fun q _ hdefault => absurd hdefault hrequired).symm

/-! ## Scopes, loops and functions -/

/-- A check in changed surroundings. -/
theorem Decides.bracket {enter : Checker → Checker} {leave : Checker → Checker → Checker}
    {around' : Surroundings} {first : Table SymbolKind} (h : Decides check around' first rule)
    (behind : Table SymbolKind → Table SymbolKind)
    (henter : ∀ c : Checker, c.At around inner → (enter c).At around' first)
    (hleave : ∀ (c after : Checker) (last : Table SymbolKind), c.At around inner →
      (enter c).scopes.Grows after.scopes → after.loopDepth = (enter c).loopDepth →
        after.At around' last → c.scopes.Grows (leave c after).scopes ∧
          (leave c after).loopDepth = c.loopDepth ∧ (leave c after).At around (behind last)) :
    Decides (bracket enter leave check) around inner fun other =>
      ∃ last, rule last ∧ other = behind last := by
  intro c hat
  have hbody := h (enter c) (henter c hat)
  unfold Check.bracket
  cases hcheck : check (enter c) with
  | error fault after =>
    rw [hcheck] at hbody
    rintro other ⟨last, hlast, _⟩
    exact hbody last hlast
  | ok _ after =>
    rw [hcheck] at hbody
    obtain ⟨last, honly, hgrows, hdepth, hafter⟩ := hbody
    have hback := hleave c after last hat hgrows hdepth hafter
    refine ⟨behind last, fun other => ⟨?_, ?_⟩, hback⟩
    · rintro ⟨last', hlast', rfl⟩
      rw [(honly last').mp hlast']
    · rintro rfl
      exact ⟨last, (honly last).mpr rfl, rfl⟩

/-- A scope of its own has declared nothing, and is closed behind what is checked in it. -/
theorem Decides.inScope (h : Decides check (around.block inner) .empty rule) (name : String) :
    Passes (inScope name check) around inner (∃ last, rule last) := by
  refine (Decides.bracket h (fun _ => inner) ?_ ?_).congr ?_
  · exact fun c hat => ⟨hat.records.enter name, hat.inLoop, hat.function⟩
  · intro c after last hat hgrows hdepth hafter
    obtain ⟨hback, hrecords⟩ := hat.records.exit hgrows hafter.records.marked
    exact ⟨hback, hdepth, hrecords, hafter.inLoop, hafter.function⟩
  · exact fun other => exists_and_right.symm

/-- The mark of a block changes nothing that is declared. -/
theorem Decides.inBlock (h : Decides check (around.block inner) .empty rule) (word : Keyword) :
    Passes (inBlock word check) around inner (∃ last, rule last) := by
  intro c hat
  obtain ⟨hgrows, hrecords⟩ := hat.records.mark (isMark_blockName word c)
  have hmarked : (markBlock word c).At around inner := ⟨hrecords, hat.inLoop, hat.function⟩
  have hscope := h.inScope (blockName word c) (markBlock word c) hmarked
  unfold Check.inBlock
  cases hcheck : Check.inScope (blockName word c) check (markBlock word c) with
  | error fault after =>
    rw [hcheck] at hscope
    exact hscope
  | ok _ after =>
    rw [hcheck] at hscope
    obtain ⟨last, honly, hgrows', hafter⟩ := hscope
    exact ⟨last, honly, hgrows.trans hgrows', hafter⟩

/-- Behind the body its own loops have been taken back, so that taking back this one leaves the loops
around it. -/
theorem Decides.inLoop (h : Decides check (around.loop inner) .empty rule) (word : Keyword) :
    Passes (inLoop word check) around inner (∃ last, rule last) := by
  have hcounted : Decides (Check.bracket
      (fun state => { state with loopDepth := state.loopDepth + 1 })
      (fun _ after => { after with loopDepth := after.loopDepth - 1 }) check)
      (around.block inner) .empty rule := by
    refine (Decides.bracket h id ?_ ?_).congr fun last => by simp
    · exact fun c hat => ⟨hat.records, iff_of_true (Nat.succ_pos _) rfl, hat.function⟩
    · intro c after last hat hgrows hdepth hafter
      have hback : after.loopDepth - 1 = c.loopDepth := Nat.sub_eq_of_eq_add hdepth
      refine ⟨hgrows, hback, hafter.records, ?_, hafter.function⟩
      exact hback ▸ hat.inLoop
  exact hcounted.inBlock word

theorem Decides.inFunction {decl : FunctionDecl}
    (h : Decides check (around.call inner decl.returns.type) .empty rule) :
    Passes (inFunction decl check) around inner (∃ last, rule last) := by
  let inside : Surroundings := ⟨around.outer, false, some decl.returns.type⟩
  have hscope : Passes (Check.inScope decl.name check) inside inner _ := h.inScope decl.name
  refine (Decides.bracket hscope id ?_ ?_).congr ?_
  · exact fun c hat => ⟨hat.records, by simp [inside], rfl⟩
  · exact fun c after last hat hgrows _ hafter =>
      ⟨hgrows, rfl, hafter.records, hat.inLoop, hat.function⟩
  · intro other
    simp

/-! ## Jumps -/

theorem passes_jump (word : Keyword) (position : Position) :
    Passes (jump word position) around inner around.inLoop := by
  refine Decides.of_get fun c hat => ?_
  split
  next hnone => exact passes_fail _ _ fun h => absurd (hat.inLoop.mpr h) (by omega)
  next hloop => exact passes_return (hat.inLoop.mp (by omega))

theorem passes_returnFrom (value : Option Expr) (token : Token) :
    Passes (returnFrom value token.position) around inner
      (Statement.WellScoped around inner (.returnFrom value token) inner) := by
  refine Decides.of_get fun c hat => ?_
  have hfunction := hat.function
  cases hreturns : around.function with
  | none =>
    rw [hreturns, Option.map_none, Option.map_eq_none_iff] at hfunction
    rw [hfunction]
    refine passes_fail _ _ fun h => ?_
    cases h with
    | returnNothing h => simp [hreturns] at h
    | returnValue h _ => simp [hreturns] at h
  | some returns =>
    rw [hreturns, Option.map_some, Option.map_eq_some_iff] at hfunction
    obtain ⟨⟨name, isVoid⟩, hfunction, hvoid⟩ := hfunction
    rw [hfunction]
    obtain rfl : isVoid = returns.isNone := hvoid
    cases returns with
    | none =>
      cases value with
      | none => exact passes_return (.returnNothing hreturns)
      | some value =>
        refine passes_fail _ _ fun h => ?_
        cases h with
        | returnValue h _ => simp [hreturns] at h
    | some type =>
      cases value with
      | none =>
        refine passes_fail _ _ fun h => ?_
        cases h with
        | returnNothing h => simp [hreturns] at h
      | some value =>
        exact (passes_expression value).congr
          ⟨fun | .returnValue _ h => h, .returnValue hreturns⟩

mutual

/-- A statement is accepted exactly if it follows the rules. -/
theorem decides_statement : (s : Statement) → (∀ name ∈ s.names, ¬ IsMark name) →
    (around : Surroundings) → (inner : Table SymbolKind) →
    Decides (statement s) around inner (Statement.WellScoped around inner s)
  | .empty, _, around, inner => (passes_return trivial).decides fun _ =>
    ⟨fun | .empty => ⟨trivial, rfl⟩, fun ⟨_, h⟩ => h ▸ .empty⟩
  | .declaration decl, hnames, around, inner =>
    (decides_declarators _ decl.declarators hnames inner).congr
      fun _ => ⟨fun | .declaration h => h, .declaration⟩
  | .assignment target _ value token, _, around, inner => by
    have htarget : Passes (variableUse target token.position) around inner _ :=
      passes_variableUse target token.position
    refine ((passes_expression value).and htarget).decides fun _ =>
      ⟨fun | .assignment hvalue htarget => ⟨⟨hvalue, _, htarget⟩, rfl⟩, ?_⟩
    rintro ⟨⟨hvalue, _, htarget⟩, rfl⟩
    exact .assignment hvalue htarget
  | .conditional condition body otherwise _, hnames, around, inner => by
    obtain ⟨-, hnames⟩ := List.forall_mem_append.mp hnames
    obtain ⟨hinside, hbehind⟩ := List.forall_mem_append.mp hnames
    have hbody := (decides_statements body hinside (around.block inner) .empty).inBlock .kwIf
    have hrest := decides_alternative otherwise hbehind around inner
    refine ((passes_expression condition).and (hbody.and hrest)).decides fun _ => ⟨?_, ?_⟩
    · rintro ⟨⟩
      exact ⟨⟨‹_›, ⟨_, ‹_›⟩, ‹_›⟩, rfl⟩
    · rintro ⟨⟨hcondition, ⟨_, hbody⟩, hotherwise⟩, rfl⟩
      exact .conditional hcondition hbody hotherwise
  | .whileLoop condition body _, hnames, around, inner => by
    obtain ⟨-, hinside⟩ := List.forall_mem_append.mp hnames
    have hbody := (decides_statements body hinside (around.loop inner) .empty).inLoop .kwWhile
    refine ((passes_expression condition).and hbody).decides fun _ =>
      ⟨fun | .whileLoop hcondition hbody => ⟨⟨hcondition, _, hbody⟩, rfl⟩, ?_⟩
    rintro ⟨⟨hcondition, _, hbody⟩, rfl⟩
    exact .whileLoop hcondition hbody
  | .forLoop loopVariable iterable body _, hnames, around, inner => by
    obtain ⟨-, hnames⟩ := List.forall_mem_append.mp hnames
    obtain ⟨hdeclared, hinside⟩ := List.forall_mem_append.mp hnames
    have hvariable : Decides (varDecl loopVariable) (around.loop inner) .empty _ :=
      decides_declarators _ loopVariable.declarators hdeclared .empty
    have hbody := (hvariable.and_then _ fun first _ =>
      decides_statements body hinside (around.loop inner) first).inLoop .kwFor
    refine ((passes_expression iterable).and hbody).decides fun _ =>
      ⟨fun | .forLoop hiterable hvariable hbody => ⟨⟨hiterable, _, _, hvariable, hbody⟩, rfl⟩, ?_⟩
    rintro ⟨⟨hiterable, _, _, hvariable, hbody⟩, rfl⟩
    exact .forLoop hiterable hvariable hbody
  | .breakLoop token, _, around, inner => (passes_jump .kwBreak token.position).decides fun _ =>
    ⟨fun | .breakLoop h => ⟨h, rfl⟩, fun ⟨hloop, h⟩ => h ▸ .breakLoop hloop⟩
  | .continueLoop token, _, around, inner =>
    (passes_jump .kwContinue token.position).decides fun _ =>
      ⟨fun | .continueLoop h => ⟨h, rfl⟩, fun ⟨hloop, h⟩ => h ▸ .continueLoop hloop⟩
  | .returnFrom value token, _, around, inner => by
    refine (passes_returnFrom value token).decides fun last => ⟨fun h => ?_, fun h => ?_⟩
    · cases h with
      | returnNothing h => exact ⟨.returnNothing h, rfl⟩
      | returnValue h hvalue => exact ⟨.returnValue h hvalue, rfl⟩
    · exact h.2 ▸ h.1
  | .function decl, hnames, around, inner => decides_function decl hnames around inner
  | .expression expr, _, around, inner => by
    refine (passes_expression expr).decides fun _ => ⟨fun | .expression h => ⟨h, rfl⟩, ?_⟩
    rintro ⟨h, rfl⟩
    exact .expression h

theorem decides_alternative : (o : Alternative) → (∀ name ∈ o.names, ¬ IsMark name) →
    (around : Surroundings) → (inner : Table SymbolKind) →
    Passes (alternative o) around inner (Alternative.WellScoped around inner o)
  | .absent, _, around, inner => passes_return .absent
  | .elseif condition body rest, hnames, around, inner => by
    obtain ⟨-, hnames⟩ := List.forall_mem_append.mp hnames
    obtain ⟨hinside, hbehind⟩ := List.forall_mem_append.mp hnames
    have hbody := (decides_statements body hinside (around.block inner) .empty).inBlock .kwElseif
    have hrest := decides_alternative rest hbehind around inner
    refine ((passes_expression condition).and (hbody.and hrest)).congr ⟨?_, ?_⟩
    · rintro ⟨⟩
      exact ⟨‹_›, ⟨_, ‹_›⟩, ‹_›⟩
    · rintro ⟨hcondition, ⟨_, hbody⟩, hrest⟩
      exact .elseif hcondition hbody hrest
  | .otherwise body, hnames, around, inner =>
    ((decides_statements body hnames (around.block inner) .empty).inBlock .kwElse).congr
      ⟨fun | .otherwise h => ⟨_, h⟩, fun ⟨_, h⟩ => .otherwise h⟩

theorem decides_function : (decl : FunctionDecl) → (∀ name ∈ decl.names, ¬ IsMark name) →
    (around : Surroundings) → (inner : Table SymbolKind) →
    Decides (function decl) around inner (Statement.WellScoped around inner (.function decl))
  | ⟨returns, name, params, body, token⟩, hnames, around, inner => by
    obtain ⟨hname, hnames⟩ := List.forall_mem_cons.mp hnames
    obtain ⟨hgiven, hinside⟩ := List.forall_mem_append.mp hnames
    let decl : FunctionDecl := ⟨returns, name, params, body, token⟩
    let inner' := inner.insert name decl.kind
    have hdeclare : Decides (declare ⟨name, decl.kind⟩ token.position) around inner _ :=
      decides_declare token.position hname nofun
    have hparams : Decides (parameters params) (around.call inner' returns.type) .empty _ :=
      decides_parameters params hgiven .empty
    have hinside : Passes (inFunction decl _) around inner' _ :=
      (hparams.and_then _ fun first _ => decides_statements body hinside _ first).inFunction
    have hfunction := hdeclare.behind hinside
    rw [function]
    cases hdefaults : requiredAfterDefault? params with
    | some param =>
      have hfails : Passes (fail (.requiredAfterDefault param.name) param.token.position) around
          inner False := passes_fail _ _ id
      refine hfails.decides fun last => ⟨fun h => ?_, fun h => h.1.elim⟩
      cases h with
      | function hlast _ _ _ =>
        rw [requiredAfterDefault?_eq_none_iff.mpr hlast] at hdefaults
        cases hdefaults
    | none =>
      refine hfunction.congr fun last => ⟨fun h => ?_, ?_⟩
      · cases h with
        | function _ hnew hparams hbody => exact ⟨hnew, ⟨_, _, hparams, hbody⟩, rfl⟩
      · rintro ⟨hnew, ⟨last, first, hparams, hbody⟩, rfl⟩
        exact .function (requiredAfterDefault?_eq_none_iff.mp hdefaults) hnew hparams hbody

theorem decides_statements : (body : List Statement) →
    (∀ name ∈ Statement.namesList body, ¬ IsMark name) → (around : Surroundings) →
    (inner : Table SymbolKind) →
    Decides (statements body) around inner (Statement.WellScopedList around inner body)
  | [], _, _, _ => (passes_return trivial).decides fun _ =>
    ⟨fun | .nil => ⟨trivial, rfl⟩, fun ⟨_, h⟩ => h ▸ .nil⟩
  | s :: rest, hnames, around, inner =>
    ((decides_statement s (List.forall_mem_append.mp hnames).1 around inner).and_then _
      fun middle _ =>
        decides_statements rest (List.forall_mem_append.mp hnames).2 around middle).congr fun _ =>
          ⟨fun | .cons h hrest => ⟨_, h, hrest⟩, fun ⟨_, h, hrest⟩ => .cons h hrest⟩

end

end Rules

/-- A program without marks among its names is accepted exactly if it follows the rules. -/
theorem program_accepts {p : Program} (hnames : ∀ name ∈ Statement.namesList p, ¬ IsMark name) :
    (∃ after, program p .initial = .ok () after) ↔ p.WellScoped := by
  have hinitial : Checker.initial.scopes.Records [] := ⟨rfl, ScopeTree.marked_initial, nofun⟩
  have hat : (enterScope "global" .initial).At .program .empty :=
    ⟨hinitial.enter "global", iff_of_false (Nat.lt_irrefl 0) nofun, rfl⟩
  have hdecides := decides_statements p hnames .program .empty _ hat
  unfold program inScope bracket
  cases hbody : statements p (enterScope "global" .initial) with
  | ok _ after =>
    rw [hbody] at hdecides
    obtain ⟨last, honly, _⟩ := hdecides
    exact iff_of_true ⟨_, rfl⟩ ⟨last, (honly last).mpr rfl⟩
  | error fault after =>
    rw [hbody] at hdecides
    exact iff_of_false nofun fun ⟨last, h⟩ => hdecides last h

end Check

/-! ## Sources -/

theorem isOk_checkProgram_iff {p : Program} :
    (checkProgram p).result.isOk ↔ ∃ after, Check.program p .initial = .ok () after := by
  unfold checkProgram
  cases Check.program p .initial with
  | ok _ after => exact iff_of_true rfl ⟨after, rfl⟩
  | error fault after => exact iff_of_false nofun nofun

/-- Names of a program that is parsed are words if the identifiers among its tokens are. -/
theorem isWord_of_parse {ts : List Token} {p : Program} (hparse : parse ts = .ok p)
    (hwords : Grammar.Worded ts) : ∀ name ∈ Statement.namesList p, IsWord name := by
  obtain ⟨rest, hprogram⟩ := parse_eq_ok.mp hparse
  obtain ⟨before, stop, rfl, _, hderived⟩ := Parser.program_eq_ok_iff.mp hprogram
  exact hderived.isWord (List.forall_mem_append.mp hwords).1

/-- The identifiers of a source are words. -/
theorem worded_of_tokenize {source : String} {ts : List Token}
    (htokenize : tokenize source = .ok ts) : Grammar.Worded ts :=
  Grammar.Readable.worded (readable_of_tokenize htokenize)

/-- The checker accepts exactly the programs that follow the rules of scoping: whatever is parsed
from tokens among which all identifiers are words, and so whatever is read from a source. -/
theorem accepts_iff_wellScoped {p : Program} :
    (∀ ts, (∀ token ∈ ts, ∀ name, token.kind = .identifier name → IsWord name) →
      parse ts = .ok p → ((checkProgram p).result.isOk ↔ p.WellScoped)) ∧
    ∀ source, read source = .ok p → ((checkProgram p).result.isOk ↔ p.WellScoped) := by
  have hall : ∀ ts, Grammar.Worded ts → parse ts = .ok p →
      ((checkProgram p).result.isOk ↔ p.WellScoped) := by
    intro ts hwords hparse
    rw [isOk_checkProgram_iff]
    exact Check.program_accepts fun name hname =>
      (isWord_of_parse hparse hwords name hname).not_isMark
  refine ⟨hall, fun source hread => ?_⟩
  obtain ⟨ts, htokenize, hparse⟩ := read_eq_ok.mp hread
  exact hall ts (worded_of_tokenize htokenize) hparse

/-- A default can name an earlier parameter, and a variable one of the same name around it. A
variable is declared behind its own value. -/
theorem accepts_iff_wellScoped_default :
    (∃ ts p, tokenize "var(int) x; func(int) f(var(int) a, var(int) b = a + x) {
        var(int) x = a; while true { if x == b { break; } x += 1; } return f(x); }" =
          .ok ts ∧ parse ts = .ok p ∧ p.WellScoped) ∧
      ∃ ts p, tokenize "var(int) x = x;" = .ok ts ∧ parse ts = .ok p ∧ ¬ p.WellScoped := by
  constructor
  · set_option maxRecDepth 2000 in
    obtain ⟨ts, p, htokenize, hparse, haccepts⟩ := exists_read
      "var(int) x; func(int) f(var(int) a, var(int) b = a + x) {
        var(int) x = a; while true { if x == b { break; } x += 1; } return f(x); }" rfl
      (fun p => (checkProgram p).result.isOk) (by decide +kernel)
    have hwords := worded_of_tokenize htokenize
    exact ⟨ts, p, htokenize, hparse, (accepts_iff_wellScoped.1 ts hwords hparse).mp haccepts⟩
  · obtain ⟨ts, p, htokenize, hparse, hrejects⟩ := exists_read "var(int) x = x;" rfl
      (fun p => !(checkProgram p).result.isOk) (by decide +kernel)
    have hread := read_eq_ok.mpr ⟨ts, htokenize, hparse⟩
    refine ⟨ts, p, htokenize, hparse, fun h => ?_⟩
    rw [(accepts_iff_wellScoped.2 _ hread).mpr h] at hrejects
    cases hrejects

end ScopedScript
