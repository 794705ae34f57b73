import ScopedScript.Proofs.Scoping.Maps

/-!
# Scopes taken on trust

An arena keeps scopes and takes everything about them on trust. Symbols are stored whole, under any
name; a position is taken to be that of a scope; and a name is looked up by walking outward for as
long as there is a link. Such a walk could want for a scope, or not end. It does neither: links
point downward and lead to scopes, and so there is one answer to whatever is asked, the same as that
of the tree of scopes, which is that of a stack of maps.
-/

namespace ScopedScript

/-! ## Arenas -/

/-- A scope that holds whole symbols. -/
structure ArenaScope where
  name : String
  level : Nat
  outer : Option Nat
  symbols : Table Symbol

/-- Scopes side by side, and which of them is the current one. -/
structure Arena where
  scopes : Array ArenaScope
  currentIndex : Nat

namespace Arena

/-- The outermost scope alone. -/
def initial : Arena :=
  ⟨#[⟨"builtins", 0, none,
    builtins.foldl (fun table symbol => table.insert symbol.name symbol) .empty⟩], 0⟩

/-- A walk outward finds a symbol of a name, or finds none. It cannot go on where there is no
scope at a position. -/
inductive Finds (arena : Arena) (name : String) : Option Nat → Option Symbol → Prop where
  | nowhere : Finds arena name none none
  | here {i : Nat} {scope : ArenaScope} {symbol : Symbol} (live : arena.scopes[i]? = some scope)
      (declared : scope.symbols.find? name = some symbol) : Finds arena name (some i) (some symbol)
  | outward {i : Nat} {scope : ArenaScope} {symbol? : Option Symbol}
      (live : arena.scopes[i]? = some scope) (undeclared : scope.symbols.find? name = none)
      (next : Finds arena name scope.outer symbol?) : Finds arena name (some i) symbol?

/-- What is answered, and the arena behind it. There is no answer where there is no current scope,
and none to a name if the walk outward comes to no end. -/
inductive Answers (arena : Arena) : ScopeRequest → ScopeAnswer → Arena → Prop where
  | enter {scope : ArenaScope} (name : String)
      (live : arena.scopes[arena.currentIndex]? = some scope) :
      Answers arena (.enter name) .done
        { scopes := arena.scopes.push ⟨name, scope.level + 1, some arena.currentIndex, .empty⟩
          currentIndex := arena.scopes.size }
  | exit {scope : ArenaScope} (live : arena.scopes[arena.currentIndex]? = some scope) :
      Answers arena .exit .done
        { arena with currentIndex := scope.outer.getD arena.currentIndex }
  | refuse {scope : ArenaScope} {symbol : Symbol}
      (live : arena.scopes[arena.currentIndex]? = some scope)
      (declared : scope.symbols.contains symbol.name) :
      Answers arena (.insert symbol) (.inserted false) arena
  | insert {scope : ArenaScope} {symbol : Symbol}
      (live : arena.scopes[arena.currentIndex]? = some scope)
      (undeclared : ¬ scope.symbols.contains symbol.name) :
      Answers arena (.insert symbol) (.inserted true)
        { arena with scopes := arena.scopes.modify arena.currentIndex fun scope =>
            { scope with symbols := scope.symbols.insert symbol.name symbol } }
  | lookup {name : String} {symbol? : Option Symbol}
      (finds : arena.Finds name (some arena.currentIndex) symbol?) :
      Answers arena (.lookup name) (.found symbol?) arena
  | lookupLocal {scope : ArenaScope} (name : String)
      (live : arena.scopes[arena.currentIndex]? = some scope) :
      Answers arena (.lookupLocal name) (.found (scope.symbols.find? name)) arena

/-- The answers to requests made one after the other, and the arena behind them. -/
inductive Run : Arena → List ScopeRequest → List ScopeAnswer → Arena → Prop where
  | nil (arena : Arena) : Run arena [] [] arena
  | cons {arena next last : Arena} {request : ScopeRequest} {rest : List ScopeRequest}
      {answer : ScopeAnswer} {answers : List ScopeAnswer}
      (first : arena.Answers request answer next) (others : Run next rest answers last) :
      Run arena (request :: rest) (answer :: answers) last

/-! ## At most one answer -/

variable {arena : Arena}

theorem Finds.unique {name : String} {start : Option Nat} {symbol? symbol?' : Option Symbol}
    (h : arena.Finds name start symbol?) (h' : arena.Finds name start symbol?') :
    symbol? = symbol?' := by
  induction h with
  | nowhere =>
    cases h'
    rfl
  | here live declared =>
    cases h' with
    | here live' declared' =>
      obtain rfl := Option.some.inj (live.symm.trans live')
      exact declared.symm.trans declared'
    | outward live' undeclared' _ =>
      obtain rfl := Option.some.inj (live.symm.trans live')
      rw [undeclared'] at declared
      cases declared
  | outward live undeclared _ ih =>
    cases h' with
    | here live' declared' =>
      obtain rfl := Option.some.inj (live.symm.trans live')
      rw [undeclared] at declared'
      cases declared'
    | outward live' _ next' =>
      obtain rfl := Option.some.inj (live.symm.trans live')
      exact ih next'

theorem Answers.unique {request : ScopeRequest} {answer answer' : ScopeAnswer} {next next' : Arena}
    (h : arena.Answers request answer next) (h' : arena.Answers request answer' next') :
    answer = answer' ∧ next = next' := by
  -- The same scope is current for both, and it decides which of the rules applies.
  cases h with
  | enter name live =>
    cases h' with
    | enter _ live' =>
      obtain rfl := Option.some.inj (live.symm.trans live')
      exact ⟨rfl, rfl⟩
  | exit live =>
    cases h' with
    | exit live' =>
      obtain rfl := Option.some.inj (live.symm.trans live')
      exact ⟨rfl, rfl⟩
  | refuse live declared =>
    cases h' with
    | refuse => exact ⟨rfl, rfl⟩
    | insert live' undeclared' =>
      obtain rfl := Option.some.inj (live.symm.trans live')
      exact absurd declared undeclared'
  | insert live undeclared =>
    cases h' with
    | refuse live' declared' =>
      obtain rfl := Option.some.inj (live.symm.trans live')
      exact absurd declared' undeclared
    | insert => exact ⟨rfl, rfl⟩
  | lookup finds =>
    cases h' with
    | lookup finds' => exact ⟨congrArg ScopeAnswer.found (finds.unique finds'), rfl⟩
  | lookupLocal name live =>
    cases h' with
    | lookupLocal _ live' =>
      obtain rfl := Option.some.inj (live.symm.trans live')
      exact ⟨rfl, rfl⟩

theorem Run.unique {requests : List ScopeRequest} {answers answers' : List ScopeAnswer}
    {last last' : Arena} (h : arena.Run requests answers last)
    (h' : arena.Run requests answers' last') : answers = answers' ∧ last = last' := by
  induction h generalizing answers' with
  | nil =>
    cases h'
    exact ⟨rfl, rfl⟩
  | cons first _ ih =>
    cases h' with
    | cons first' others' =>
      obtain ⟨rfl, rfl⟩ := first.unique first'
      obtain ⟨rfl, rfl⟩ := ih others'
      exact ⟨rfl, rfl⟩

end Arena

/-! ## Arenas and trees -/

/-- A scope of an arena is one of a tree, with whole symbols. -/
structure ArenaScope.Keeps (kept : ArenaScope) (scope : Scope) : Prop where
  name : kept.name = scope.name
  level : kept.level = scope.level
  outer : kept.outer = scope.outer
  symbols : ∀ name, kept.symbols.find? name = scope.find? name

/-- The scopes of an arena are those of a tree. -/
structure Arena.Keeps (arena : Arena) (tree : ScopeTree) : Prop where
  current : arena.currentIndex = tree.currentIndex
  size : arena.scopes.size = tree.scopes.size
  scopes : ∀ i : Nat, Option.Rel ArenaScope.Keeps arena.scopes[i]? tree.scopes[i]?

/-- A whole symbol that is added is found as it is. -/
theorem Table.find?_add {whole : Table Symbol} {table : Table SymbolKind}
    (h : ∀ name, whole.find? name = table.symbol? name) (symbol : Symbol) (name : String) :
    (whole.insert symbol.name symbol).find? name =
      (table.insert symbol.name symbol.kind).symbol? name := by
  rw [find?_insert, symbol?_insert, h]

theorem ArenaScope.Keeps.add {kept : ArenaScope} {scope : Scope} (h : kept.Keeps scope)
    (symbol : Symbol) : ArenaScope.Keeps
      { kept with symbols := kept.symbols.insert symbol.name symbol }
      { scope with symbols := scope.symbols.insert symbol.name symbol.kind } where
  name := h.name
  level := h.level
  outer := h.outer
  symbols := Table.find?_add h.symbols symbol

/-- Every symbol is kept under its name. -/
theorem ArenaScope.Keeps.name_eq {kept : ArenaScope} {scope : Scope} (h : kept.Keeps scope)
    {name : String} {symbol : Symbol} (hfound : kept.symbols.find? name = some symbol) :
    symbol.name = name := by
  rw [h.symbols] at hfound
  obtain ⟨kind, _, rfl⟩ := Option.map_eq_some_iff.mp hfound
  rfl

namespace Arena

variable {arena : Arena} {tree : ScopeTree}

theorem keeps_initial : initial.Keeps .initial where
  current := rfl
  size := rfl
  scopes i := by
    have hadded := @List.foldl_rel _ _ _ builtins _ _ .empty .empty
      (fun (whole : Table Symbol) (table : Table SymbolKind) =>
        ∀ name, whole.find? name = table.symbol? name)
      (fun _ => rfl) fun symbol _ _ _ hsame => Table.find?_add hsame symbol
    rw [← builtinSymbols_eq] at hadded
    rw [initial, ScopeTree.initial, Array.getElem?_singleton, Array.getElem?_singleton]
    split
    · exact .some ⟨rfl, rfl, rfl, hadded⟩
    · exact .none

section Keeps

variable (h : arena.Keeps tree)

include h

theorem Keeps.exists_kept {i : Nat} {scope : Scope} (hscope : tree.scopes[i]? = some scope) :
    ∃ kept, arena.scopes[i]? = some kept ∧ kept.Keeps scope := by
  have hrel := h.scopes i
  rw [hscope] at hrel
  generalize hkept : arena.scopes[i]? = found at hrel
  cases hrel with
  | some hkeeps => exact ⟨_, rfl, hkeeps⟩

theorem Keeps.exists_scope {i : Nat} {kept : ArenaScope} (hkept : arena.scopes[i]? = some kept) :
    ∃ scope, tree.scopes[i]? = some scope ∧ kept.Keeps scope := by
  have hrel := h.scopes i
  rw [hkept] at hrel
  generalize hscope : tree.scopes[i]? = found at hrel
  cases hrel with
  | some hkeeps => exact ⟨_, rfl, hkeeps⟩

theorem Keeps.exists_current (hlive : tree.currentIndex < tree.scopes.size) :
    ∃ kept, arena.scopes[arena.currentIndex]? = some kept ∧ kept.Keeps tree.current := by
  rw [h.current]
  exact h.exists_kept (ScopeTree.current_of_lt hlive)

/-- A walk outward comes to an end at what the tree finds. -/
theorem Keeps.finds (hlinked : tree.Linked) (name : String) {i : Nat} (hi : i < tree.scopes.size) :
    arena.Finds name (some i) ((chain tree.link i).findSome?
      fun j => (tree.scopes[j]?).bind (·.find? name)) := by
  -- The position falls along the links, which is why the walk ends.
  induction i using Nat.strongRecOn with
  | ind i ih =>
    have hscope := Array.getElem?_eq_getElem hi
    obtain ⟨kept, hkept, hkeeps⟩ := h.exists_kept hscope
    rw [chain_eq hlinked.downward, List.findSome?_cons, hscope, Option.bind_some, ← hkeeps.symbols]
    cases hfound : kept.symbols.find? name with
    | some symbol => exact .here hkept hfound
    | none =>
      refine .outward hkept hfound ?_
      rw [ScopeTree.link_eq hscope, hkeeps.outer]
      cases houter : tree.scopes[i].outer with
      | none => exact .nowhere
      | some outer =>
        have hlt := hlinked.downward i outer ((ScopeTree.link_eq hscope).trans houter)
        exact ih outer hlt (Nat.lt_trans hlt hi)

theorem Keeps.finds_lookup (hlinked : tree.Linked)
    (hlive : tree.currentIndex < tree.scopes.size) (name : String) :
    arena.Finds name (some arena.currentIndex) (tree.lookup? name) := by
  rw [h.current]
  exact h.finds hlinked name hlive

theorem Keeps.exit (hlive : tree.currentIndex < tree.scopes.size) :
    ∃ next, arena.Answers .exit .done next ∧ next.Keeps tree.exit := by
  obtain ⟨kept, hkept, hkeeps⟩ := h.exists_current hlive
  refine ⟨_, .exit hkept, ?_⟩
  rw [hkeeps.outer, ScopeTree.exit]
  cases tree.current.outer with
  | none => exact h
  | some outer => exact ⟨rfl, h.size, h.scopes⟩

theorem Keeps.enter (hlive : tree.currentIndex < tree.scopes.size) (name : String) :
    ∃ next, arena.Answers (.enter name) .done next ∧ next.Keeps (tree.enter name) := by
  obtain ⟨kept, hkept, hkeeps⟩ := h.exists_current hlive
  refine ⟨_, .enter name hkept, h.size, ?_, fun i => ?_⟩
  · rw [ScopeTree.enter, Array.size_push, Array.size_push, h.size]
  · rw [ScopeTree.enter, Array.getElem?_push, Array.getElem?_push, h.size]
    split
    · exact .some ⟨rfl, congrArg (· + 1) hkeeps.level, congrArg some h.current, fun _ => rfl⟩
    · exact h.scopes i

theorem Keeps.insert (hlive : tree.currentIndex < tree.scopes.size) (symbol : Symbol) :
    ∃ next, arena.Answers (.insert symbol) (.inserted (tree.insert symbol).1) next ∧
      next.Keeps (tree.insert symbol).2 := by
  obtain ⟨kept, hkept, hkeeps⟩ := h.exists_current hlive
  have hcontains : kept.symbols.contains symbol.name =
      tree.current.symbols.contains symbol.name := by
    rw [Table.contains, hkeeps.symbols, Scope.find?, Option.isSome_map, Table.contains]
  rw [ScopeTree.insert, ← hcontains]
  by_cases hdeclared : kept.symbols.contains symbol.name
  · rw [if_pos hdeclared]
    exact ⟨arena, .refuse hkept hdeclared, h⟩
  · rw [if_neg hdeclared]
    refine ⟨_, .insert hkept hdeclared, h.current, ?_, fun i => ?_⟩
    · rw [ScopeTree.modifyCurrent, Array.size_modify, Array.size_modify, h.size]
    · rw [ScopeTree.modifyCurrent, Array.getElem?_modify, Array.getElem?_modify, h.current]
      have hrel := h.scopes i
      split
      · generalize arena.scopes[i]? = kept?, tree.scopes[i]? = scope? at hrel ⊢
        cases hrel with
        | none => exact .none
        | some hkeeps => exact .some (hkeeps.add symbol)
      · exact hrel

/-- An arena answers as the tree whose scopes it keeps. -/
theorem Keeps.answers (hlinked : tree.Linked) (hlive : tree.currentIndex < tree.scopes.size)
    (request : ScopeRequest) : ∃ next, arena.Answers request (tree.answer request).1 next ∧
      next.Keeps (tree.answer request).2 := by
  cases request with
  | enter name => exact h.enter hlive name
  | exit => exact h.exit hlive
  | insert symbol => exact h.insert hlive symbol
  | lookup name => exact ⟨arena, .lookup (h.finds_lookup hlinked hlive name), h⟩
  | lookupLocal name =>
    obtain ⟨kept, hkept, hkeeps⟩ := h.exists_current hlive
    have hanswer := Answers.lookupLocal name hkept
    rw [hkeeps.symbols] at hanswer
    exact ⟨arena, hanswer, h⟩

end Keeps

/-- Requests in a row are answered, as the tree answers them. -/
theorem Keeps.run (requests : List ScopeRequest) {arena : Arena} {tree : ScopeTree}
    (h : arena.Keeps tree) {stack : MapStack} (hstack : tree.Represents stack) :
    ∃ last, arena.Run requests (ScopeRequest.run ScopeTree.answer tree requests).1 last ∧
      last.Keeps (ScopeRequest.run ScopeTree.answer tree requests).2 := by
  induction requests generalizing arena tree stack with
  | nil => exact ⟨arena, .nil arena, h⟩
  | cons request rest ih =>
    obtain ⟨next, hfirst, hnext⟩ := h.answers hstack.linked hstack.lt_size request
    obtain ⟨last, hothers, hlast⟩ := ih hnext (hstack.answer request).2
    exact ⟨last, .cons hfirst hothers, hlast⟩

end Arena

/-- Scopes refine a stack of maps. Whatever is asked from the beginning on, a tree of scopes answers
as a stack of maps with the built-in names at the bottom, and its links stay in order. An arena that
takes its scopes on trust has exactly one row of answers, which are those. It ends with the scopes
of the tree, every symbol in it is kept under its name, and a walk outward from its current scope
comes to exactly one end, at what the tree finds. -/
theorem scopes_refine_maps (requests : List ScopeRequest) :
    let answers := (ScopeRequest.run ScopeTree.answer .initial requests).1
    let tree := (ScopeRequest.run ScopeTree.answer .initial requests).2
    answers = (ScopeRequest.run MapStack.answer .initial requests).1 ∧ tree.Linked ∧
      ∃ arena : Arena, arena.Keeps tree ∧
        (∀ answers' last, Arena.initial.Run requests answers' last ↔
          answers' = answers ∧ last = arena) ∧
        (∀ (i : Nat) kept, arena.scopes[i]? = some kept →
          ∀ name symbol, kept.symbols.find? name = some symbol → symbol.name = name) ∧
        ∀ name symbol?, arena.Finds name (some arena.currentIndex) symbol? ↔
          symbol? = tree.lookup? name := by
  intro answers tree
  obtain ⟨hanswers, hstack⟩ := ScopeTree.represents_initial.run requests
  obtain ⟨arena, hrun, hkeeps⟩ := Arena.keeps_initial.run requests ScopeTree.represents_initial
  refine ⟨hanswers, hstack.linked, arena, hkeeps, ?_, ?_, ?_⟩
  · intro answers' last
    constructor
    · intro hrun'
      exact hrun'.unique hrun
    · rintro ⟨rfl, rfl⟩
      exact hrun
  · intro i kept hkept name symbol hfound
    obtain ⟨scope, _, hscope⟩ := hkeeps.exists_scope hkept
    exact hscope.name_eq hfound
  · intro name symbol?
    have hfinds := hkeeps.finds_lookup hstack.linked hstack.lt_size name
    constructor
    · intro hfinds'
      exact hfinds'.unique hfinds
    · rintro rfl
      exact hfinds

/-- What a name is depends on the open scopes alone, and the outermost one stays open. -/
example : (ScopeRequest.run ScopeTree.answer .initial
    [.exit, .enter "global", .insert ⟨"x", .var .int⟩, .enter "while#1", .lookupLocal "x",
      .insert ⟨"x", .var .str⟩, .insert ⟨"x", .block⟩, .lookup "x", .exit, .lookup "x"]).1 =
    [.done, .done, .inserted true, .done, .found none, .inserted true, .inserted false,
      .found (some ⟨"x", .var .str⟩), .done, .found (some ⟨"x", .var .int⟩)] := by
  rfl

end ScopedScript
