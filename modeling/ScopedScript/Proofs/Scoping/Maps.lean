import Mathlib.Data.Finmap
import ScopedScript.Scope

/-!
# Scopes as a stack of maps

Scopes are never removed. They are kept side by side and linked outward by position, and the scopes
that are open are those on the chain of links from the current one. To whoever asks, the tree of
scopes is a stack of maps: a scope that is opened is an empty map on top, one that is closed is taken
off, and a name is looked up from the top to the bottom, where the built-in names are.
-/

namespace ScopedScript

/-! ## Requests -/

/-- What can be asked of scopes. -/
inductive ScopeRequest where
  | enter (name : String)
  | exit
  | insert (symbol : Symbol)
  | lookup (name : String)
  | lookupLocal (name : String)

/-- What is answered. -/
inductive ScopeAnswer where
  | done
  | inserted (accepted : Bool)
  | found (symbol? : Option Symbol)

/-- The answers to requests that are made one after the other, and what is there behind them. -/
def ScopeRequest.run {σ : Type} (answer : σ → ScopeRequest → ScopeAnswer × σ) :
    σ → List ScopeRequest → List ScopeAnswer × σ
  | s, [] => ([], s)
  | s, request :: rest =>
    let first := answer s request
    let others := run answer first.2 rest
    (first.1 :: others.1, others.2)

/-- The answer of a tree of scopes. -/
def ScopeTree.answer (tree : ScopeTree) : ScopeRequest → ScopeAnswer × ScopeTree
  | .enter name => (.done, tree.enter name)
  | .exit => (.done, tree.exit)
  | .insert symbol => (.inserted (tree.insert symbol).1, (tree.insert symbol).2)
  | .lookup name => (.found (tree.lookup? name), tree)
  | .lookupLocal name => (.found (tree.lookupLocal? name), tree)

/-! ## Stacks of maps -/

/-- Symbols under names. -/
abbrev SymbolMap := Finmap fun _ : String => Symbol

/-- The map with a symbol under its name. -/
def SymbolMap.add (map : SymbolMap) (symbol : Symbol) : SymbolMap := map.insert symbol.name symbol

/-- The symbols that every program can use. -/
def builtins : List Symbol :=
  builtinTypes.map (fun name => ⟨name, .builtinType⟩) ++ builtinFunctions

/-- Maps on top of each other, at least one. -/
structure MapStack where
  top : SymbolMap
  /-- The maps around it, from the inside to the outside. -/
  below : List SymbolMap

namespace MapStack

/-- The map of what every program can use alone. A function takes the place of a reserved word. -/
def initial : MapStack := ⟨builtins.foldl .add ∅, []⟩

/-- All maps, from the inside to the outside. -/
def maps (stack : MapStack) : List SymbolMap := stack.top :: stack.below

/-- An empty map on top. -/
def enter (stack : MapStack) : MapStack := ⟨∅, stack.maps⟩

/-- The stack without the top map, which stays if it is the only one. -/
def exit : MapStack → MapStack
  | ⟨top, []⟩ => ⟨top, []⟩
  | ⟨_, outer :: below⟩ => ⟨outer, below⟩

/-- A symbol is added to the top map, unless that has its name already. -/
def insert (stack : MapStack) (symbol : Symbol) : Bool × MapStack :=
  if symbol.name ∈ stack.top then (false, stack)
  else (true, { stack with top := stack.top.add symbol })

/-- The symbol of a name in the innermost map that has it. -/
def lookup? (stack : MapStack) (name : String) : Option Symbol :=
  stack.maps.findSome? (·.lookup name)

/-- The symbol of a name in the top map. -/
def lookupLocal? (stack : MapStack) (name : String) : Option Symbol := stack.top.lookup name

/-- The answer of a stack of maps. -/
def answer (stack : MapStack) : ScopeRequest → ScopeAnswer × MapStack
  | .enter _ => (.done, stack.enter)
  | .exit => (.done, stack.exit)
  | .insert symbol => (.inserted (stack.insert symbol).1, (stack.insert symbol).2)
  | .lookup name => (.found (stack.lookup? name), stack)
  | .lookupLocal name => (.found (stack.lookupLocal? name), stack)

end MapStack

/-! ## Symbols in tables -/

/-- The symbol of a name in a table of what names stand for. -/
def Table.symbol? (table : Table SymbolKind) (name : String) : Option Symbol :=
  (table.find? name).map (⟨name, ·⟩)

/-- What is found under names is what a map holds. -/
def SymbolMap.Tells (map : SymbolMap) (find? : String → Option Symbol) : Prop :=
  ∀ name, find? name = map.lookup name

theorem Table.symbol?_insert (table : Table SymbolKind) (symbol : Symbol) (name : String) :
    (table.insert symbol.name symbol.kind).symbol? name =
      if name = symbol.name then some symbol else table.symbol? name := by
  rw [symbol?, find?_insert]
  split
  next heq => rw [heq, Option.map_some]
  next => rfl

namespace SymbolMap

variable {map : SymbolMap}

theorem lookup_add (symbol : Symbol) (name : String) :
    (map.add symbol).lookup name = if name = symbol.name then some symbol else map.lookup name := by
  split
  next heq => rw [heq, add, Finmap.lookup_insert]
  next hne => rw [add, Finmap.lookup_insert_of_ne _ hne]

theorem tells_empty : (∅ : SymbolMap).Tells Table.empty.symbol? := fun _ => rfl

theorem Tells.add {table : Table SymbolKind} (h : map.Tells table.symbol?) (symbol : Symbol) :
    (map.add symbol).Tells (table.insert symbol.name symbol.kind).symbol? := by
  intro name
  rw [Table.symbol?_insert, lookup_add, h]

theorem Tells.contains {table : Table SymbolKind} (h : map.Tells table.symbol?) (name : String) :
    table.contains name = true ↔ name ∈ map := by
  rw [← Finmap.lookup_isSome, ← h, Table.symbol?, Option.isSome_map, Table.contains]

end SymbolMap

theorem builtinSymbols_eq : builtinSymbols =
    builtins.foldl (fun table symbol => table.insert symbol.name symbol.kind) .empty := by
  rw [builtins, List.foldl_append, List.foldl_map]
  rfl

/-- The bottom map holds what the outermost scope holds. -/
theorem MapStack.tells_root : initial.top.Tells Scope.root.find? := by
  have hadded := @List.foldl_rel _ _ _ builtins _ _ _ _
    (fun (table : Table SymbolKind) (map : SymbolMap) => map.Tells table.symbol?)
    SymbolMap.tells_empty fun symbol _ _ _ hsame => hsame.add symbol
  rw [← builtinSymbols_eq] at hadded
  exact hadded

/-! ## Links -/

/-- A scope at a position links to one below and lies one level deeper; the outermost one links to
none. -/
def Scope.LinkedAt (scope : Scope) (tree : ScopeTree) (i : Nat) : Prop :=
  match scope.outer with
  | none => i = 0 ∧ scope.level = 0
  | some outer => outer < i ∧
      ∃ around, tree.scopes[outer]? = some around ∧ scope.level = around.level + 1

namespace ScopeTree

/-- Every scope links to one below it, one level up. -/
def Linked (tree : ScopeTree) : Prop :=
  ∀ (i : Nat) (scope : Scope), tree.scopes[i]? = some scope → scope.LinkedAt tree i

variable {tree after : ScopeTree}

theorem current_eq {scope : Scope} (h : tree.scopes[tree.currentIndex]? = some scope) :
    tree.current = scope := by
  rw [current, h, Option.getD_some]

theorem current_of_lt (h : tree.currentIndex < tree.scopes.size) :
    tree.scopes[tree.currentIndex]? = some tree.current := by
  rw [current, Array.getElem?_eq_getElem h, Option.getD_some]

/-- The scopes that were there stay. -/
theorem getElem?_enter {i : Nat} {scope : Scope} (h : tree.scopes[i]? = some scope)
    (name : String) : (tree.enter name).scopes[i]? = some scope := by
  have hlt := (Array.getElem?_eq_some_iff.mp h).1
  rw [enter, Array.getElem?_push, if_neg (Nat.ne_of_lt hlt), h]

theorem linked_initial : initial.Linked := by
  intro i scope hscope
  rw [initial, Array.getElem?_singleton] at hscope
  split at hscope
  next hi =>
    obtain rfl := Option.some.inj hscope
    exact ⟨hi, rfl⟩
  next => cases hscope

section Linked

variable (h : tree.Linked)

include h

theorem Linked.downward : Downward tree.link := by
  intro i outer hlink
  obtain ⟨scope, hscope, houter⟩ := Option.bind_eq_some_iff.mp hlink
  have hlinked := h i scope hscope
  unfold Scope.LinkedAt at hlinked
  rw [houter] at hlinked
  exact hlinked.1

/-- Scopes that keep their links and levels stay linked when others come that are. -/
theorem Linked.of_kept
    (hkept : ∀ (i : Nat) (before : Scope), tree.scopes[i]? = some before →
      ∃ scope, after.scopes[i]? = some scope ∧ scope.level = before.level)
    (hfrom : ∀ (i : Nat) (scope : Scope), after.scopes[i]? = some scope →
      scope.LinkedAt after i ∨ ∃ before, tree.scopes[i]? = some before ∧
        scope.outer = before.outer ∧ scope.level = before.level) : after.Linked := by
  intro i scope hscope
  obtain hlinked | ⟨before, hbefore, houter, hlevel⟩ := hfrom i scope hscope
  · exact hlinked
  · have hlinked := h i before hbefore
    unfold Scope.LinkedAt at hlinked ⊢
    rw [houter, hlevel]
    cases hlink : before.outer with
    | none =>
      rw [hlink] at hlinked
      exact hlinked
    | some outer =>
      rw [hlink] at hlinked
      obtain ⟨hlt, around, haround, hdeeper⟩ := hlinked
      obtain ⟨around', haround', hsame⟩ := hkept outer around haround
      exact ⟨hlt, around', haround', by rw [hdeeper, hsame]⟩

theorem Linked.enter (hlive : tree.currentIndex < tree.scopes.size) (name : String) :
    (tree.enter name).Linked := by
  refine h.of_kept (fun i before hbefore => ⟨before, getElem?_enter hbefore name, rfl⟩) ?_
  intro i scope hscope
  rw [ScopeTree.enter, Array.getElem?_push] at hscope
  split at hscope
  next hi =>
    obtain rfl := Option.some.inj hscope
    rw [hi]
    exact .inl ⟨hlive, tree.current, getElem?_enter (current_of_lt hlive) name, rfl⟩
  next => exact .inr ⟨scope, hscope, rfl, rfl⟩

theorem Linked.insert (symbol : Symbol) : (tree.insert symbol).2.Linked := by
  unfold ScopeTree.insert
  split
  · exact h
  · refine h.of_kept ?_ ?_
    · intro i before hbefore
      simp only [modifyCurrent, Array.getElem?_modify, hbefore]
      split
      · exact ⟨_, rfl, rfl⟩
      · exact ⟨_, rfl, rfl⟩
    · intro i scope hscope
      simp only [modifyCurrent, Array.getElem?_modify] at hscope
      split at hscope
      · obtain ⟨before, hbefore, rfl⟩ := Option.map_eq_some_iff.mp hscope
        exact .inr ⟨before, hbefore, rfl, rfl⟩
      · exact .inr ⟨scope, hscope, rfl, rfl⟩

theorem Linked.exit : tree.exit.Linked := by
  unfold ScopeTree.exit
  split <;> exact h

end Linked

/-! ## Open scopes as maps -/

/-- Scopes from a position outward hold maps. -/
inductive Hold (scopes : Array Scope) : Option Nat → List SymbolMap → Prop where
  | nil : Hold scopes none []
  | cons {i : Nat} {scope : Scope} {map : SymbolMap} {maps : List SymbolMap}
      (live : scopes[i]? = some scope) (tells : map.Tells scope.find?)
      (outside : Hold scopes scope.outer maps) : Hold scopes (some i) (map :: maps)

theorem link_eq {i : Nat} {scope : Scope} (h : tree.scopes[i]? = some scope) :
    tree.link i = scope.outer := by
  rw [link, h, Option.bind_some]

section Hold

variable {start : Option Nat} {maps : List SymbolMap} (h : Hold tree.scopes start maps)
  (hlinked : tree.Linked)

include h hlinked

/-- Scopes below a position that are left alone hold the same maps. -/
theorem Hold.congr (bound : Nat) (hstart : ∀ i, start = some i → i < bound)
    (hsame : ∀ i < bound, after.scopes[i]? = tree.scopes[i]?) : Hold after.scopes start maps := by
  induction h with
  | nil => exact .nil
  | @cons i scope map maps live tells _ ih =>
    have hi := hstart i rfl
    -- Links point downward, so the scopes further out lie below the bound as well.
    refine .cons ((hsame i hi).trans live) tells (ih fun outer houter => ?_)
    exact Nat.lt_trans (hlinked.downward i outer ((link_eq live).trans houter)) hi

/-- What is found from a scope outward is in the innermost map that has it. -/
theorem Hold.findSome? (name : String) :
    (start.elim [] (ScopedScript.chain tree.link)).findSome?
      (fun i => (tree.scopes[i]?).bind (·.find? name)) = maps.findSome? (·.lookup name) := by
  induction h with
  | nil => rfl
  | @cons i scope _ _ live tells _ ih =>
    rw [Option.elim_some, chain_eq hlinked.downward, link_eq live]
    simp only [List.findSome?_cons, live, Option.bind_some, tells name, ← ih]
    cases scope.outer <;> rfl

end Hold

/-- A tree stands for the maps that its open scopes hold. -/
structure Represents (tree : ScopeTree) (stack : MapStack) : Prop where
  linked : tree.Linked
  hold : Hold tree.scopes (some tree.currentIndex) stack.maps

theorem represents_initial : initial.Represents .initial :=
  ⟨linked_initial, .cons rfl MapStack.tells_root .nil⟩

namespace Represents

variable {stack : MapStack} (h : tree.Represents stack)

include h

theorem current : tree.scopes[tree.currentIndex]? = some tree.current ∧
    stack.top.Tells tree.current.find? ∧ Hold tree.scopes tree.current.outer stack.below := by
  cases h.hold with
  | cons live tells outside =>
    rw [current_eq live]
    exact ⟨live, tells, outside⟩

theorem lt_size : tree.currentIndex < tree.scopes.size :=
  (Array.getElem?_eq_some_iff.mp h.current.1).1

theorem enter (name : String) : (tree.enter name).Represents stack.enter := by
  have houtside : Hold (tree.enter name).scopes (some tree.currentIndex) stack.maps := by
    refine h.hold.congr h.linked tree.scopes.size ?_ ?_
    · rintro i ⟨⟩
      exact h.lt_size
    · intro i hi
      rw [ScopeTree.enter, Array.getElem?_push, if_neg (Nat.ne_of_lt hi)]
  exact ⟨h.linked.enter h.lt_size name,
    .cons Array.getElem?_push_size SymbolMap.tells_empty houtside⟩

theorem exit : tree.exit.Represents stack.exit := by
  -- Whether there is a map below the top one is whether the current scope links to another.
  obtain ⟨top, below⟩ := stack
  have houtside := h.current.2.2
  refine ⟨h.linked.exit, ?_⟩
  unfold ScopeTree.exit
  generalize tree.current.outer = outer at houtside
  cases houtside with
  | nil => exact h.hold
  | cons live tells outside => exact .cons live tells outside

theorem insert (symbol : Symbol) :
    (tree.insert symbol).1 = (stack.insert symbol).1 ∧
      (tree.insert symbol).2.Represents (stack.insert symbol).2 := by
  obtain ⟨hlive, htells, houtside⟩ := h.current
  have hcontains := htells.contains symbol.name
  have hlinked := h.linked.insert symbol
  unfold ScopeTree.insert at hlinked ⊢
  unfold MapStack.insert
  by_cases hname : symbol.name ∈ stack.top
  · rw [if_pos (hcontains.mpr hname), if_pos hname]
    exact ⟨rfl, h⟩
  · rw [if_neg (mt hcontains.mp hname)] at hlinked ⊢
    rw [if_neg hname]
    have hadded : (stack.top.add symbol).Tells (Scope.find? { tree.current with
        symbols := tree.current.symbols.insert symbol.name symbol.kind }) := htells.add symbol
    refine ⟨rfl, hlinked, .cons ?_ hadded ?_⟩
    · rw [modifyCurrent, Array.getElem?_modify, if_pos rfl, hlive, Option.map_some]
    · refine houtside.congr h.linked tree.currentIndex ?_ ?_
      · intro outer houter
        exact h.linked.downward _ outer ((link_eq hlive).trans houter)
      · intro i hi
        rw [modifyCurrent, Array.getElem?_modify, if_neg (Nat.ne_of_gt hi)]

/-- A tree answers as the stack of maps that it stands for. -/
theorem answer (request : ScopeRequest) :
    (tree.answer request).1 = (stack.answer request).1 ∧
      (tree.answer request).2.Represents (stack.answer request).2 := by
  cases request with
  | enter name => exact ⟨rfl, h.enter name⟩
  | exit => exact ⟨rfl, h.exit⟩
  | insert symbol =>
    obtain ⟨hanswer, hafter⟩ := h.insert symbol
    exact ⟨congrArg ScopeAnswer.inserted hanswer, hafter⟩
  | lookup name =>
    have hfound := h.hold.findSome? h.linked name
    exact ⟨congrArg ScopeAnswer.found hfound, h⟩
  | lookupLocal name => exact ⟨congrArg ScopeAnswer.found (h.current.2.1 name), h⟩

end Represents

/-- So it does for requests in a row. -/
theorem Represents.run (requests : List ScopeRequest) {tree : ScopeTree} {stack : MapStack}
    (h : tree.Represents stack) :
    (ScopeRequest.run ScopeTree.answer tree requests).1 =
        (ScopeRequest.run MapStack.answer stack requests).1 ∧
      (ScopeRequest.run ScopeTree.answer tree requests).2.Represents
        (ScopeRequest.run MapStack.answer stack requests).2 := by
  induction requests generalizing tree stack with
  | nil => exact ⟨rfl, h⟩
  | cons request rest ih =>
    obtain ⟨hfirst, hnext⟩ := h.answer request
    obtain ⟨hothers, hlast⟩ := ih hnext
    exact ⟨congrArg₂ List.cons hfirst hothers, hlast⟩

end ScopeTree

end ScopedScript
