import ScopedScript.Builtin
import ScopedScript.Chain
import ScopedScript.Table

/-!
# Static scopes

A scope holds the names declared in one piece of a program's text. All scopes of a program are
kept, in the order in which they were opened, and each links to the scope around it. The outermost
one holds what every program can use.
-/

namespace ScopedScript

/-- What a name stands for. -/
inductive SymbolKind where
  /-- A reserved word of the outermost scope. -/
  | builtinType
  | var (type : Ty)
  | function (returns : Option Ty) (arity : Arity)
  /-- The scope of a block, opened here. -/
  | block
  deriving DecidableEq

/-- A name and what it stands for. -/
structure Symbol where
  name : String
  kind : SymbolKind
  deriving DecidableEq

/-- The names declared in one piece of a program's text. -/
structure Scope where
  name : String
  level : Nat
  outer : Option Nat
  symbols : Table SymbolKind

/-- The symbol of a name in a scope. -/
def Scope.find? (scope : Scope) (name : String) : Option Symbol :=
  (scope.symbols.find? name).map (⟨name, ·⟩)

/-! ## What every program can use -/

/-- The reserved words of the outermost scope. -/
def builtinTypes : List String :=
  ["int", "float", "bool", "str", "void", "if", "elseif", "else", "while", "for"]

/-- What a built-in function's name stands for. -/
def builtinSymbol (b : Builtin) : Symbol := ⟨b.name, .function b.result b.arity⟩

/-- The functions of the outermost scope. -/
def builtinFunctions : List Symbol := Builtin.all.map builtinSymbol

/-- The names of the outermost scope. A function takes the place of a reserved word. -/
def builtinSymbols : Table SymbolKind :=
  let words := builtinTypes.foldl (fun table name => table.insert name .builtinType) .empty
  builtinFunctions.foldl (fun table symbol => table.insert symbol.name symbol.kind) words

/-- The outermost scope. -/
def Scope.root : Scope := ⟨"builtins", 0, none, builtinSymbols⟩

/-! ## Trees of scopes -/

/-- All scopes in the order in which they were opened, and which of them is the current one. -/
structure ScopeTree where
  /-- The scopes; the first is the outermost. -/
  scopes : Array Scope
  currentIndex : Nat

namespace ScopeTree

/-- The tree of the outermost scope alone. -/
def initial : ScopeTree := ⟨#[.root], 0⟩

/-- The current scope. -/
def current (tree : ScopeTree) : Scope :=
  (tree.scopes[tree.currentIndex]?).getD .root

/-- Opens a scope inside the current one. -/
def enter (tree : ScopeTree) (name : String) : ScopeTree :=
  { scopes := tree.scopes.push ⟨name, tree.current.level + 1, some tree.currentIndex, .empty⟩
    currentIndex := tree.scopes.size }

/-- Goes back to the scope around the current one. The outermost one is never left. -/
def exit (tree : ScopeTree) : ScopeTree :=
  match tree.current.outer with
  | some outer => { tree with currentIndex := outer }
  | none => tree

/-- Changes the current scope. -/
def modifyCurrent (tree : ScopeTree) (change : Scope → Scope) : ScopeTree :=
  { tree with scopes := tree.scopes.modify tree.currentIndex change }

/-- Declares a name in the current scope, unless it is declared there already; tells whether it
did. -/
def insert (tree : ScopeTree) (symbol : Symbol) : Bool × ScopeTree :=
  if tree.current.symbols.contains symbol.name then (false, tree)
  else
    (true, tree.modifyCurrent fun scope =>
      { scope with symbols := scope.symbols.insert symbol.name symbol.kind })

/-- The symbol of a name in the current scope. -/
def lookupLocal? (tree : ScopeTree) (name : String) : Option Symbol :=
  tree.current.find? name

/-- The position of the scope around a scope. -/
def link (tree : ScopeTree) (i : Nat) : Option Nat :=
  (tree.scopes[i]?).bind (·.outer)

/-- The positions of the current scope and those around it, innermost first. -/
def chain (tree : ScopeTree) : List Nat :=
  ScopedScript.chain tree.link tree.currentIndex

/-- The symbol of a name in the nearest scope that declares it. -/
def lookup? (tree : ScopeTree) (name : String) : Option Symbol :=
  tree.chain.findSome? fun i => (tree.scopes[i]?).bind (·.find? name)

end ScopeTree

end ScopedScript
