import ScopedScript.Proofs.Scoping.Decision
import ScopedScript.Proofs.Scoping.Rules

/-!
# Checks that run one after the other

A checker can check one program after the other. It keeps all scopes that it has opened and goes on
counting blocks, but what comes of a program does not depend on either: behind every program,
accepted or not, the outermost scope is the current one again, and all that is left of earlier
programs are scopes that no later program looks into, and numbers of marks.

Whatever a check finds, it closes the scopes that it has opened and forgets the loops and the
function that it went into. This is one fact about one check. The other is about two: from two
states that stand at the same place, a check finds the same, though the scopes around may hold
different marks. Names of a program are no marks, so no look at a name tells the two states apart.

## Main definitions

* `Numbered` : marks and their numbers.
* `Checker.Orderly` : no two scopes share a mark.
* `Checker.Keeps` : what a check leaves as it was.
* `Check.Leads` : a relation between states that every step of a check keeps.
* `Check.Steady` : a check leaves things as they were, and finds the same from the same place.
* `Check.Surrounds` : a way into other surroundings and back.
* `Checker.session` : the state behind checks of programs, one after the other.

## Main statements

* `Check.steady_combines` : all rules are steady.
* `session_keeps_verdicts` : what comes of a program does not depend on the programs before.
-/

namespace ScopedScript

/-! ## Numbers of marks -/

theorem dropWhile_markName (word : Keyword) (number : Nat) :
    (markName word number).toList.dropWhile (· ≠ '#') = '#' :: number.repr.toList := by
  have hspelling : '#' ∉ word.spelling.toList := by
    cases word <;> decide
  have htext : (markName word number).toList =
      word.spelling.toList ++ ('#' :: number.repr.toList) := by
    simp only [markName, String.toList_append]
    rfl
  have hall : ∀ c ∈ word.spelling.toList, decide (c ≠ '#') :=
    fun c hc => decide_eq_true fun heq => hspelling (heq ▸ hc)
  rw [htext, List.dropWhile_append_of_pos hall]
  rfl

/-- A mark tells its number. -/
theorem number_eq_of_markName_eq {word word' : Keyword} {number number' : Nat}
    (h : markName word number = markName word' number') : number = number' := by
  have htail := dropWhile_markName word number
  rw [h, dropWhile_markName word' number'] at htail
  exact (Nat.repr_inj.mp (String.toList_inj.mp (List.cons.inj htail).2)).symm

/-- Names that stand at some positions are marks numbered up to a bound, and none stands at two
positions. -/
structure Numbered (bound : Nat) (holds : Nat → String → Prop) : Prop where
  mark : ∀ {i : Nat} {name : String}, holds i name →
    ∃ word number, number ≤ bound ∧ name = markName word number
  unique : ∀ {i j : Nat} {name : String}, holds i name → holds j name → i = j

section Numbered

variable {bound : Nat} {holds holds' : Nat → String → Prop}

theorem Numbered.mono (h : Numbered bound holds) (hless : ∀ i name, holds' i name → holds i name) :
    Numbered bound holds' :=
  ⟨fun hi => h.mark (hless _ _ hi), fun hi hj => h.unique (hless _ _ hi) (hless _ _ hj)⟩

theorem numbered_of_none (h : ∀ i name, ¬ holds i name) : Numbered bound holds :=
  ⟨fun hi => absurd hi (h _ _), fun hi => absurd hi (h _ _)⟩

/-- One more name can be the mark with the next number. -/
theorem Numbered.add (h : Numbered bound holds) {position : Nat} {word : Keyword}
    (hone : ∀ i name, holds' i name →
      holds i name ∨ i = position ∧ name = markName word (bound + 1)) :
    Numbered (bound + 1) holds' := by
  have hnew : ∀ {i}, ¬ holds i (markName word (bound + 1)) := by
    intro i hi
    obtain ⟨word', number, hle, heq⟩ := h.mark hi
    have hsame := number_eq_of_markName_eq heq
    omega
  constructor
  · intro i name hi
    obtain hold | ⟨_, rfl⟩ := hone i name hi
    · obtain ⟨word', number, hle, rfl⟩ := h.mark hold
      exact ⟨word', number, Nat.le_succ_of_le hle, rfl⟩
    · exact ⟨word, bound + 1, Nat.le_refl _, rfl⟩
  · intro i j name hi hj
    obtain hi | ⟨rfl, rfl⟩ := hone i name hi
    · obtain hj | ⟨rfl, rfl⟩ := hone j name hj
      · exact h.unique hi hj
      · exact absurd hi hnew
    · obtain hj | ⟨rfl, _⟩ := hone j _ hj
      · exact absurd hj hnew
      · rfl

end Numbered

/-! ## Marks in scopes -/

namespace ScopeTree

/-- A scope is named by a mark. -/
def Labels (tree : ScopeTree) (i : Nat) (name : String) : Prop :=
  IsMark name ∧ (tree.scopes[i]?).map (·.name) = some name

/-- A scope holds a mark. -/
def HoldsMark (tree : ScopeTree) (i : Nat) (name : String) : Prop :=
  (tree.scopes[i]?).bind (·.symbols.find? name) = some .block

variable {tree : ScopeTree} {i : Nat} {name : String}

theorem labels_of_insert {symbol : Symbol} (h : (tree.insert symbol).2.Labels i name) :
    tree.Labels i name := by
  unfold insert at h
  split at h
  · exact h
  · refine ⟨h.1, ?_⟩
    have hname := h.2
    simp only [modifyCurrent, Array.getElem?_modify] at hname
    split at hname
    · rwa [Option.map_map] at hname
    · exact hname

theorem holdsMark_of_insert {symbol : Symbol} (h : (tree.insert symbol).2.HoldsMark i name) :
    tree.HoldsMark i name ∨ i = tree.currentIndex ∧ name = symbol.name ∧ symbol.kind = .block := by
  unfold insert at h
  split at h
  · exact .inl h
  · unfold HoldsMark at h
    simp only [modifyCurrent, Array.getElem?_modify] at h
    split at h
    next hcurrent =>
      rw [Option.bind_map] at h
      obtain ⟨scope, hscope, hfound⟩ := Option.bind_eq_some_iff.mp h
      simp only [Function.comp_apply, Table.find?_insert] at hfound
      split at hfound
      next heq => exact .inr ⟨hcurrent.symm, heq, Option.some.inj hfound⟩
      next => exact .inl (Option.bind_eq_some_iff.mpr ⟨scope, hscope, hfound⟩)
    next => exact .inl h

theorem labels_of_enter {inner : String} (h : (tree.enter inner).Labels i name) :
    tree.Labels i name ∨ i = tree.scopes.size ∧ name = inner := by
  obtain ⟨hmark, hname⟩ := h
  simp only [enter, Array.getElem?_push] at hname
  split at hname
  next hsize => exact .inr ⟨hsize, (Option.some.inj hname).symm⟩
  next => exact .inl ⟨hmark, hname⟩

theorem holdsMark_of_enter {inner : String} (h : (tree.enter inner).HoldsMark i name) :
    tree.HoldsMark i name := by
  unfold HoldsMark at h
  simp only [enter, Array.getElem?_push] at h
  split at h
  · cases h
  · exact h

theorem scopes_exit (tree : ScopeTree) : tree.exit.scopes = tree.scopes := by
  unfold exit
  split <;> rfl

end ScopeTree

namespace Checker

/-- Scopes are named by marks numbered up to the count of blocks, no two by the same one, and no two
hold the same one. -/
structure Orderly (c : Checker) : Prop where
  labels : Numbered c.blocks c.scopes.Labels
  marks : Numbered c.blocks c.scopes.HoldsMark

variable {c : Checker}

theorem Orderly.marked (h : c.Orderly) : c.scopes.Marked := by
  intro i scope hscope name hname
  obtain ⟨word, number, _, rfl⟩ := h.marks.mark (Option.bind_eq_some_iff.mpr ⟨scope, hscope, hname⟩)
  exact isMark_markName word number

theorem Orderly.insert (h : c.Orderly) {symbol : Symbol} (hkind : symbol.kind ≠ .block) :
    ({ c with scopes := (c.scopes.insert symbol).2 } : Checker).Orderly where
  labels := h.labels.mono fun _ _ => ScopeTree.labels_of_insert
  marks := h.marks.mono fun _ _ hheld =>
    (ScopeTree.holdsMark_of_insert hheld).resolve_right fun hnew => hkind hnew.2.2

theorem Orderly.enter (h : c.Orderly) {name : String} (hname : ¬ IsMark name) :
    (Check.enterScope name c).Orderly where
  labels := h.labels.mono fun _ _ hlabel =>
    (ScopeTree.labels_of_enter hlabel).resolve_right fun hnew => hname (hnew.2 ▸ hlabel.1)
  marks := h.marks.mono fun _ _ => ScopeTree.holdsMark_of_enter

/-- A block is marked and then entered: both use the next number. -/
theorem Orderly.block (h : c.Orderly) (word : Keyword) :
    (Check.enterScope (Check.blockName word c) (Check.markBlock word c)).Orderly where
  labels := h.labels.add fun _ _ hlabel =>
    (ScopeTree.labels_of_enter hlabel).imp_left ScopeTree.labels_of_insert
  marks := h.marks.add fun _ _ hheld =>
    (ScopeTree.holdsMark_of_insert (ScopeTree.holdsMark_of_enter hheld)).imp_right
      fun hnew => ⟨hnew.1, hnew.2.1⟩

theorem Orderly.leave (h : c.Orderly) : (Check.leaveScope c).Orderly := by
  have hscopes : (Check.leaveScope c).scopes.scopes = c.scopes.scopes := c.scopes.scopes_exit
  refine ⟨h.labels.mono fun i name hlabel => ?_, h.marks.mono fun i name hheld => ?_⟩
  · rwa [ScopeTree.Labels, hscopes] at hlabel
  · rwa [ScopeTree.HoldsMark, hscopes] at hheld

/-! ## What a check leaves as it was -/

/-- Scopes around the current one, and the loops and the function around, are left as they were, and
no mark is used twice. -/
structure Keeps (c after : Checker) : Prop where
  scopes : c.scopes.Grows after.scopes
  loopDepth : after.loopDepth = c.loopDepth
  function : after.function = c.function
  orderly : after.Orderly

theorem Orderly.keeps (h : c.Orderly) : c.Keeps c := ⟨.refl _, rfl, rfl, h⟩

theorem Keeps.trans {after last : Checker} (h : c.Keeps after) (h' : after.Keeps last) :
    c.Keeps last where
  scopes := h.scopes.trans h'.scopes
  loopDepth := h'.loopDepth.trans h.loopDepth
  function := h'.function.trans h.function
  orderly := h'.orderly

/-- Two states stand at the same place: the same names are declared around it, and as many loops and
the same function are around. -/
structure Alongside (names : Names) (c c' : Checker) : Prop where
  records : c.scopes.Records names
  records' : c'.scopes.Records names
  loopDepth : c'.loopDepth = c.loopDepth
  function : c'.function = c.function

section Alongside

variable {c' : Checker} {names : Names}

/-- A name that is no mark stands for the same. -/
theorem Alongside.lookup?_eq (h : c.Alongside names c') {name : String} (hname : ¬ IsMark name) :
    c'.scopes.lookup? name = c.scopes.lookup? name := by
  rw [h.records.lookup?_of_not_isMark hname, h.records'.lookup?_of_not_isMark hname]

theorem Alongside.enter (h : c.Alongside names c') (name name' : String) :
    (Check.enterScope name c).Alongside (.empty :: names) (Check.enterScope name' c') :=
  ⟨h.records.enter name, h.records'.enter name', h.loopDepth, h.function⟩

theorem Alongside.mark {inner : Table SymbolKind} {outer : Names}
    (h : c.Alongside (inner :: outer) c') (word : Keyword) :
    (Check.markBlock word c).Alongside (inner :: outer) (Check.markBlock word c') where
  records := (h.records.mark (isMark_blockName word c)).2
  records' := (h.records'.mark (isMark_blockName word c')).2
  loopDepth := h.loopDepth
  function := h.function

/-- States that keep what is around two states at the same place are at the same place, wherever
both declare the same names. -/
theorem Alongside.kept {after after' : Checker} {names' : Names} (h : c.Alongside names c')
    (hkeeps : c.Keeps after) (hkeeps' : c'.Keeps after') (hrecords : after.scopes.Records names')
    (hrecords' : after'.scopes.Records names') : after.Alongside names' after' where
  records := hrecords
  records' := hrecords'
  loopDepth := by rw [hkeeps.loopDepth, hkeeps'.loopDepth, h.loopDepth]
  function := by rw [hkeeps.function, hkeeps'.function, h.function]

end Alongside

end Checker

namespace Check

/-! ## Ends of checks -/

/-- The state in which a check ends, whatever comes of it. -/
def final (x : Check Unit) (c : Checker) : Checker :=
  match x c with
  | .ok _ after => after
  | .error _ after => after

/-- The fault that a check finds, if there is one. -/
def fault? (x : Check Unit) (c : Checker) : Option (Diagnostic ScopeFault) :=
  match x c with
  | .ok _ _ => none
  | .error d _ => some d

section Ends

variable (x y : Check Unit) (c : Checker)

theorem fault?_and_then :
    fault? (do x; y) c = (fault? x c).or (fault? y (final x c)) := by
  unfold fault? final
  rw [bind_apply]
  cases x c <;> rfl

theorem final_and_then :
    final (do x; y) c = if (fault? x c).isSome then final x c else final y (final x c) := by
  unfold fault? final
  rw [bind_apply]
  cases x c <;> rfl

variable (enter : Checker → Checker) (leave : Checker → Checker → Checker)

theorem fault?_bracket : fault? (bracket enter leave x) c = fault? x (enter c) := by
  unfold fault? bracket
  cases x (enter c) <;> rfl

theorem final_bracket : final (bracket enter leave x) c = leave c (final x (enter c)) := by
  unfold final bracket
  cases x (enter c) <;> rfl

variable (symbol : Symbol) (position : Position)

theorem fault?_declare : fault? (declare symbol position) c =
    if (c.scopes.insert symbol).1 then none else some ⟨.redeclared symbol.name, position⟩ := by
  unfold fault?
  rw [declare_apply]
  cases (c.scopes.insert symbol).1 <;> rfl

/-- A name that is taken leaves the scopes as they are. -/
theorem final_declare :
    final (declare symbol position) c = { c with scopes := (c.scopes.insert symbol).2 } := by
  unfold final
  rw [declare_apply, ScopeTree.insert]
  cases c.scopes.current.symbols.contains symbol.name <;> rfl

end Ends

/-! ## What leads to the end of a check -/

/-- A relation between states that every step of a check keeps. -/
structure Leads (R : Checker → Checker → Prop) : Prop where
  refl : ∀ c, R c c
  trans : ∀ {c after last : Checker}, R c after → R after last → R c last
  declare : ∀ (c : Checker) (symbol : Symbol),
    R c { c with scopes := (c.scopes.insert symbol).2 }
  scope : ∀ {c after : Checker} (name : String), R (enterScope name c) after →
    R c (leaveScope after)
  mark : ∀ (c : Checker) (word : Keyword), R c (markBlock word c)
  loop : ∀ {c after : Checker}, R { c with loopDepth := c.loopDepth + 1 } after →
    R c { after with loopDepth := after.loopDepth - 1 }
  function : ∀ {c after : Checker} (decl : FunctionDecl),
    R { c with function := some ⟨decl.name, decl.returns.type.isNone⟩, loopDepth := 0 } after →
      R c { after with function := c.function, loopDepth := c.loopDepth }

section Leads

variable {R : Checker → Checker → Prop}

/-- A check that looks at the state first. -/
theorem leads_of_get {next : Checker → Check Unit} (hnext : ∀ c c', R c' (final (next c) c'))
    (c : Checker) : R c (final (get >>= next) c) :=
  hnext c c

variable (h : Leads R)

include h

theorem Leads.variableUse (name : String) (position : Position) (c : Checker) :
    R c (final (variableUse name position) c) := by
  refine leads_of_get (fun c c' => ?_) c
  split <;> exact h.refl c'

theorem Leads.callUse (name : String) (count : Nat) (position : Position) (c : Checker) :
    R c (final (callUse name count position) c) := by
  refine leads_of_get (fun c c' => ?_) c
  split
  · exact h.refl c'
  · split <;> exact h.refl c'
  · exact h.refl c'

theorem Leads.jump (word : Keyword) (position : Position) (c : Checker) :
    R c (final (jump word position) c) := by
  refine leads_of_get (fun c c' => ?_) c
  split <;> exact h.refl c'

theorem Leads.and_then {x y : Check Unit} (hx : ∀ c, R c (final x c)) (hy : ∀ c, R c (final y c))
    (c : Checker) : R c (final (do x; y) c) := by
  rw [final_and_then]
  split
  · exact hx c
  · exact h.trans (hx c) (hy _)

theorem Leads.inScope {x : Check Unit} (hx : ∀ c, R c (final x c)) (name : String) (c : Checker) :
    R c (final (inScope name x) c) := by
  rw [Check.inScope, final_bracket]
  exact h.scope name (hx _)

theorem Leads.inBlock {x : Check Unit} (hx : ∀ c, R c (final x c)) (word : Keyword) (c : Checker) :
    R c (final (inBlock word x) c) :=
  h.trans (h.mark c word) (h.inScope hx _ _)

/-- All rules keep such a relation, whatever the names are. -/
theorem Leads.combines :
    Combines .keep (fun _ => True) (fun x _ => ∀ c, R c (final x c)) where
  pure := h.refl
  fail _ _ := h.refl
  and_then := h.and_then
  variableUse _ position := h.variableUse _ position
  callUse _ count position := h.callUse _ count position
  declare symbol _ _ position c := by
    rw [final_declare]
    exact h.declare c symbol
  jump := h.jump
  inside hx c := hx c.function c
  inBlock word hx := h.inBlock hx word
  inLoop {x _} word hx := by
    refine h.inBlock (fun c => ?_) word
    rw [final_bracket]
    exact h.loop (hx _)
  inFunction decl _ hx c := by
    rw [Check.inFunction, final_bracket]
    exact h.function decl (h.inScope hx _ _)

theorem Leads.expression (e : Expr) (c : Checker) : R c (final (expression e) c) :=
  expression_along h.combines e (fun _ _ => trivial) c

theorem Leads.varDecl (decl : VarDecl) (c : Checker) : R c (final (varDecl decl) c) :=
  declarators_along h.combines _ decl.declarators (fun _ _ => trivial) c

theorem Leads.parameters (params : List Param) (c : Checker) :
    R c (final (parameters params) c) :=
  parameters_along h.combines params (fun _ _ => trivial) c

theorem Leads.statement (s : Statement) (c : Checker) : R c (final (statement s) c) :=
  statement_along h.combines s (fun _ _ => trivial) c

theorem Leads.statements (body : List Statement) (c : Checker) :
    R c (final (statements body) c) :=
  statements_along h.combines body (fun _ _ => trivial) c

end Leads

/-! ## Steady checks -/

/-- A check leaves things as they were, whatever comes of it. From two states that stand at the same
place it finds the same fault, or none and comes to the same place. -/
structure Steady (x : Check Unit) : Prop where
  keeps : ∀ {c : Checker}, c.Orderly → c.Keeps (final x c)
  fault?_eq : ∀ {c c' : Checker} {inner : Table SymbolKind} {outer : Names}, c.Orderly →
    c'.Orderly → c.Alongside (inner :: outer) c' → fault? x c' = fault? x c
  alongside : ∀ {c c' : Checker} {inner : Table SymbolKind} {outer : Names}, c.Orderly →
    c'.Orderly → c.Alongside (inner :: outer) c' → fault? x c = none →
      ∃ last, (final x c).Alongside (last :: outer) (final x c')

section Steady

variable {x y : Check Unit}

theorem steady_pure : Steady (pure ()) where
  keeps hc := hc.keeps
  fault?_eq _ _ _ := rfl
  alongside _ _ hat _ := ⟨_, hat⟩

theorem steady_fail (fault : ScopeFault) (position : Position) : Steady (fail fault position) where
  keeps hc := hc.keeps
  fault?_eq _ _ _ := rfl
  alongside _ _ hat _ := ⟨_, hat⟩

theorem Steady.and_then (h : Steady x) (h' : Steady y) : Steady (do x; y) where
  keeps {c} hc := by
    have hfirst := h.keeps hc
    rw [final_and_then]
    split
    · exact hfirst
    · exact hfirst.trans (h'.keeps hfirst.orderly)
  fault?_eq {c c' inner outer} hc hc' hat := by
    rw [fault?_and_then, fault?_and_then, h.fault?_eq hc hc' hat]
    cases hfault : fault? x c with
    | some d => rfl
    | none =>
      obtain ⟨middle, hmiddle⟩ := h.alongside hc hc' hat hfault
      exact h'.fault?_eq (h.keeps hc).orderly (h.keeps hc').orderly hmiddle
  alongside {c c' inner outer} hc hc' hat hnone := by
    rw [fault?_and_then, Option.or_eq_none_iff] at hnone
    have hnone' := (h.fault?_eq hc hc' hat).trans hnone.1
    obtain ⟨middle, hmiddle⟩ := h.alongside hc hc' hat hnone.1
    obtain ⟨last, hlast⟩ :=
      h'.alongside (h.keeps hc).orderly (h.keeps hc').orderly hmiddle hnone.2
    refine ⟨last, ?_⟩
    rw [final_and_then, final_and_then, hnone.1, hnone']
    exact hlast

/-- A check that looks at the state first, and sees the same from the same place. -/
theorem Steady.of_get {next : Checker → Check Unit} (hnext : ∀ c, Steady (next c))
    (hsame : ∀ {c c' : Checker} {names : Names}, c.Alongside names c' → next c' = next c) :
    Steady (get >>= next) where
  keeps {c} hc := (hnext c).keeps hc
  fault?_eq {c c' inner outer} hc hc' hat := by
    change fault? (next c') c' = fault? (next c) c
    rw [hsame hat]
    exact (hnext c).fault?_eq hc hc' hat
  alongside {c c' inner outer} hc hc' hat hnone := by
    obtain ⟨last, hlast⟩ := (hnext c).alongside hc hc' hat hnone
    refine ⟨last, ?_⟩
    change (final (next c) c).Alongside _ (final (next c') c')
    rw [hsame hat]
    exact hlast

theorem steady_variableUse {name : String} (hname : ¬ IsMark name) (position : Position) :
    Steady (variableUse name position) := by
  refine Steady.of_get (fun c => ?_) fun hat => ?_
  · split
    · exact steady_fail _ position
    · exact steady_pure
    · exact steady_fail _ position
  · rw [hat.lookup?_eq hname]

theorem steady_callUse {name : String} (hname : ¬ IsMark name) (count : Nat)
    (position : Position) : Steady (callUse name count position) := by
  refine Steady.of_get (fun c => ?_) fun hat => ?_
  · split
    · exact steady_fail _ position
    · split
      · exact steady_pure
      · exact steady_fail _ position
    · exact steady_fail _ position
  · rw [hat.lookup?_eq hname]

theorem steady_jump (word : Keyword) (position : Position) : Steady (jump word position) := by
  refine Steady.of_get (fun c => ?_) fun hat => ?_
  · split
    · exact steady_fail _ position
    · exact steady_pure
  · rw [hat.loopDepth]

theorem steady_declare {symbol : Symbol} (hname : ¬ IsMark symbol.name)
    (hkind : symbol.kind ≠ .block) (position : Position) : Steady (declare symbol position) where
  keeps hc := by
    rw [final_declare]
    exact ⟨ScopeTree.grows_insert symbol, rfl, rfl, hc.insert hkind⟩
  fault?_eq _ _ hat := by
    rw [fault?_declare, fault?_declare, hat.records.insert_fst hname,
      hat.records'.insert_fst hname]
  alongside {c c' inner outer} _ _ hat hnone := by
    have hfst := hat.records.insert_fst hname
    have hinserted : (c.scopes.insert symbol).1 = true := by
      rw [fault?_declare] at hnone
      split at hnone
      · assumption
      · cases hnone
    have hinserted' : (c'.scopes.insert symbol).1 = true := by
      rw [hat.records'.insert_fst hname, ← hfst, hinserted]
    rw [final_declare, final_declare]
    exact ⟨inner.insert symbol.name symbol.kind,
      (hat.records.insert hname hkind (Prod.ext hinserted rfl)).2,
      (hat.records'.insert hname hkind (Prod.ext hinserted' rfl)).2, hat.loopDepth, hat.function⟩

/-! ## Scopes and blocks -/

variable {c c' : Checker} {names : Names} {name name' : String}

/-- Behind a scope all scopes that were there are as they were, whatever comes of the check. -/
theorem Steady.restored_inScope (h : Steady x) (hc : (enterScope name c).Orderly) :
    c.scopes.Restored (final (inScope name x) c).scopes := by
  rw [inScope, final_bracket]
  exact ScopeTree.restored_exit (h.keeps hc).scopes

theorem Steady.keeps_inScope (h : Steady x) (hc : (enterScope name c).Orderly) :
    c.Keeps (final (inScope name x) c) := by
  have hkeeps := h.keeps hc
  have hrestored := h.restored_inScope hc
  rw [inScope, final_bracket] at hrestored ⊢
  exact ⟨hrestored.grows, hkeeps.loopDepth, hkeeps.function, hkeeps.orderly.leave⟩

theorem Steady.records_inScope (h : Steady x) (hc : (enterScope name c).Orderly)
    (hrecords : c.scopes.Records names) : (final (inScope name x) c).scopes.Records names := by
  have hkeeps := h.keeps hc
  rw [inScope, final_bracket]
  exact (hrecords.exit hkeeps.scopes hkeeps.orderly.marked).2

/-- Names of scopes tell no states apart. -/
theorem Steady.fault?_inScope (h : Steady x) (hc : (enterScope name c).Orderly)
    (hc' : (enterScope name' c').Orderly) (hat : c.Alongside names c') :
    fault? (inScope name' x) c' = fault? (inScope name x) c := by
  rw [inScope, fault?_bracket, inScope, fault?_bracket]
  exact h.fault?_eq hc hc' (hat.enter name name')

theorem Steady.alongside_inScope (h : Steady x) (hc : (enterScope name c).Orderly)
    (hc' : (enterScope name' c').Orderly) (hat : c.Alongside names c') :
    (final (inScope name x) c).Alongside names (final (inScope name' x) c') :=
  hat.kept (h.keeps_inScope hc) (h.keeps_inScope hc') (h.records_inScope hc hat.records)
    (h.records_inScope hc' hat.records')

theorem Steady.inScope (h : Steady x) (hname : ¬ IsMark name) : Steady (inScope name x) where
  keeps hc := h.keeps_inScope (hc.enter hname)
  fault?_eq hc hc' hat := h.fault?_inScope (hc.enter hname) (hc'.enter hname) hat
  alongside hc hc' hat _ := ⟨_, h.alongside_inScope (hc.enter hname) (hc'.enter hname) hat⟩

/-- The mark of a block is the only name that the scope around gets. -/
theorem Steady.inBlock (h : Steady x) (word : Keyword) : Steady (inBlock word x) where
  keeps {c} hc := by
    have hscope := h.keeps_inScope (hc.block word)
    have hgrows : c.scopes.Grows (markBlock word c).scopes := ScopeTree.grows_insert _
    exact ⟨hgrows.trans hscope.scopes, hscope.loopDepth, hscope.function, hscope.orderly⟩
  fault?_eq hc hc' hat := h.fault?_inScope (hc.block word) (hc'.block word) (hat.mark word)
  alongside hc hc' hat _ :=
    ⟨_, h.alongside_inScope (hc.block word) (hc'.block word) (hat.mark word)⟩

end Steady

/-! ## Surroundings -/

/-- A way in that changes the loops and the function around, and a way out that takes them back. -/
structure Surrounds (enter : Checker → Checker) (leave : Checker → Checker → Checker) : Prop where
  /-- What is around inside is told by what is around outside. -/
  enter_eq : ∃ (depth : Nat → Nat) (around : Option Enclosing → Option Enclosing), ∀ c : Checker,
    enter c = { c with loopDepth := depth c.loopDepth, function := around c.function }
  /-- What was around is around again behind a check that keeps what is around inside. -/
  leave_eq : ∀ {c after : Checker}, (enter c).Keeps after →
    leave c after = { after with loopDepth := c.loopDepth, function := c.function }

section Surrounds

variable {x : Check Unit} {enter : Checker → Checker} {leave : Checker → Checker → Checker}
  {c c' : Checker} {names : Names}

theorem Surrounds.orderly (h : Surrounds enter leave) (hc : c.Orderly) : (enter c).Orderly := by
  obtain ⟨depth, around, henter⟩ := h.enter_eq
  rw [henter]
  exact ⟨hc.labels, hc.marks⟩

theorem Surrounds.alongside (h : Surrounds enter leave) (hat : c.Alongside names c') :
    (enter c).Alongside names (enter c') := by
  obtain ⟨depth, around, henter⟩ := h.enter_eq
  rw [henter, henter]
  exact ⟨hat.records, hat.records', congrArg depth hat.loopDepth, congrArg around hat.function⟩

theorem Surrounds.keeps (h : Surrounds enter leave) {after : Checker}
    (hkeeps : (enter c).Keeps after) : c.Keeps (leave c after) := by
  obtain ⟨depth, around, henter⟩ := h.enter_eq
  have hscopes : (enter c).scopes = c.scopes := by rw [henter]
  rw [h.leave_eq hkeeps]
  exact ⟨hscopes ▸ hkeeps.scopes, rfl, rfl, hkeeps.orderly.labels, hkeeps.orderly.marks⟩

/-- Behind what is around inside, states that stand at the same place do so again. -/
theorem Surrounds.alongside_leave (h : Surrounds enter leave) {after after' : Checker}
    {names' : Names} (hat : c.Alongside names c') (hkeeps : (enter c).Keeps after)
    (hkeeps' : (enter c').Keeps after') (hafter : after.Alongside names' after') :
    (leave c after).Alongside names' (leave c' after') := by
  have hout := h.keeps hkeeps
  have hout' := h.keeps hkeeps'
  rw [h.leave_eq hkeeps] at hout ⊢
  rw [h.leave_eq hkeeps'] at hout' ⊢
  exact hat.kept hout hout' hafter.records hafter.records'

theorem Steady.bracket (hx : Steady x) (h : Surrounds enter leave) :
    Steady (bracket enter leave x) where
  keeps hc := by
    rw [final_bracket]
    exact h.keeps (hx.keeps (h.orderly hc))
  fault?_eq hc hc' hat := by
    rw [fault?_bracket, fault?_bracket]
    exact hx.fault?_eq (h.orderly hc) (h.orderly hc') (h.alongside hat)
  alongside hc hc' hat hnone := by
    have hin := h.orderly hc
    have hin' := h.orderly hc'
    rw [fault?_bracket] at hnone
    obtain ⟨last, hlast⟩ := hx.alongside hin hin' (h.alongside hat) hnone
    rw [final_bracket, final_bracket]
    exact ⟨last, h.alongside_leave hat (hx.keeps hin) (hx.keeps hin') hlast⟩

/-- Behind the body its own loops have been taken back, so that taking back this one leaves the loops
around it. -/
theorem Steady.inLoop (h : Steady x) (word : Keyword) : Steady (inLoop word x) := by
  refine (h.bracket ⟨⟨(· + 1), id, fun _ => rfl⟩, fun {c after} hkeeps => ?_⟩).inBlock word
  have hfunction : after.function = c.function := hkeeps.function
  have hdepth : after.loopDepth - 1 = c.loopDepth := Nat.sub_eq_of_eq_add hkeeps.loopDepth
  rw [hfunction, hdepth]

theorem Steady.inFunction (h : Steady x) (decl : FunctionDecl) (hname : ¬ IsMark decl.name) :
    Steady (inFunction decl x) :=
  (h.inScope hname).bracket ⟨⟨fun _ => 0, fun _ => some ⟨decl.name, decl.returns.type.isNone⟩,
    fun _ => rfl⟩, fun _ => rfl⟩

end Surrounds

/-! ## All rules -/

/-- All rules are steady. -/
theorem steady_combines :
    Combines .keep (fun name => ¬ IsMark name) (fun x y => y = x ∧ Steady x) where
  pure := ⟨rfl, steady_pure⟩
  fail fault position := ⟨rfl, steady_fail fault position⟩
  and_then h h' := ⟨by rw [h.1, h'.1], h.2.and_then h'.2⟩
  variableUse hname position := ⟨rfl, steady_variableUse hname position⟩
  callUse hname count position := ⟨rfl, steady_callUse hname count position⟩
  declare _ hname hkind position := ⟨rfl, steady_declare hname hkind position⟩
  jump word position := ⟨rfl, steady_jump word position⟩
  inside {x y} h := by
    obtain rfl : y = x := funext fun around => (h around).1
    refine ⟨rfl, Steady.of_get (fun c => (h c.function).2) fun hat => ?_⟩
    rw [hat.function]
  inBlock word h := ⟨by rw [h.1], h.2.inBlock word⟩
  inLoop word h := ⟨by rw [h.1], h.2.inLoop word⟩
  inFunction decl hname h := ⟨by rw [h.1, decl.relabel_keep], h.2.inFunction decl hname⟩

theorem steady_statements {body : List Statement}
    (hnames : ∀ name ∈ Statement.namesList body, ¬ IsMark name) : Steady (statements body) :=
  (statements_along steady_combines body hnames).2

theorem not_isMark_global : ¬ IsMark "global" := by
  unfold IsMark
  decide

theorem steady_program {p : Program} (hnames : ∀ name ∈ Statement.namesList p, ¬ IsMark name) :
    Steady (program p) :=
  (steady_statements hnames).inScope not_isMark_global

end Check

/-! ## Programs one after the other -/

namespace Checker

/-- The state behind the check of a program, whatever comes of it. -/
def next (c : Checker) (p : Program) : Checker := Check.final (Check.program p) c

/-- The state behind checks of programs, one after the other. -/
def session (programs : List Program) : Checker := programs.foldl next .initial

/-- The outermost scope is the current one, and no loop and no function is around. -/
structure Idle (c : Checker) : Prop where
  current : c.scopes.currentIndex = 0
  root : c.scopes.scopes[0]? = some .root
  loopDepth : c.loopDepth = 0
  function : c.function = none
  orderly : c.Orderly

theorem idle_initial : Idle .initial := by
  refine ⟨rfl, rfl, rfl, rfl, numbered_of_none fun i name h => ?_,
    numbered_of_none fun i name h => ?_⟩
  · obtain ⟨scope, hscope, hname⟩ := Option.map_eq_some_iff.mp h.2
    rw [ScopeTree.eq_root_of_initial hscope] at hname
    obtain ⟨hmark, -⟩ := h
    rw [← hname] at hmark
    exact absurd hmark (by unfold IsMark; decide)
  · obtain ⟨scope, hscope, hfound⟩ := Option.bind_eq_some_iff.mp h
    rw [ScopeTree.eq_root_of_initial hscope] at hfound
    exact absurd rfl (builtinSymbols_not_isMark hfound).2

variable {c : Checker} {p : Program}

theorem Idle.records (h : c.Idle) : c.scopes.Records [] := by
  refine ⟨?_, h.orderly.marked, nofun⟩
  rw [h.current]
  exact h.root

section Next

variable (h : c.Idle) (hnames : ∀ name ∈ Statement.namesList p, ¬ IsMark name)

include h hnames

/-- Behind a program all scopes are as they were, whatever comes of it. -/
theorem Idle.restored : c.scopes.Restored (c.next p).scopes :=
  (Check.steady_statements hnames).restored_inScope (h.orderly.enter Check.not_isMark_global)

theorem Idle.keeps_next : c.Keeps (c.next p) := (Check.steady_program hnames).keeps h.orderly

theorem Idle.next : (c.next p).Idle := by
  have hrestored := h.restored hnames
  have hkeeps := h.keeps_next hnames
  have hfirst : 0 < c.scopes.scopes.size := (Array.getElem?_eq_some_iff.mp h.root).1
  exact ⟨hrestored.current.trans h.current, (hrestored.scopes 0 hfirst).trans h.root,
    hkeeps.loopDepth.trans h.loopDepth, hkeeps.function.trans h.function, hkeeps.orderly⟩

/-- What comes of a program is what comes of it at first. -/
theorem Idle.fault?_eq :
    Check.fault? (Check.program p) c = Check.fault? (Check.program p) .initial :=
  (Check.steady_statements hnames).fault?_inScope
    (idle_initial.orderly.enter Check.not_isMark_global)
    (h.orderly.enter Check.not_isMark_global)
    ⟨idle_initial.records, h.records, h.loopDepth, h.function⟩

end Next

theorem idle_session {programs : List Program}
    (hnames : ∀ p ∈ programs, ∀ name ∈ Statement.namesList p, ¬ IsMark name) :
    (session programs).Idle := by
  refine List.foldlRecOn programs next idle_initial fun c hidle p hp => ?_
  exact hidle.next (hnames p hp)

end Checker

/-- Names of a program that is read are no marks. -/
theorem not_isMark_of_read {p : Program} (hread : ∃ source, read source = .ok p) :
    ∀ name ∈ Statement.namesList p, ¬ IsMark name := by
  obtain ⟨source, hread⟩ := hread
  obtain ⟨ts, htokenize, hparse⟩ := read_eq_ok.mp hread
  exact fun name hname =>
    (isWord_of_parse hparse (worded_of_tokenize htokenize) name hname).not_isMark

/-- Behind any programs, accepted or not, the check of a program finds what it finds at first.
Whatever that is, the outermost scope is the current one behind it, as many loops and the same
function are around as before, and all scopes that were there are as they were. No two of all the
scopes that were ever opened are named by the same mark, and no two hold the same one. -/
theorem session_keeps_verdicts {earlier : List Program} {p : Program}
    (hearlier : ∀ q ∈ earlier, ∃ source, read source = .ok q)
    (hread : ∃ source, read source = .ok p) :
    let before := Checker.session earlier
    let after := before.next p
    Check.fault? (Check.program p) before = Check.fault? (Check.program p) .initial ∧
      after.scopes.currentIndex = 0 ∧ after.scopes.scopes[0]? = some .root ∧
      before.scopes.Restored after.scopes ∧
      after.loopDepth = before.loopDepth ∧ after.function = before.function ∧
      (∀ i j name, after.scopes.Labels i name → after.scopes.Labels j name → i = j) ∧
      ∀ i j name, after.scopes.HoldsMark i name → after.scopes.HoldsMark j name → i = j := by
  intro before after
  have hnames := not_isMark_of_read hread
  have hbefore : before.Idle := Checker.idle_session fun q hq => not_isMark_of_read (hearlier q hq)
  have hkeeps := hbefore.keeps_next hnames
  have hafter := hbefore.next hnames
  exact ⟨hbefore.fault?_eq hnames, hafter.current, hafter.root, hbefore.restored hnames,
    hkeeps.loopDepth, hkeeps.function, fun _ _ _ => hafter.orderly.labels.unique,
    fun _ _ _ => hafter.orderly.marks.unique⟩

/-- A variable of a program that is rejected in the middle of a loop stays unknown to the next. -/
theorem session_keeps_verdicts_rejected : ∃ q p,
    read "var(int) x; func(void) f() { while true { x = y; } }" = .ok q ∧
    read "while true { break; } print(x);" = .ok p ∧
    Check.fault? (Check.program q) .initial = some ⟨.undeclared "y", ⟨1, 47⟩⟩ ∧
    Check.fault? (Check.program p) (Checker.session [q]) = some ⟨.undeclared "x", ⟨1, 29⟩⟩ ∧
    ((Checker.session [q]).next p).scopes.currentIndex = 0 := by
  obtain ⟨ts, q, htokenize, hparse, hfault⟩ := exists_read
    "var(int) x; func(void) f() { while true { x = y; } }" rfl
    (fun q => Check.fault? (Check.program q) .initial = some ⟨.undeclared "y", ⟨1, 47⟩⟩)
    (by decide +kernel)
  obtain ⟨ts', p, htokenize', hparse', hfault'⟩ := exists_read "while true { break; } print(x);"
    rfl (fun p => Check.fault? (Check.program p) .initial = some ⟨.undeclared "x", ⟨1, 29⟩⟩)
    (by decide +kernel)
  have hq := read_eq_ok.mpr ⟨ts, htokenize, hparse⟩
  have hp := read_eq_ok.mpr ⟨ts', htokenize', hparse'⟩
  obtain ⟨hsame, hcurrent, -⟩ :=
    session_keeps_verdicts (List.forall_mem_singleton.mpr ⟨_, hq⟩) ⟨_, hp⟩
  exact ⟨q, p, hq, hp, of_decide_eq_true hfault, hsame.trans (of_decide_eq_true hfault'), hcurrent⟩

end ScopedScript
