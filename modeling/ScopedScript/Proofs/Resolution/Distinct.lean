import Mathlib.Data.List.Nodup
import ScopedScript.Proofs.Resolution.Uses
import ScopedScript.Proofs.Scoping.Acceptance

/-!
# Variables are declared once

The checker refuses a name that its scope has declared already. So no two variables of one piece of
text have the same name: a layer and a name determine a declaration.
-/

namespace ScopedScript

/-! ## Names of variables -/

/-- Names differ, and a zone has declared none of them. -/
def Zone.lacks (zone : Zone) (names : List String) : Bool :=
  decide names.Nodup && names.all fun name => (zone.symbols.find? name).isNone

namespace Zone

theorem lacks_empty {zone : Zone} (h : zone.symbols = .empty) (names : List String) :
    zone.lacks names = decide names.Nodup := by
  simp [lacks, h]

theorem lacks_cons (zone : Zone) (name : String) (names : List String) (type : Ty) :
    zone.lacks (name :: names) =
      ((zone.symbols.find? name).isNone && (zone.declare name type).lacks names) := by
  have hdeclare : ∀ other, ((zone.declare name type).symbols.find? other).isNone =
      (decide (other ≠ name) && (zone.symbols.find? other).isNone) := by
    intro other
    rw [declare, Table.find?_insert]
    by_cases h : other = name <;> simp [h]
  rw [Bool.eq_iff_iff]
  simp only [lacks, hdeclare, List.nodup_cons, List.all_cons, Bool.and_eq_true, decide_eq_true_eq,
    List.all_eq_true]
  constructor
  · rintro ⟨⟨hname, hnodup⟩, hnone, hall⟩
    exact ⟨hnone, hnodup, fun other hother => ⟨fun heq => hname (heq ▸ hother), hall other hother⟩⟩
  · rintro ⟨hnone, hnodup, hall⟩
    exact ⟨⟨fun hname => (hall name hname).1 rfl, hnodup⟩, hnone, fun other hother =>
      (hall other hother).2⟩

/-- What a zone with one more name lacks, the zone lacks. -/
theorem lacks_of_insert {zone zone' : Zone} {name : String} {kind : SymbolKind}
    (hsymbols : zone'.symbols = zone.symbols.insert name kind) {names : List String}
    (h : zone'.lacks names) : zone.lacks names := by
  simp only [lacks, hsymbols, Table.find?_insert, Bool.and_eq_true, List.all_eq_true] at h ⊢
  refine ⟨h.1, fun other hother => ?_⟩
  have hnone := h.2 other hother
  split at hnone
  · cases hnone
  · exact hnone

theorem lacks_of_sublist {zone : Zone} {names names' : List String}
    (hsublist : names.Sublist names') (h : zone.lacks names') : zone.lacks names := by
  simp only [lacks, Bool.and_eq_true, decide_eq_true_eq, List.all_eq_true] at h ⊢
  exact ⟨hsublist.nodup h.1, fun name hname => h.2 name (hsublist.subset hname)⟩

theorem lacks_declareAll (zone : Zone) (type : Ty) (ds : List Declarator) (names : List String) :
    zone.lacks (ds.map (·.name) ++ names) =
      (zone.lacks (ds.map (·.name)) && (zone.declareAll type ds).lacks names) := by
  induction ds generalizing zone with
  | nil => rfl
  | cons d ds ih =>
    rw [List.map_cons, List.cons_append, lacks_cons _ _ _ type, lacks_cons _ _ _ type, ih,
      Bool.and_assoc]
    rfl

theorem lacks_declareParams (zone : Zone) (params : List Param) (names : List String) :
    zone.lacks (params.map (·.name) ++ names) =
      (zone.lacks (params.map (·.name)) && (zone.declareParams params).lacks names) := by
  induction params generalizing zone with
  | nil => rfl
  | cons p params ih =>
    rw [List.map_cons, List.cons_append, lacks_cons _ _ _ p.declared.type,
      lacks_cons _ _ _ p.declared.type, ih, Bool.and_assoc]
    rfl

end Zone

/-- The names of the variables declared by statements themselves. -/
def variableNames (body : List Statement) : List String := (variablesOf body).map (·.1)

theorem variableNames_cons (s : Statement) (body : List Statement) :
    variableNames (s :: body) = variableNames [s] ++ variableNames body := by
  rw [variableNames, variablesOf_cons, List.map_append]
  rfl

theorem variableNames_declaration (decl : VarDecl) :
    variableNames [.declaration decl] = decl.declarators.map (·.name) := by
  simp [variableNames, variablesOf]

/-- What is declared by a statement and behind it. -/
theorem Zone.lacks_after {zone : Zone} {s : Statement} {names : List String}
    (hs : zone.lacks (variableNames [s])) (hnames : (zone.after s).lacks names) :
    zone.lacks (variableNames [s] ++ names) := by
  cases s with
  | declaration decl =>
    rw [variableNames_declaration] at hs ⊢
    rw [Zone.lacks_declareAll zone decl.declared.type, hs]
    exact hnames
  | function decl => exact Zone.lacks_of_insert rfl hnames
  | _ => exact hnames

/-! ## Text that declares variables once -/

/-- The variables of a layer have names of their own. -/
def Layer.distinct (layer : Layer) : Bool := decide (layer.locals.map (·.1)).Nodup

mutual

/-- Every piece of text inside a statement declares each of its variables once. -/
def Statement.distinct : Statement → Bool
  | .conditional _ body otherwise _ =>
    ((Layer.start [] body).distinct && Statement.distinctList body) && otherwise.distinct
  | .whileLoop _ body _ => (Layer.start [] body).distinct && Statement.distinctList body
  | .forLoop loopVariable _ body _ =>
    (loopVariable.declarators.all fun d => (Layer.round d body).distinct) &&
      Statement.distinctList body
  | .function decl => decl.distinct
  | _ => true

/-- Every piece of text inside further branches does. -/
def Alternative.distinct : Alternative → Bool
  | .absent => true
  | .elseif _ body rest =>
    ((Layer.start [] body).distinct && Statement.distinctList body) && rest.distinct
  | .otherwise body => (Layer.start [] body).distinct && Statement.distinctList body

/-- Every piece of text inside a function does. -/
def FunctionDecl.distinct : FunctionDecl → Bool
  | ⟨_, _, params, body, _⟩ => (Layer.start params body).distinct && Statement.distinctList body

/-- Every piece of text inside statements does. -/
def Statement.distinctList : List Statement → Bool
  | [] => true
  | s :: rest => s.distinct && Statement.distinctList rest

end

/-- Every piece of a program's text declares each of its variables once. -/
def Program.distinct (p : Program) : Bool :=
  (Layer.start [] p).distinct && Statement.distinctList p

theorem Layer.distinct_start (params : List Param) (body : List Statement) :
    (Layer.start params body).distinct =
      (Zone.start body).lacks (params.map (·.name) ++ variableNames body) := by
  have hnames : (Layer.start params body).locals.map (·.1) =
      params.map (·.name) ++ variableNames body := by
    simp [Layer.start, Param.locals, variableNames, Function.comp_def]
  rw [Layer.distinct, hnames, Zone.lacks_empty rfl]

theorem Layer.distinct_round (d : Declarator) (body : List Statement) :
    (Layer.round d body).distinct = (Zone.round body).lacks (d.name :: variableNames body) := by
  rw [Zone.lacks_empty rfl]
  rfl

/-! ## What the checker accepts -/

namespace Check

section Rules

variable {env : Env} {zone zone' : Zone}

theorem Extends.imp {check : Check Unit} {holds holds' : Bool}
    (h : Extends check env zone zone' holds) (himp : holds → holds') :
    Extends check env zone zone' holds' := by
  intro before after hok hshows
  obtain ⟨hholds, hgrows, hshows'⟩ := h hok hshows
  exact ⟨himp hholds, hgrows, hshows'⟩

theorem Reads.extends_true {check : Check Unit} {holds : Env → Bool} (h : Reads check holds) :
    Extends check env zone zone true :=
  h.extends.imp fun _ => rfl

/-- A name that is declared is new to its zone. -/
theorem extends_declare_new {symbol : Symbol} (position : Position)
    (hzone : zone'.symbols = zone.symbols.insert symbol.name symbol.kind) :
    Extends (declare symbol position) env zone zone' (zone.symbols.find? symbol.name).isNone := by
  intro before after h hshows
  refine ⟨?_, (extends_declare position hzone h hshows).2⟩
  obtain ⟨scope, outer, hscope, hrecords, _⟩ := hshows
  obtain ⟨state, middle, hget, h⟩ := bind_eq_ok.mp h
  cases hget
  cases hcontains : scope.symbols.contains symbol.name with
  | true =>
    simp only [ScopeTree.insert, ScopeTree.current, hscope, Option.getD_some, hcontains] at h
    cases h
  | false =>
    have hnone : scope.symbols.find? symbol.name = none := Option.isSome_eq_false_iff.mp hcontains
      |> Option.isNone_iff_eq_none.mp
    obtain heq | heq := hrecords symbol.name
    · rw [← heq, hnone]
      rfl
    · rw [heq] at hnone
      cases hnone

end Rules

theorem declarators_distinct (env : Env) (type : Ty) (ds : List Declarator) (zone : Zone) :
    Extends (declarators type ds) env zone (zone.declareAll type ds)
      (zone.lacks (ds.map (·.name))) := by
  induction ds generalizing zone with
  | nil => exact reads_pure.extends
  | cons d ds ih =>
    have hvalue : Extends (optional d.initializer) env zone zone true :=
      (reads_optional d.initializer).extends_true
    have hdeclare : Extends (declare ⟨d.name, .var type⟩ d.token.position) env zone
        (zone.declare d.name type) (zone.symbols.find? d.name).isNone := extends_declare_new _ rfl
    rw [List.map_cons, Zone.lacks_cons _ _ _ type]
    exact hvalue.and_then (hdeclare.and_then (ih _))

theorem parameters_distinct (env : Env) (params : List Param) (zone : Zone) :
    Extends (parameters params) env zone (zone.declareParams params)
      (zone.lacks (params.map (·.name))) := by
  induction params generalizing zone with
  | nil => exact reads_pure.extends
  | cons p params ih =>
    have hvalue : Extends (optional p.fallback) env zone zone true :=
      (reads_optional p.fallback).extends_true
    have hdeclare : Extends (declare ⟨p.name, .var p.declared.type⟩ p.token.position) env zone
        (zone.declare p.name p.declared.type) (zone.symbols.find? p.name).isNone :=
      extends_declare_new _ rfl
    rw [List.map_cons, Zone.lacks_cons _ _ _ p.declared.type]
    exact hvalue.and_then (hdeclare.and_then (ih _))

/-- A statement that declares no variable. -/
theorem Extends.bare {check : Check Unit} {env : Env} {zone zone' : Zone} {s : Statement}
    (h : Extends check env zone zone' s.distinct) (hs : variableNames [s] = []) :
    Extends check env zone zone' (zone.lacks (variableNames [s]) && s.distinct) := by
  rw [hs]
  exact h

mutual

theorem statement_distinct (env : Env) (zone : Zone) : (s : Statement) →
    Extends (statement s) env zone (zone.after s)
      (zone.lacks (variableNames [s]) && s.distinct)
  | .empty => reads_pure.extends_true.bare rfl
  | .declaration decl => by
    rw [variableNames_declaration]
    refine (declarators_distinct env _ decl.declarators zone).imp ?_
    intro h
    rw [h]
    rfl
  | .assignment target _ value token => by
    have huse := (reads_expression value).and_then (reads_variableUse target token.position)
    exact huse.extends_true.bare rfl
  | .conditional condition body otherwise _ => by
    refine Extends.bare ?_ rfl
    rw [statement, Statement.distinct, Layer.distinct_start]
    have hbody := (statements_distinct (zone :: env) (.start body) body).inBlock rfl .kwIf
    exact (reads_expression condition).extends_true.and_then
      (hbody.and_then (alternative_distinct env zone otherwise))
  | .whileLoop condition body _ => by
    refine Extends.bare ?_ rfl
    rw [statement, Statement.distinct, Layer.distinct_start]
    have hbody := (statements_distinct (zone :: env) (.start body) body).inLoop rfl .kwWhile
    exact (reads_expression condition).extends_true.and_then hbody
  | .forLoop loopVariable iterable body _ => by
    refine Extends.bare ?_ rfl
    rw [statement, Statement.distinct]
    have hvariable := declarators_distinct (zone :: env) loopVariable.declared.type
      loopVariable.declarators (.round body)
    have hbody := (hvariable.and_then (statements_distinct (zone :: env) _ body)).inLoop rfl .kwFor
    refine ((reads_expression iterable).extends_true.and_then hbody).imp ?_
    intro h
    rw [Bool.true_and, ← Bool.and_assoc, ← Zone.lacks_declareAll, Bool.and_eq_true] at h
    refine Bool.and_eq_true_iff.mpr ⟨List.all_eq_true.mpr ?_, h.2⟩
    intro d hd
    rw [Layer.distinct_round]
    have hsublist : [d.name].Sublist (loopVariable.declarators.map (·.name)) :=
      List.singleton_sublist.mpr (List.mem_map_of_mem hd)
    exact Zone.lacks_of_sublist (hsublist.append_right _) h.1
  | .breakLoop token => (reads_jump .kwBreak token.position).extends_true.bare rfl
  | .continueLoop token => (reads_jump .kwContinue token.position).extends_true.bare rfl
  | .returnFrom value token => (reads_returnFrom value token.position).extends_true.bare rfl
  | .function decl => by
    refine Extends.bare ?_ rfl
    rw [statement, Statement.distinct]
    exact function_distinct env zone decl
  | .expression expr => (reads_expression expr).extends_true.bare rfl

theorem alternative_distinct (env : Env) (zone : Zone) : (otherwise : Alternative) →
    Extends (alternative otherwise) env zone zone otherwise.distinct
  | .absent => reads_pure.extends_true
  | .elseif condition body rest => by
    rw [alternative, Alternative.distinct, Layer.distinct_start]
    have hbody := (statements_distinct (zone :: env) (.start body) body).inBlock rfl .kwElseif
    exact (reads_expression condition).extends_true.and_then
      (hbody.and_then (alternative_distinct env zone rest))
  | .otherwise body => by
    rw [alternative, Alternative.distinct, Layer.distinct_start]
    exact (statements_distinct (zone :: env) (.start body) body).inBlock rfl .kwElse

theorem function_distinct (env : Env) (zone : Zone) : (decl : FunctionDecl) →
    Extends (function decl) env zone (zone.declareFunction decl) decl.distinct
  | ⟨returns, name, params, body, token⟩ => by
    have hinside := (parameters_distinct ((zone.declareFunction ⟨returns, name, params, body,
      token⟩).later :: env) params (.start body)).and_then (statements_distinct _ _ body)
    have hfunction := hinside.inFunction rfl ⟨returns, name, params, body, token⟩
    have hdeclare : Extends (declare ⟨name, .function returns.type
        (FunctionDecl.arity ⟨returns, name, params, body, token⟩)⟩ token.position) env zone
        (zone.declareFunction ⟨returns, name, params, body, token⟩).later true :=
      extends_declare _ rfl
    intro before after hok hshows
    rw [function] at hok
    cases hparam : requiredAfterDefault? params with
    | some param =>
      rw [hparam] at hok
      cases hok
    | none =>
      rw [hparam] at hok
      obtain ⟨hholds, hscopes⟩ := hdeclare.and_then hfunction hok hshows
      refine ⟨?_, hscopes⟩
      rw [Bool.true_and, ← Bool.and_assoc, ← Zone.lacks_declareParams] at hholds
      rw [FunctionDecl.distinct, Layer.distinct_start]
      exact hholds

theorem statements_distinct (env : Env) (zone : Zone) : (body : List Statement) →
    Extends (statements body) env zone (body.foldl Zone.after zone)
      (zone.lacks (variableNames body) && Statement.distinctList body)
  | [] => reads_pure.extends_true
  | s :: body => by
    refine ((statement_distinct env zone s).and_then
      (statements_distinct env (zone.after s) body)).imp ?_
    intro h
    simp only [Bool.and_eq_true] at h
    rw [variableNames_cons, Statement.distinctList, Zone.lacks_after h.1.1 h.2.1, h.1.2, h.2.2]
    rfl

end

/-- A program that is accepted declares variables once. -/
theorem program_distinct {p : Program} {after : Checker} (h : program p .initial = .ok () after) :
    p.distinct := by
  rw [Program.distinct, Layer.distinct_start]
  exact (statements_distinct [] (.start p) p).of_program h

end Check

/-! ## Layers around uses -/

/-- What was declared and what its frame binds are variables of its text, which have names of their
own. -/
structure Layer.Proper (layer : Layer) : Prop where
  once : layer.distinct
  declared : ∀ name type, layer.symbols.find? name = some (.var type) →
    ∃ token, (name, token) ∈ layer.locals
  within : layer.binds ⊆ layer.locals

namespace Layer.Proper

variable {layer : Layer}

/-- A layer and a name determine a declaration. -/
theorem unique (h : layer.Proper) {name : String} {token token' : Token}
    (htoken : (name, token) ∈ layer.locals) (htoken' : (name, token') ∈ layer.locals) :
    token = token' :=
  congrArg Prod.snd
    (List.inj_on_of_nodup_map (of_decide_eq_true h.once) htoken htoken' rfl)

theorem start {params : List Param} {body : List Statement}
    (h : (Layer.start params body).distinct) : (Layer.start params body).Proper :=
  ⟨h, nofun, List.nil_subset _⟩

theorem round {d : Declarator} {body : List Statement} (h : (Layer.round d body).distinct) :
    (Layer.round d body).Proper :=
  ⟨h, nofun, List.Subset.refl _⟩

theorem declare (h : layer.Proper) {name : String} {token : Token}
    (hmem : (name, token) ∈ layer.locals) (type : Ty) :
    (layer.declare name token type).Proper := by
  refine ⟨h.once, ?_, List.cons_subset.mpr ⟨hmem, h.within⟩⟩
  intro other type' hother
  simp only [Layer.declare_toZone, Zone.declare, Table.find?_insert] at hother
  split at hother
  next heq => exact ⟨token, heq ▸ hmem⟩
  next => exact h.declared other type' hother

theorem declareFunction (h : layer.Proper) (decl : FunctionDecl) :
    (layer.declareFunction decl).Proper := by
  refine ⟨h.once, ?_, h.within⟩
  intro other type hother
  simp only [Layer.declareFunction_toZone, Zone.declareFunction, Table.find?_insert] at hother
  split at hother
  · cases hother
  · exact h.declared other type hother

theorem later (h : layer.Proper) : layer.later.Proper := ⟨h.once, h.declared, List.Subset.refl _⟩

theorem declareAll (h : layer.Proper) {ds : List Declarator}
    (hds : ∀ d ∈ ds, (d.name, d.token) ∈ layer.locals) (type : Ty) :
    (layer.declareAll type ds).Proper := by
  induction ds generalizing layer with
  | nil => exact h
  | cons d ds ih =>
    rw [List.forall_mem_cons] at hds
    exact ih (h.declare hds.1 type) hds.2

theorem declareParams (h : layer.Proper) {params : List Param}
    (hparams : ∀ p ∈ params, (p.name, p.token) ∈ layer.locals) :
    (layer.declareParams params).Proper := by
  induction params generalizing layer with
  | nil => exact h
  | cons p params ih =>
    rw [List.forall_mem_cons] at hparams
    exact ih (h.declare hparams.1 _) hparams.2

theorem after (h : layer.Proper) {s : Statement} (hs : variablesOf [s] ⊆ layer.locals) :
    (layer.after s).Proper := by
  cases s with
  | declaration decl => exact h.declareAll (mem_of_declaration hs) _
  | function decl => exact h.declareFunction decl
  | _ => exact h

end Layer.Proper

/-- The layers around a place are proper. -/
def Place.Proper (place : Place) : Prop := ∀ layer ∈ place, layer.Proper

theorem Place.Proper.cons {place : Place} {layer : Layer} (hlayer : layer.Proper)
    (hplace : place.Proper) : Place.Proper (layer :: place) :=
  List.forall_mem_cons.mpr ⟨hlayer, hplace⟩

mutual

theorem Expr.place_of_mem_uses {place : Place} {use : Use} : (e : Expr) → use ∈ e.uses place →
    use.place = place
  | .literal _ _, h => nomatch h
  | .var _ _, h => by rw [List.mem_singleton.mp h]
  | .unary _ operand _, h => Expr.place_of_mem_uses operand h
  | .binary left _ right _, h =>
    (List.mem_append.mp h).elim (Expr.place_of_mem_uses left) (Expr.place_of_mem_uses right)
  | .call _ arguments _ _, h => Expr.place_of_mem_usesList arguments h
  | .index base position _, h =>
    (List.mem_append.mp h).elim (Expr.place_of_mem_uses base) (Expr.place_of_mem_uses position)
  | .slice base start stop _, h =>
    (List.mem_append.mp h).elim (Expr.place_of_mem_uses base) fun h =>
      (List.mem_append.mp h).elim (Expr.place_of_mem_uses start) (Expr.place_of_mem_uses stop)
  | .range start stop _, h =>
    (List.mem_append.mp h).elim (Expr.place_of_mem_uses start) (Expr.place_of_mem_uses stop)
  | .steppedRange start stop step _, h =>
    (List.mem_append.mp h).elim (Expr.place_of_mem_uses start) fun h =>
      (List.mem_append.mp h).elim (Expr.place_of_mem_uses stop) (Expr.place_of_mem_uses step)

theorem Expr.place_of_mem_usesList {place : Place} {use : Use} : (es : List Expr) →
    use ∈ Expr.usesList place es → use.place = place
  | [], h => nomatch h
  | e :: es, h =>
    (List.mem_append.mp h).elim (Expr.place_of_mem_uses e) (Expr.place_of_mem_usesList es)

end

/-- All uses are at proper places. -/
def ProperUses (uses : List Use) : Prop := ∀ use ∈ uses, use.place.Proper

namespace ProperUses

theorem nil : ProperUses [] := List.forall_mem_nil _

theorem append {first second : List Use} (h : ProperUses first) (h' : ProperUses second) :
    ProperUses (first ++ second) :=
  List.forall_mem_append.mpr ⟨h, h'⟩

theorem expression {place : Place} (h : place.Proper) (e : Expr) : ProperUses (e.uses place) := by
  intro use huse
  rw [Expr.place_of_mem_uses e huse]
  exact h

theorem optional {place : Place} (h : place.Proper) (value : Option Expr) :
    ProperUses (Expr.usesOption place value) := by
  cases value with
  | none => exact .nil
  | some e => exact .expression h e

variable {place : Place} (hplace : place.Proper)

include hplace

theorem declarators {layer : Layer} (hlayer : layer.Proper) {ds : List Declarator}
    (hds : ∀ d ∈ ds, (d.name, d.token) ∈ layer.locals) (type : Ty) :
    ProperUses (VarDecl.usesFrom place type layer ds) := by
  induction ds generalizing layer with
  | nil => exact .nil
  | cons d ds ih =>
    rw [List.forall_mem_cons] at hds
    exact (optional (.cons hlayer hplace) _).append (ih (hlayer.declare hds.1 type) hds.2)

theorem parameters {layer : Layer} (hlayer : layer.Proper) {params : List Param}
    (hparams : ∀ p ∈ params, (p.name, p.token) ∈ layer.locals) :
    ProperUses (Param.usesFrom place layer params) := by
  induction params generalizing layer with
  | nil => exact .nil
  | cons p params ih =>
    rw [List.forall_mem_cons] at hparams
    exact (optional (.cons hlayer hplace) _).append (ih (hlayer.declare hparams.1 _) hparams.2)

end ProperUses

mutual

theorem Statement.proper_uses {place : Place} (hplace : place.Proper) {layer : Layer}
    (hlayer : layer.Proper) : (s : Statement) → s.distinct → variablesOf [s] ⊆ layer.locals →
      ProperUses (s.uses place layer)
  | .empty, _, _ => .nil
  | .declaration _, _, hvariables => .declarators hplace hlayer (mem_of_declaration hvariables) _
  | .assignment _ _ value _, _, _ =>
    (ProperUses.expression (.cons hlayer hplace) value).append
      (List.forall_mem_singleton.mpr (.cons hlayer hplace))
  | .conditional condition body otherwise _, h, _ => by
    simp only [Statement.distinct, Bool.and_eq_true] at h
    have hinner : Place.Proper (layer :: place) := .cons hlayer hplace
    exact (ProperUses.expression hinner condition).append
      (.append (Statement.proper_usesList hinner (.start h.1.1) body h.1.2 (List.Subset.refl _))
        (Alternative.proper_uses hinner otherwise h.2))
  | .whileLoop condition body _, h, _ => by
    simp only [Statement.distinct, Bool.and_eq_true] at h
    have hinner : Place.Proper (layer :: place) := .cons hlayer hplace
    exact (ProperUses.expression hinner condition).append
      (Statement.proper_usesList hinner (.start h.1) body h.2 (List.Subset.refl _))
  | .forLoop ⟨_, declarators⟩ iterable body _, h, _ => by
    simp only [Statement.distinct, Bool.and_eq_true, List.all_eq_true] at h
    have hinner : Place.Proper (layer :: place) := .cons hlayer hplace
    refine (ProperUses.expression hinner iterable).append ?_
    match declarators, h.1 with
    | [], _ => exact .nil
    | d :: _, hd =>
      have hround : (Layer.round d body).Proper := .round (hd d List.mem_cons_self)
      exact Statement.proper_usesList hinner (hround.declare List.mem_cons_self _) body h.2
        (List.subset_cons_self _ _)
  | .breakLoop _, _, _ => .nil
  | .continueLoop _, _, _ => .nil
  | .returnFrom value _, _, _ => .optional (.cons hlayer hplace) value
  | .function decl, h, _ => by
    simp only [Statement.distinct] at h
    exact FunctionDecl.proper_uses (.cons (hlayer.declareFunction decl).later hplace) decl h
  | .expression expr, _, _ => .expression (.cons hlayer hplace) expr

theorem Alternative.proper_uses {place : Place} (hplace : place.Proper) :
    (otherwise : Alternative) → otherwise.distinct → ProperUses (otherwise.uses place)
  | .absent, _ => .nil
  | .elseif condition body rest, h => by
    simp only [Alternative.distinct, Bool.and_eq_true] at h
    exact (ProperUses.expression hplace condition).append
      (.append (Statement.proper_usesList hplace (.start h.1.1) body h.1.2 (List.Subset.refl _))
        (Alternative.proper_uses hplace rest h.2))
  | .otherwise body, h => by
    simp only [Alternative.distinct, Bool.and_eq_true] at h
    exact Statement.proper_usesList hplace (.start h.1) body h.2 (List.Subset.refl _)

theorem FunctionDecl.proper_uses {place : Place} (hplace : place.Proper) :
    (decl : FunctionDecl) → decl.distinct → ProperUses (decl.uses place)
  | ⟨_, _, params, body, _⟩, h => by
    simp only [FunctionDecl.distinct, Bool.and_eq_true] at h
    have hstart : (Layer.start params body).Proper := .start h.1
    refine (ProperUses.parameters hplace hstart Layer.mem_start).append
      (Statement.proper_usesList hplace (hstart.declareParams Layer.mem_start) body h.2 ?_)
    rw [Layer.declareParams_locals]
    exact List.subset_append_right _ _

theorem Statement.proper_usesList {place : Place} (hplace : place.Proper) {layer : Layer}
    (hlayer : layer.Proper) : (body : List Statement) → Statement.distinctList body →
      variablesOf body ⊆ layer.locals → ProperUses (Statement.usesList place layer body)
  | [], _, _ => .nil
  | s :: body, h, hvariables => by
    simp only [Statement.distinctList, Bool.and_eq_true] at h
    rw [variablesOf_cons, List.append_subset] at hvariables
    refine (Statement.proper_uses hplace hlayer s h.1 hvariables.1).append
      (Statement.proper_usesList hplace (hlayer.after hvariables.1) body h.2 ?_)
    rw [Layer.after_locals]
    exact hvariables.2

end

/-- The uses of a program that declares variables once are at proper places. -/
theorem Program.proper_uses {p : Program} (h : p.distinct) : ProperUses p.uses := by
  obtain ⟨hstart, hbody⟩ := Bool.and_eq_true_iff.mp h
  exact Statement.proper_usesList (List.forall_mem_nil _) (.start hstart) p hbody
    (List.Subset.refl _)

end ScopedScript
