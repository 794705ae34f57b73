import ScopedScript.Proofs.Run.Congruence
import ScopedScript.Proofs.Scoping.Environment

/-!
# Where variables are used

A layer is a zone together with variables: those that its text declares, and those that its frame
can bind at that moment. A place in a program is the list of the layers around it, innermost first.
A use is a variable that is read or assigned, with its token and its place.

The two views of a layer differ as they do for functions. A use *stands for* what was declared
before it, but the frame can bind more: all variables of the text once it has come past their
declarations, which can be so inside a function, and from the second round of a `for` loop on.
-/

namespace ScopedScript

/-! ## Layers -/

/-- The variables declared by statements themselves, not by blocks inside them. -/
def variablesOf (body : List Statement) : List (String × Token) :=
  body.flatMap fun
    | .declaration decl => decl.declarators.map fun d => (d.name, d.token)
    | _ => []

theorem variablesOf_cons (s : Statement) (body : List Statement) :
    variablesOf (s :: body) = variablesOf [s] ++ variablesOf body := by
  simp only [variablesOf, List.flatMap_cons, List.flatMap_nil, List.append_nil]

theorem mem_of_declaration {decl : VarDecl} {locals : List (String × Token)}
    (h : variablesOf [.declaration decl] ⊆ locals) :
    ∀ d ∈ decl.declarators, (d.name, d.token) ∈ locals := by
  intro d hd
  refine h ?_
  simp only [variablesOf, List.flatMap_cons, List.flatMap_nil, List.append_nil]
  exact List.mem_map_of_mem hd

/-- The variables that parameters declare. -/
def Param.locals (params : List Param) : List (String × Token) :=
  params.map fun p => (p.name, p.token)

/-- One piece of a program's text at a moment of its execution, with its variables. -/
structure Layer extends Zone where
  /-- The variables that its frame can bind. -/
  binds : List (String × Token)
  /-- The variables that its text declares. -/
  locals : List (String × Token)

namespace Layer

/-- A piece of text whose frame is new. Its text can begin with parameters. -/
def start (params : List Param) (body : List Statement) : Layer :=
  ⟨.start body, [], Param.locals params ++ variablesOf body⟩

theorem mem_start {params : List Param} {body : List Statement} :
    ∀ p ∈ params, (p.name, p.token) ∈ (start params body).locals :=
  fun _ hp => List.mem_append_left _ (List.mem_map_of_mem hp)

/-- The body of a `for` loop, before its variable is bound: earlier rounds have left variables. -/
def round (loopVar : Declarator) (body : List Statement) : Layer :=
  ⟨.round body, (loopVar.name, loopVar.token) :: variablesOf body,
    (loopVar.name, loopVar.token) :: variablesOf body⟩

/-- The layer with a variable declared. -/
def declare (layer : Layer) (name : String) (token : Token) (type : Ty) : Layer :=
  { layer with toZone := layer.toZone.declare name type, binds := (name, token) :: layer.binds }

/-- The layer with a function declared. -/
def declareFunction (layer : Layer) (decl : FunctionDecl) : Layer :=
  { layer with toZone := layer.toZone.declareFunction decl }

/-- The layer at any later moment. -/
def later (layer : Layer) : Layer :=
  { layer with toZone := layer.toZone.later, binds := layer.locals }

/-- The layer with variables of one type declared. -/
def declareAll (layer : Layer) (type : Ty) : List Declarator → Layer
  | [] => layer
  | d :: rest => (layer.declare d.name d.token type).declareAll type rest

/-- The layer with parameters declared. -/
def declareParams (layer : Layer) : List Param → Layer
  | [] => layer
  | p :: rest => (layer.declare p.name p.token p.declared.type).declareParams rest

/-- The layer behind a statement. -/
def after (layer : Layer) : Statement → Layer
  | .declaration decl => layer.declareAll decl.declared.type decl.declarators
  | .function decl => layer.declareFunction decl
  | _ => layer

@[simp] theorem declare_toZone (layer : Layer) (name : String) (token : Token) (type : Ty) :
    (layer.declare name token type).toZone = layer.toZone.declare name type := rfl

@[simp] theorem declareFunction_toZone (layer : Layer) (decl : FunctionDecl) :
    (layer.declareFunction decl).toZone = layer.toZone.declareFunction decl := rfl

@[simp] theorem declareAll_toZone (layer : Layer) (type : Ty) (ds : List Declarator) :
    (layer.declareAll type ds).toZone = layer.toZone.declareAll type ds := by
  induction ds generalizing layer with
  | nil => rfl
  | cons d ds ih => exact ih _

@[simp] theorem declareAll_locals (layer : Layer) (type : Ty) (ds : List Declarator) :
    (layer.declareAll type ds).locals = layer.locals := by
  induction ds generalizing layer with
  | nil => rfl
  | cons d ds ih => exact ih _

@[simp] theorem declareParams_toZone (layer : Layer) (params : List Param) :
    (layer.declareParams params).toZone = layer.toZone.declareParams params := by
  induction params generalizing layer with
  | nil => rfl
  | cons p params ih => exact ih _

@[simp] theorem declareParams_locals (layer : Layer) (params : List Param) :
    (layer.declareParams params).locals = layer.locals := by
  induction params generalizing layer with
  | nil => rfl
  | cons p params ih => exact ih _

@[simp] theorem after_toZone (layer : Layer) (s : Statement) :
    (layer.after s).toZone = layer.toZone.after s := by
  cases s with
  | declaration decl => exact layer.declareAll_toZone _ _
  | _ => rfl

@[simp] theorem after_locals (layer : Layer) (s : Statement) :
    (layer.after s).locals = layer.locals := by
  cases s with
  | declaration decl => exact layer.declareAll_locals _ _
  | _ => rfl

end Layer

/-- The layers around a place, innermost first. -/
abbrev Place := List Layer

/-- The zones around a place. -/
def Place.env (place : Place) : Env := place.map Layer.toZone

@[simp] theorem Place.env_cons (layer : Layer) (place : Place) :
    Place.env (layer :: place) = layer.toZone :: place.env := rfl

/-! ## Uses -/

/-- A variable that is read or assigned. -/
structure Use where
  name : String
  token : Token
  place : Place

mutual

/-- The variables that are read in an expression. -/
def Expr.uses (place : Place) : Expr → List Use
  | .literal _ _ => []
  | .var name token => [⟨name, token, place⟩]
  | .unary _ operand _ => operand.uses place
  | .binary left _ right _ => left.uses place ++ right.uses place
  | .call _ arguments _ _ => Expr.usesList place arguments
  | .index base position _ => base.uses place ++ position.uses place
  | .slice base start stop _ => base.uses place ++ (start.uses place ++ stop.uses place)
  | .range start stop _ => start.uses place ++ stop.uses place
  | .steppedRange start stop step _ => start.uses place ++ (stop.uses place ++ step.uses place)

/-- The variables that are read in expressions. -/
def Expr.usesList (place : Place) : List Expr → List Use
  | [] => []
  | e :: rest => e.uses place ++ Expr.usesList place rest

end

/-- The variables that are read in an expression that can be missing. -/
def Expr.usesOption (place : Place) : Option Expr → List Use
  | none => []
  | some e => e.uses place

/-- The variables that are read in a declaration; a variable is declared behind its first value. -/
def VarDecl.usesFrom (place : Place) (type : Ty) : Layer → List Declarator → List Use
  | _, [] => []
  | layer, d :: rest =>
    Expr.usesOption (layer :: place) d.initializer ++
      VarDecl.usesFrom place type (layer.declare d.name d.token type) rest

/-- The variables that are read in parameters; a parameter is declared behind its default. -/
def Param.usesFrom (place : Place) : Layer → List Param → List Use
  | _, [] => []
  | layer, p :: rest =>
    Expr.usesOption (layer :: place) p.fallback ++
      Param.usesFrom place (layer.declare p.name p.token p.declared.type) rest

mutual

/-- The variables that are used in a statement of a layer. A `for` loop binds the first variable
that it declares. -/
def Statement.uses (place : Place) (layer : Layer) : Statement → List Use
  | .empty => []
  | .declaration decl => VarDecl.usesFrom place decl.declared.type layer decl.declarators
  | .assignment target _ value token =>
    value.uses (layer :: place) ++ [⟨target, token, layer :: place⟩]
  | .conditional condition body otherwise _ =>
    condition.uses (layer :: place) ++
      (Statement.usesList (layer :: place) (.start [] body) body ++
        otherwise.uses (layer :: place))
  | .whileLoop condition body _ =>
    condition.uses (layer :: place) ++
      Statement.usesList (layer :: place) (.start [] body) body
  | .forLoop loopVariable iterable body _ =>
    iterable.uses (layer :: place) ++
      match loopVariable.declarators with
      | [] => []
      | d :: _ => Statement.usesList (layer :: place)
        ((Layer.round d body).declare d.name d.token loopVariable.declared.type) body
  | .breakLoop _ => []
  | .continueLoop _ => []
  | .returnFrom value _ => Expr.usesOption (layer :: place) value
  | .function decl => decl.uses ((layer.declareFunction decl).later :: place)
  | .expression expr => expr.uses (layer :: place)

/-- The variables that are used in further branches. -/
def Alternative.uses (place : Place) : Alternative → List Use
  | .absent => []
  | .elseif condition body rest =>
    condition.uses place ++ (Statement.usesList place (.start [] body) body ++ rest.uses place)
  | .otherwise body => Statement.usesList place (.start [] body) body

/-- The variables that are used inside a function, whenever it is called. -/
def FunctionDecl.uses (place : Place) : FunctionDecl → List Use
  | ⟨_, _, params, body, _⟩ =>
    Param.usesFrom place (.start params body) params ++
      Statement.usesList place ((Layer.start params body).declareParams params) body

/-- The variables that are used in the statements of a layer. -/
def Statement.usesList (place : Place) (layer : Layer) : List Statement → List Use
  | [] => []
  | s :: rest => s.uses place layer ++ Statement.usesList place (layer.after s) rest

end

/-- The variables that are used in a program. -/
def Program.uses (p : Program) : List Use :=
  Statement.usesList [] (.start [] p) p

/-! ## What uses stand for -/

/-- How many layers outward the nearest declaration of a name lies. -/
def Place.hops? (place : Place) (name : String) : Option Nat :=
  place.findIdx? fun layer => (layer.symbols.find? name).isSome

/-- The layers that are nearer than the declaration of a variable cannot bind its name. -/
def Use.settled (use : Use) : Bool :=
  (use.place.hops? use.name).all fun far =>
    (use.place.take far).all fun layer => layer.binds.all (·.1 ≠ use.name)

/-! ## Parts -/

theorem Expr.uses_of_mem {place : Place} {es : List Expr} {e : Expr} (he : e ∈ es) :
    e.uses place ⊆ Expr.usesList place es := by
  induction es with
  | nil => cases he
  | cons head rest ih =>
    rw [Expr.usesList]
    rcases List.mem_cons.mp he with rfl | he
    · exact List.subset_append_left _ _
    · exact List.subset_append_of_subset_right _ (ih he)

/-- The uses in a part of an expression are uses in the expression. -/
theorem Expr.uses_of_part {place : Place} {e part : Expr} (hpart : part ∈ e.parts) :
    part.uses place ⊆ e.uses place := by
  cases e with
  | call name arguments isStatement token => exact Expr.uses_of_mem hpart
  | literal v token => cases hpart
  | var name token => cases hpart
  | _ =>
    simp only [Expr.parts, List.mem_cons, List.not_mem_nil, or_false] at hpart
    simp only [Expr.uses]
    rcases hpart with rfl | rfl | rfl <;> simp

/-! ## Uses that follow rules -/

section Follows

variable {rules : Rules}

/-- Uses follow rules, each at its place. -/
def Rules.Cover (rules : Rules) (uses : List Use) : Prop :=
  ∀ use ∈ uses, rules.use use.place.env use.name

theorem Rules.cover_nil : rules.Cover [] := List.forall_mem_nil _

theorem Rules.Cover.append {first second : List Use} (h : rules.Cover first)
    (h' : rules.Cover second) : rules.Cover (first ++ second) :=
  List.forall_mem_append.mpr ⟨h, h'⟩

mutual

theorem Expr.cover_uses {place : Place} : (e : Expr) → e.follows rules place.env →
    rules.Cover (e.uses place)
  | .literal _ _, _ => Rules.cover_nil
  | .var _ _, h => List.forall_mem_singleton.mpr h
  | .unary _ operand _, h => Expr.cover_uses operand h
  | .binary left _ right _, h => by
    simp only [Expr.follows, Bool.and_eq_true] at h
    exact (Expr.cover_uses left h.1).append (Expr.cover_uses right h.2)
  | .call _ arguments _ _, h => by
    simp only [Expr.follows, Bool.and_eq_true] at h
    exact Expr.cover_usesList arguments h.2
  | .index base position _, h => by
    simp only [Expr.follows, Bool.and_eq_true] at h
    exact (Expr.cover_uses base h.1).append (Expr.cover_uses position h.2)
  | .slice base start stop _, h => by
    simp only [Expr.follows, Bool.and_eq_true] at h
    exact (Expr.cover_uses base h.1).append
      ((Expr.cover_uses start h.2.1).append (Expr.cover_uses stop h.2.2))
  | .range start stop _, h => by
    simp only [Expr.follows, Bool.and_eq_true] at h
    exact (Expr.cover_uses start h.1).append (Expr.cover_uses stop h.2)
  | .steppedRange start stop step _, h => by
    simp only [Expr.follows, Bool.and_eq_true] at h
    exact (Expr.cover_uses start h.1).append
      ((Expr.cover_uses stop h.2.1).append (Expr.cover_uses step h.2.2))

theorem Expr.cover_usesList {place : Place} : (es : List Expr) →
    Expr.followsList rules place.env es → rules.Cover (Expr.usesList place es)
  | [], _ => Rules.cover_nil
  | e :: es, h => by
    simp only [Expr.followsList, Bool.and_eq_true] at h
    exact (Expr.cover_uses e h.1).append (Expr.cover_usesList es h.2)

end

theorem Expr.cover_usesOption {place : Place} {value : Option Expr}
    (h : Expr.followsOption rules place.env value) : rules.Cover (Expr.usesOption place value) := by
  cases value with
  | none => exact Rules.cover_nil
  | some e => exact Expr.cover_uses e h

theorem VarDecl.cover_usesFrom {place : Place} {type : Ty} {layer : Layer} {ds : List Declarator}
    (h : VarDecl.followsFrom rules place.env type layer.toZone ds) :
    rules.Cover (VarDecl.usesFrom place type layer ds) := by
  induction ds generalizing layer with
  | nil => exact Rules.cover_nil
  | cons d ds ih =>
    simp only [VarDecl.followsFrom, Bool.and_eq_true] at h
    exact (Expr.cover_usesOption h.2.1).append (ih h.2.2)

theorem Param.cover_usesFrom {place : Place} {layer : Layer} {params : List Param}
    (h : Param.followsFrom rules place.env layer.toZone params) :
    rules.Cover (Param.usesFrom place layer params) := by
  induction params generalizing layer with
  | nil => exact Rules.cover_nil
  | cons p params ih =>
    simp only [Param.followsFrom, Bool.and_eq_true] at h
    exact (Expr.cover_usesOption h.1).append (ih h.2)

mutual

theorem Statement.cover_uses (hnaming : rules.Naming) {place : Place} {layer : Layer} :
    (s : Statement) → s.follows rules place.env layer.toZone → rules.Cover (s.uses place layer)
  | .empty, _ => Rules.cover_nil
  | .declaration _, h => VarDecl.cover_usesFrom h
  | .assignment _ _ value _, h => by
    simp only [Statement.follows, Bool.and_eq_true] at h
    exact (Expr.cover_uses value h.1).append (List.forall_mem_singleton.mpr h.2)
  | .conditional condition body otherwise _, h => by
    simp only [Statement.follows, Bool.and_eq_true] at h
    exact .append (Expr.cover_uses condition h.1)
      (.append (Statement.cover_usesList hnaming body h.2.1)
        (Alternative.cover_uses hnaming otherwise h.2.2))
  | .whileLoop condition body _, h => by
    simp only [Statement.follows, Bool.and_eq_true] at h
    exact .append (Expr.cover_uses condition h.1) (Statement.cover_usesList hnaming body h.2)
  | .forLoop ⟨_, declarators⟩ iterable body _, h => by
    simp only [Statement.follows, Bool.and_eq_true] at h
    refine (Expr.cover_uses iterable h.1).append ?_
    have hsingle : declarators.length = 1 := of_decide_eq_true (hnaming.loop _ h.2.1)
    match declarators, hsingle with
    | [d], _ => exact Statement.cover_usesList hnaming body h.2.2
  | .breakLoop _, _ => Rules.cover_nil
  | .continueLoop _, _ => Rules.cover_nil
  | .returnFrom _ _, h => Expr.cover_usesOption h
  | .function decl, h => by
    simp only [Statement.follows] at h
    exact FunctionDecl.cover_uses hnaming decl h
  | .expression expr, h => Expr.cover_uses expr h

theorem Alternative.cover_uses (hnaming : rules.Naming) {place : Place} :
    (otherwise : Alternative) → otherwise.follows rules place.env →
      rules.Cover (otherwise.uses place)
  | .absent, _ => Rules.cover_nil
  | .elseif condition body rest, h => by
    simp only [Alternative.follows, Bool.and_eq_true] at h
    exact .append (Expr.cover_uses condition h.1)
      (.append (Statement.cover_usesList hnaming body h.2.1)
        (Alternative.cover_uses hnaming rest h.2.2))
  | .otherwise body, h => by
    simp only [Alternative.follows] at h
    exact Statement.cover_usesList hnaming body h

theorem FunctionDecl.cover_uses (hnaming : rules.Naming) {place : Place} :
    (decl : FunctionDecl) → decl.follows rules place.env → rules.Cover (decl.uses place)
  | ⟨_, _, params, body, _⟩, h => by
    simp only [FunctionDecl.follows, Bool.and_eq_true] at h
    refine .append (Param.cover_usesFrom h.1) (Statement.cover_usesList hnaming body ?_)
    rw [Layer.declareParams_toZone]
    exact h.2

theorem Statement.cover_usesList (hnaming : rules.Naming) {place : Place} {layer : Layer} :
    (body : List Statement) → Statement.followsList rules place.env layer.toZone body →
      rules.Cover (Statement.usesList place layer body)
  | [], _ => Rules.cover_nil
  | s :: body, h => by
    simp only [Statement.followsList, Bool.and_eq_true] at h
    refine .append (Statement.cover_uses hnaming s h.1) (Statement.cover_usesList hnaming body ?_)
    rw [Layer.after_toZone]
    exact h.2

end

/-- The uses of a program that follows rules do so. -/
theorem Program.cover_uses (hnaming : rules.Naming) {p : Program} (hp : p.follows rules) :
    rules.Cover p.uses :=
  Statement.cover_usesList hnaming p hp

end Follows

end ScopedScript
