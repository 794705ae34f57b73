import ScopedScript.Frame
import ScopedScript.Proofs.Scoping.Environment

/-!
# Frames that hold what the text declares

The frames along a chain of links hold an environment: each of them binds the variables and has the
functions that its zone has declared, and has no functions but those its zone says it can have. Then
what a name stands for in the environment is found along the chain.

Frames only ever get more names while they live. A chain goes on to hold its environment as long as
its frames get no functions but those that the zones allow.
-/

namespace ScopedScript

/-! ## What every program can use -/

theorem Table.mem_of_findIn {α : Type} {name : String} {entries : List (String × α)} {entry : α}
    (h : Table.findIn name entries = some entry) : (name, entry) ∈ entries := by
  induction entries with
  | nil => cases h
  | cons head rest ih =>
    obtain ⟨key, old⟩ := head
    unfold findIn at h
    split at h
    next hkey =>
      obtain rfl := Option.some.inj h
      rw [hkey]
      exact List.mem_cons_self ..
    next => exact List.mem_cons_of_mem _ (ih h)

/-- An insertion loses no name. -/
theorem Table.isSome_find?_insert {α : Type} {table : Table α} {other : String}
    (h : (table.find? other).isSome) (name : String) (entry : α) :
    ((table.insert name entry).find? other).isSome := by
  rw [find?_insert]
  split
  · rfl
  · exact h

/-- A name that every program can use is a reserved word or the name of a built-in function. -/
theorem builtinSymbols_find? {name : String} {kind : SymbolKind}
    (h : builtinSymbols.find? name = some kind) : kind = .builtinType ∨
      ∃ b, Builtin.ofName? name = some b ∧ kind = .function b.result b.arity := by
  have hall : ∀ entry ∈ builtinSymbols.entries, entry.2 = .builtinType ∨
      (Builtin.ofName? entry.1).any (fun b => entry.2 = .function b.result b.arity) := by
    decide +kernel
  have hentry := hall _ (Table.mem_of_findIn h)
  refine hentry.imp id ?_
  intro hany
  cases hb : Builtin.ofName? name with
  | none =>
    rw [hb] at hany
    exact Bool.noConfusion hany
  | some b =>
    rw [hb] at hany
    exact ⟨b, rfl, of_decide_eq_true hany⟩

/-- No variable is declared outside a program. -/
theorem builtinSymbols_ne_var {name : String} {type : Ty} :
    builtinSymbols.find? name ≠ some (.var type) := by
  intro h
  obtain hword | ⟨b, _, hfunction⟩ := builtinSymbols_find? h
  · cases hword
  · cases hfunction

/-! ## Chains that hold an environment -/

/-- A frame holds what a zone has declared, and only functions that the zone can have. -/
structure Zone.Fits (zone : Zone) (frame : Frame) : Prop where
  bound : ∀ name type, zone.symbols.find? name = some (.var type) →
    (frame.bindings.find? name).isSome
  functions : ∀ name returns arity, zone.symbols.find? name = some (.function returns arity) →
    (frame.functions.find? name).isSome
  held : ∀ name decl, frame.functions.find? name = some decl → (name, decl.arity) ∈ zone.held

theorem Zone.Fits.not_isFunction {zone : Zone} {frame : Frame} (h : zone.Fits frame)
    {name : String} (hfunction : frame.functions.find? name = none) :
    ¬ (zone.symbols.find? name).any SymbolKind.isFunction := by
  intro hany
  cases hsymbol : zone.symbols.find? name with
  | none =>
    rw [hsymbol] at hany
    exact Bool.noConfusion hany
  | some kind =>
    rw [hsymbol] at hany
    cases kind with
    | function returns arity =>
      have hthere := h.functions name returns arity hsymbol
      rw [hfunction] at hthere
      exact Bool.noConfusion hthere
    | _ => exact Bool.noConfusion hany

/-- The frames from a position outward hold an environment. -/
def Stack.Holds (stack : Stack) : Option Nat → Env → Prop
  | none, [] => True
  | some i, zone :: env => ∃ frame, stack.frames[i]? = some frame ∧ zone.Fits frame ∧
      (∀ outer, frame.outer = some outer → outer < i) ∧ stack.Holds frame.outer env
  | none, _ :: _ => False
  | some _, [] => False

namespace Stack

section Lookup

variable {stack : Stack} {env : Env} {i count : Nat} {name : String}

theorem bindingAt?_eq {frame : Frame} (h : stack.frames[i]? = some frame) :
    stack.bindingAt? name i = frame.bindings.find? name := by
  rw [bindingAt?, h, Option.bind_some]

theorem functionAt?_eq {frame : Frame} (h : stack.frames[i]? = some frame) :
    stack.functionAt? name i = frame.functions.find? name := by
  rw [functionAt?, h, Option.bind_some]

theorem link_eq {frame : Frame} (h : stack.frames[i]? = some frame) :
    stack.link i = frame.outer := by
  rw [link, h, Option.bind_some]

/-- A name that stands for a variable is bound along the chain. -/
theorem Holds.binding_isSome (h : stack.Holds (some i) env) (hcount : i < count) {type : Ty}
    (hname : env.lookup? name = some (.var type)) :
    ((chainUpTo stack.link count i).findSome? (stack.bindingAt? name)).isSome := by
  induction env generalizing i count with
  | nil => exact h.elim
  | cons zone env ih =>
    obtain ⟨count, rfl⟩ : ∃ less, count = less + 1 := ⟨count - 1, by omega⟩
    obtain ⟨frame, hframe, hfits, hdown, hholds⟩ := h
    simp only [chainUpTo, link_eq hframe, List.findSome?_cons, bindingAt?_eq hframe]
    cases hbinding : frame.bindings.find? name with
    | some binding => rfl
    | none =>
      have hzone : zone.symbols.find? name = none := by
        cases hsymbol : zone.symbols.find? name with
        | none => rfl
        | some kind =>
          simp only [Env.lookup?, hsymbol, Option.some_or, Option.some.injEq] at hname
          have hbound := hfits.bound name type (hname ▸ hsymbol)
          rw [hbinding] at hbound
          exact Bool.noConfusion hbound
      simp only [Env.lookup?, hzone, Option.none_or] at hname
      cases houter : frame.outer with
      | some outer =>
        rw [houter] at hholds
        exact ih hholds (Nat.lt_of_lt_of_le (hdown outer houter) (by omega)) hname
      | none =>
        rw [houter] at hholds
        cases env with
        | cons _ _ => exact hholds.elim
        | nil => exact absurd hname builtinSymbols_ne_var

/-- What a call finds along the chain is kept by a frame on it, and is among what it can find. -/
theorem Holds.mem_callable (h : stack.Holds (some i) env) (hcount : i < count) {j : Nat}
    {decl : FunctionDecl} (hfound : (chainUpTo stack.link count i).findSome?
      (fun j => (stack.functionAt? name j).map (j, ·)) = some (j, decl)) :
    stack.functionAt? name j = some decl ∧ decl.arity ∈ env.callable name := by
  induction env generalizing i count with
  | nil => exact h.elim
  | cons zone env ih =>
    obtain ⟨count, rfl⟩ : ∃ less, count = less + 1 := ⟨count - 1, by omega⟩
    obtain ⟨frame, hframe, hfits, hdown, hholds⟩ := h
    simp only [chainUpTo, link_eq hframe, List.findSome?_cons, functionAt?_eq hframe] at hfound
    rw [Env.callable]
    cases hfunction : frame.functions.find? name with
    | some found =>
      simp only [hfunction, Option.map_some, Option.some.injEq, Prod.mk.injEq] at hfound
      obtain ⟨rfl, rfl⟩ := hfound
      refine ⟨(functionAt?_eq hframe).trans hfunction, List.mem_append_left _ ?_⟩
      rw [Zone.heldArities, List.mem_map]
      exact ⟨_, List.mem_filter.mpr ⟨hfits.held name found hfunction, decide_eq_true rfl⟩, rfl⟩
    | none =>
      rw [if_neg (hfits.not_isFunction hfunction)]
      simp only [hfunction, Option.map_none] at hfound
      cases houter : frame.outer with
      | none =>
        rw [houter] at hfound
        cases hfound
      | some outer =>
        rw [houter] at hholds hfound
        obtain ⟨hthere, hmem⟩ :=
          ih hholds (Nat.lt_of_lt_of_le (hdown outer houter) (by omega)) hfound
        exact ⟨hthere, List.mem_append_right _ hmem⟩

/-- If a call finds nothing along the chain, the name stands for a built-in function. -/
theorem Holds.of_not_found (h : stack.Holds (some i) env) (hcount : i < count)
    (hfound : (chainUpTo stack.link count i).findSome?
      (fun j => (stack.functionAt? name j).map (j, ·)) = none) {returns : Option Ty}
    {arity : Arity} (hname : env.lookup? name = some (.function returns arity)) :
    ∃ b, Builtin.ofName? name = some b ∧ b.arity = arity := by
  induction env generalizing i count with
  | nil => exact h.elim
  | cons zone env ih =>
    obtain ⟨count, rfl⟩ : ∃ less, count = less + 1 := ⟨count - 1, by omega⟩
    obtain ⟨frame, hframe, hfits, hdown, hholds⟩ := h
    simp only [chainUpTo, link_eq hframe, List.findSome?_cons, functionAt?_eq hframe] at hfound
    cases hfunction : frame.functions.find? name with
    | some found => simp [hfunction] at hfound
    | none =>
      have hzone : zone.symbols.find? name = none := by
        cases hsymbol : zone.symbols.find? name with
        | none => rfl
        | some kind =>
          simp only [Env.lookup?, hsymbol, Option.some_or, Option.some.injEq] at hname
          have hdeclared := hfits.not_isFunction hfunction
          rw [hsymbol, hname] at hdeclared
          exact absurd rfl hdeclared
      simp only [Env.lookup?, hzone, Option.none_or] at hname
      simp only [hfunction, Option.map_none] at hfound
      cases houter : frame.outer with
      | some outer =>
        rw [houter] at hholds hfound
        exact ih hholds (Nat.lt_of_lt_of_le (hdown outer houter) (by omega)) hfound hname
      | none =>
        rw [houter] at hholds
        cases env with
        | cons _ _ => exact hholds.elim
        | nil =>
          obtain hword | ⟨b, hb, hfunction⟩ := builtinSymbols_find? hname
          · exact SymbolKind.noConfusion hword
          · exact ⟨b, hb, (SymbolKind.function.inj hfunction).2.symm⟩

variable {zone : Zone}

/-- A name that stands for a variable is bound. -/
theorem Holds.get?_isSome (h : stack.Holds stack.topIndex? (zone :: env)) {type : Ty}
    (hname : Env.lookup? (zone :: env) name = some (.var type)) : (stack.get? name).isSome := by
  rw [get?, chain]
  cases htop : stack.topIndex? with
  | none =>
    rw [htop] at h
    exact h.elim
  | some top =>
    rw [htop] at h
    exact h.binding_isSome (Nat.lt_succ_self _) hname

/-- What a call finds. -/
theorem Holds.findFunction?_some (h : stack.Holds stack.topIndex? (zone :: env)) {j : Nat}
    {decl : FunctionDecl} (hfound : stack.findFunction? name = some (j, decl)) :
    stack.functionAt? name j = some decl ∧ decl.arity ∈ Env.callable (zone :: env) name := by
  rw [findFunction?, chain] at hfound
  cases htop : stack.topIndex? with
  | none =>
    rw [htop] at h
    exact h.elim
  | some top =>
    rw [htop] at h hfound
    exact h.mem_callable (Nat.lt_succ_self _) hfound

/-- What a call is of if no frame has such a function. -/
theorem Holds.findFunction?_none (h : stack.Holds stack.topIndex? (zone :: env))
    (hfound : stack.findFunction? name = none) {returns : Option Ty} {arity : Arity}
    (hname : Env.lookup? (zone :: env) name = some (.function returns arity)) :
    ∃ b, Builtin.ofName? name = some b ∧ b.arity = arity := by
  rw [findFunction?, chain] at hfound
  cases htop : stack.topIndex? with
  | none =>
    rw [htop] at h
    exact h.elim
  | some top =>
    rw [htop] at h hfound
    exact h.of_not_found (Nat.lt_succ_self _) hfound hname

end Lookup

/-! ## What happens to frames -/

end Stack

/-- A frame keeps its link, its names and its functions, and can get more. -/
structure Frame.Grows (before after : Frame) : Prop where
  outer : after.outer = before.outer
  bindings : ∀ name, (before.bindings.find? name).isSome → (after.bindings.find? name).isSome
  functions : ∀ name, (before.functions.find? name).isSome → (after.functions.find? name).isSome

theorem Frame.Grows.refl (frame : Frame) : frame.Grows frame := ⟨rfl, fun _ => id, fun _ => id⟩

theorem Frame.Grows.trans {a b c : Frame} (hab : a.Grows b) (hbc : b.Grows c) : a.Grows c where
  outer := hbc.outer.trans hab.outer
  bindings name h := hbc.bindings name (hab.bindings name h)
  functions name h := hbc.functions name (hab.functions name h)

/-- A frame that got no functions fits the zones it fitted. -/
theorem Zone.Fits.grow {zone : Zone} {before after : Frame} (h : zone.Fits before)
    (hgrows : before.Grows after) (hfunctions : after.functions = before.functions) :
    zone.Fits after where
  bound name type hname := hgrows.bindings name (h.bound name type hname)
  functions name returns arity hname := by
    rw [hfunctions]
    exact h.functions name returns arity hname
  held name decl hname := by
    rw [hfunctions] at hname
    exact h.held name decl hname

/-- A frame that binds a name fits the zone with the variable declared. -/
theorem Zone.Fits.declare {zone : Zone} {frame : Frame} (h : zone.Fits frame) {name : String}
    (type : Ty) (hbound : (frame.bindings.find? name).isSome) :
    (zone.declare name type).Fits frame where
  bound other type' hother := by
    rw [Zone.declare, Table.find?_insert] at hother
    split at hother
    next heq => exact heq ▸ hbound
    next => exact h.bound other type' hother
  functions other returns arity hother := by
    rw [Zone.declare, Table.find?_insert] at hother
    split at hother
    next => cases hother
    next => exact h.functions other returns arity hother
  held := h.held

/-- A frame with a function added fits the zone with the function declared. -/
theorem Zone.Fits.declareFunction {zone : Zone} {frame : Frame} (h : zone.Fits frame)
    (decl : FunctionDecl) : (zone.declareFunction decl).Fits
      { frame with functions := frame.functions.insert decl.name decl } where
  bound name type hname := by
    rw [Zone.declareFunction, Table.find?_insert] at hname
    split at hname
    next => cases hname
    next => exact h.bound name type hname
  functions name returns arity hname := by
    rw [Zone.declareFunction, Table.find?_insert] at hname
    rw [Table.find?_insert]
    split at hname
    next heq =>
      rw [if_pos heq]
      rfl
    next hne =>
      rw [if_neg hne]
      exact h.functions name returns arity hname
  held name found hname := by
    rw [Table.find?_insert] at hname
    split at hname
    next heq =>
      obtain rfl := Option.some.inj hname
      rw [heq]
      exact List.mem_cons_self ..
    next => exact List.mem_cons_of_mem _ (h.held name found hname)

theorem Zone.Fits.later {zone : Zone} {frame : Frame} (h : zone.Fits frame)
    (hwithin : ∀ entry ∈ zone.held, entry ∈ zone.all) : zone.later.Fits frame where
  bound := h.bound
  functions := h.functions
  held name decl hname := hwithin _ (h.held name decl hname)

namespace Stack

/-- Frames are the same in number and grow, and those below a position get no functions. -/
structure Grows (bound : Nat) (before after : Stack) : Prop where
  size : after.frames.size = before.frames.size
  frame : ∀ i frame, before.frames[i]? = some frame → ∃ frame', after.frames[i]? = some frame' ∧
    frame.Grows frame' ∧ (i < bound → frame'.functions = frame.functions)

/-- What the evaluation of an expression does: no frame gets functions. -/
abbrev Keeps (before after : Stack) : Prop := Grows before.depth before after

/-- What the execution of a statement does: only the top frame gets functions. -/
abbrev Extends (before after : Stack) : Prop := Grows (before.depth - 1) before after

theorem Grows.refl (bound : Nat) (stack : Stack) : Grows bound stack stack :=
  ⟨rfl, fun _ frame h => ⟨frame, h, .refl frame, fun _ => rfl⟩⟩

theorem Grows.trans {bound : Nat} {a b c : Stack} (hab : Grows bound a b) (hbc : Grows bound b c) :
    Grows bound a c where
  size := hbc.size.trans hab.size
  frame i frame hframe := by
    obtain ⟨frame', hframe', hgrows, hsame⟩ := hab.frame i frame hframe
    obtain ⟨frame'', hframe'', hgrows', hsame'⟩ := hbc.frame i frame' hframe'
    exact ⟨frame'', hframe'', hgrows.trans hgrows', fun hi => (hsame' hi).trans (hsame hi)⟩

theorem Grows.mono {bound bound' : Nat} {a b : Stack} (h : Grows bound a b) (hle : bound' ≤ bound) :
    Grows bound' a b where
  size := h.size
  frame i frame hframe := by
    obtain ⟨frame', hframe', hgrows, hsame⟩ := h.frame i frame hframe
    exact ⟨frame', hframe', hgrows, fun hi => hsame (by omega)⟩

theorem Keeps.extends {a b : Stack} (h : a.Keeps b) : a.Extends b :=
  h.mono (Nat.sub_le _ _)

theorem Grows.depth {bound : Nat} {a b : Stack} (h : Grows bound a b) : b.depth = a.depth := h.size

theorem Keeps.trans {a b c : Stack} (hab : a.Keeps b) (hbc : b.Keeps c) : a.Keeps c := by
  have hdepth := hab.depth
  exact Grows.trans hab (hbc.mono (by omega))

theorem Extends.trans {a b c : Stack} (hab : a.Extends b) (hbc : b.Extends c) : a.Extends c := by
  have hdepth := hab.depth
  exact Grows.trans hab (hbc.mono (by omega))

theorem Grows.topIndex? {bound : Nat} {a b : Stack} (h : Grows bound a b) :
    b.topIndex? = a.topIndex? := by
  have hdepth := h.depth
  simp only [Stack.topIndex?, Array.isEmpty_iff_size_eq_zero, h.size, hdepth]

theorem topIndex?_eq_some {stack : Stack} {top : Nat} :
    stack.topIndex? = some top ↔ stack.depth = top + 1 := by
  simp only [topIndex?, Array.isEmpty_iff_size_eq_zero, depth]
  split
  · simp only [reduceCtorEq, false_iff]
    omega
  · simp only [Option.some.injEq]
    omega

/-- Frames below a position that get no functions hold what they held. -/
theorem Holds.grow {before after : Stack} {env : Env} {start : Option Nat} (bound : Nat)
    (h : before.Holds start env) (hbound : ∀ i, start = some i → i < bound)
    (hframes : ∀ i < bound, ∀ frame, before.frames[i]? = some frame → ∃ frame',
      after.frames[i]? = some frame' ∧ frame.Grows frame' ∧
        frame'.functions = frame.functions) : after.Holds start env := by
  induction env generalizing start with
  | nil =>
    cases start with
    | none => trivial
    | some i => exact h.elim
  | cons zone env ih =>
    cases start with
    | none => exact h.elim
    | some i =>
      have hi := hbound i rfl
      obtain ⟨frame, hframe, hfits, hdown, hholds⟩ := h
      obtain ⟨frame', hframe', hgrows, hsame⟩ := hframes i hi frame hframe
      refine ⟨frame', hframe', hfits.grow hgrows hsame, ?_, ?_⟩
      · rw [hgrows.outer]
        exact hdown
      · rw [hgrows.outer]
        refine ih hholds ?_
        intro outer houter
        have hlt := hdown outer houter
        omega

theorem Holds.lt_depth {stack : Stack} {env : Env} {i : Nat} (h : stack.Holds (some i) env) :
    i < stack.depth := by
  cases env with
  | nil => exact h.elim
  | cons zone env =>
    obtain ⟨frame, hframe, _⟩ := h
    exact (Array.getElem?_eq_some_iff.mp hframe).1

/-- A chain that starts below the bound goes on to hold its environment. -/
theorem Grows.holds {bound : Nat} {before after : Stack} {env : Env} {start : Option Nat}
    (hgrows : before.Grows bound after) (h : before.Holds start env)
    (hbound : ∀ i, start = some i → i < bound) : after.Holds start env := by
  refine h.grow bound hbound ?_
  intro i hi frame hframe
  obtain ⟨frame', hframe', hgrows, hsame⟩ := hgrows.frame i frame hframe
  exact ⟨frame', hframe', hgrows, hsame hi⟩

theorem Keeps.holds {before after : Stack} {env : Env} {start : Option Nat}
    (hkeeps : before.Keeps after) (h : before.Holds start env) : after.Holds start env := by
  refine Grows.holds hkeeps h ?_
  rintro i rfl
  exact h.lt_depth

end Stack

end ScopedScript
