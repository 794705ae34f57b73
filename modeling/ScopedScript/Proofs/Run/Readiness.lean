import ScopedScript.Proofs.Run.Frames

/-!
# Stacks that are ready

A stack is sound if every binding in it has a declared type and every function in it can be called:
the frames from the one that keeps it outward hold an environment in which its body follows the
rules. A stack is ready for a zone if it is sound and the frames from the top outward hold the
environment with the zone.

A function can be called long after it was declared, when its frame has got more functions. So the
zone it closes over says that its frame can hold all functions of the text, and only the top frame
gets new ones: all that is known of the frames below stays.
-/

namespace ScopedScript

namespace Stack

/-- Every binding has a declared type and, if asked for, a value. -/
def Typed (valued : Prop) (stack : Stack) : Prop :=
  ∀ (i : Nat) (frame : Frame), stack.frames[i]? = some frame →
    ∀ (name : String) (binding : Binding), frame.bindings.find? name = some binding →
      binding.type.isSome ∧ (valued → binding.value.isSome)

/-- A function that a frame keeps can be called: the frames from there outward hold an environment
in which it follows the rules, and go on to do so if the frame gets more of the given functions. -/
def Closes (rules : Rules) (stack : Stack) (all : List (String × Arity)) (i : Nat)
    (decl : FunctionDecl) : Prop :=
  ∃ zone env, stack.Holds (some i) (zone :: env) ∧ (∀ entry ∈ all, entry ∈ zone.held) ∧
    decl.follows rules (zone :: env)

/-- Every binding has a declared type, and every function can be called. -/
structure Sound (rules : Rules) (stack : Stack) : Prop where
  /-- Bindings have types, and values if no variable is declared without one. -/
  typed : stack.Typed rules.Valued
  closed : ∀ (i : Nat) (frame : Frame), stack.frames[i]? = some frame →
    ∀ (name : String) (decl : FunctionDecl), frame.functions.find? name = some decl →
      stack.Closes rules [] i decl

/-- A sound stack whose top frame executes a zone. -/
structure Ready (rules : Rules) (env : Env) (zone : Zone) (stack : Stack) : Prop where
  sound : stack.Sound rules
  holds : stack.Holds stack.topIndex? (zone :: env)
  within : ∀ entry ∈ zone.held, entry ∈ zone.all
  closes : ∀ (top : Nat) (frame : Frame), stack.topIndex? = some top →
    stack.frames[top]? = some frame → ∀ (name : String) (decl : FunctionDecl),
      frame.functions.find? name = some decl → stack.Closes rules zone.all top decl

/-- What the evaluation of an expression leaves: no frame has got functions, and bindings have their
types. -/
structure Kept (rules : Rules) (before after : Stack) : Prop where
  keeps : before.Keeps after
  typed : after.Typed rules.Valued

/-- What the execution of a statement leaves: only the top frame has got functions, and the stack is
ready for what follows. -/
structure Reached (rules : Rules) (env : Env) (zone : Zone) (before after : Stack) : Prop where
  grows : before.Extends after
  ready : after.Ready rules env zone

section Invariant

variable {rules : Rules} {env : Env} {zone : Zone} {stack after : Stack}

theorem Closes.keep {all : List (String × Arity)} {i : Nat} {decl : FunctionDecl}
    (h : stack.Closes rules all i decl) (hkeeps : stack.Keeps after) :
    after.Closes rules all i decl := by
  obtain ⟨zone, env, hholds, hall, hfollows⟩ := h
  exact ⟨zone, env, hkeeps.holds hholds, hall, hfollows⟩

/-- A frame after is one that was there before. -/
theorem Grows.exists_before {bound : Nat} (h : Grows bound stack after) {i : Nat} {frame : Frame}
    (hframe : after.frames[i]? = some frame) :
    ∃ frame₀, stack.frames[i]? = some frame₀ ∧ frame₀.Grows frame ∧
      (i < bound → frame.functions = frame₀.functions) := by
  have hlt := (Array.getElem?_eq_some_iff.mp hframe).1
  rw [h.size] at hlt
  obtain ⟨frame', hframe', hgrows, hsame⟩ := h.frame i _ (Array.getElem?_eq_getElem hlt)
  rw [hframe] at hframe'
  obtain rfl := Option.some.inj hframe'
  exact ⟨_, Array.getElem?_eq_getElem hlt, hgrows, hsame⟩

theorem Keeps.functions (h : stack.Keeps after) {i : Nat} {frame : Frame}
    (hframe : after.frames[i]? = some frame) :
    ∃ frame₀, stack.frames[i]? = some frame₀ ∧ frame.functions = frame₀.functions := by
  have hlt := (Array.getElem?_eq_some_iff.mp hframe).1
  rw [h.size] at hlt
  obtain ⟨frame₀, hframe₀, _, hsame⟩ := Grows.exists_before h hframe
  exact ⟨frame₀, hframe₀, hsame hlt⟩

theorem Kept.refl (h : stack.Typed rules.Valued) : stack.Kept rules stack := ⟨.refl _ _, h⟩

theorem Kept.trans {last : Stack} (h : stack.Kept rules after) (h' : after.Kept rules last) :
    stack.Kept rules last :=
  ⟨Keeps.trans h.keeps h'.keeps, h'.typed⟩

theorem Sound.keep (h : stack.Sound rules) (hkept : stack.Kept rules after) :
    after.Sound rules where
  typed := hkept.typed
  closed i frame hframe name decl hname := by
    obtain ⟨frame₀, hframe₀, hsame⟩ := hkept.keeps.functions hframe
    rw [hsame] at hname
    exact (h.closed i frame₀ hframe₀ name decl hname).keep hkept.keeps

/-- The evaluation of an expression leaves a stack ready. -/
theorem Ready.keep (h : stack.Ready rules env zone) (hkept : stack.Kept rules after) :
    after.Ready rules env zone where
  sound := h.sound.keep hkept
  holds := by
    rw [Grows.topIndex? hkept.keeps]
    exact hkept.keeps.holds h.holds
  within := h.within
  closes top frame htop hframe name decl hname := by
    rw [Grows.topIndex? hkept.keeps] at htop
    obtain ⟨frame₀, hframe₀, hsame⟩ := hkept.keeps.functions hframe
    rw [hsame] at hname
    exact (h.closes top frame₀ htop hframe₀ name decl hname).keep hkept.keeps

theorem Ready.reach (h : stack.Ready rules env zone) (hkept : stack.Kept rules after) :
    stack.Reached rules env zone after :=
  ⟨hkept.keeps.extends, h.keep hkept⟩

theorem Reached.trans {zone' : Zone} {last : Stack} (h : stack.Reached rules env zone after)
    (h' : after.Reached rules env zone' last) : stack.Reached rules env zone' last :=
  ⟨Extends.trans h.grows h'.grows, h'.ready⟩

/-- The functions of frames below the top one are not changed, and can still be called. -/
theorem Sound.extend (h : stack.Sound rules) (hextends : stack.Extends after)
    (htyped : after.Typed rules.Valued)
    (htop : ∀ (top : Nat) (frame : Frame), after.topIndex? = some top →
      after.frames[top]? = some frame → ∀ (name : String) (decl : FunctionDecl),
        frame.functions.find? name = some decl → after.Closes rules [] top decl) :
    after.Sound rules where
  typed := htyped
  closed i frame hframe name decl hname := by
    have hlt := (Array.getElem?_eq_some_iff.mp hframe).1
    rw [hextends.size] at hlt
    by_cases hbelow : i < stack.depth - 1
    · obtain ⟨frame₀, hframe₀, _, hsame⟩ := hextends.exists_before hframe
      rw [hsame hbelow] at hname
      obtain ⟨zone, env, hholds, hall, hfollows⟩ := h.closed i frame₀ hframe₀ name decl hname
      refine ⟨zone, env, hextends.holds hholds ?_, hall, hfollows⟩
      rintro _ ⟨⟩
      exact hbelow
    · refine htop i frame ?_ hframe name decl hname
      rw [topIndex?_eq_some, hextends.depth]
      unfold depth at hbelow ⊢
      omega

/-- A chain from the top goes on to hold its environment, if the top frame gets no functions but
those that its zone can have. -/
theorem Holds.extend {top : Nat} (h : stack.Holds (some top) (zone :: env))
    (hextends : stack.Extends after)
    (hheld : ∀ frame : Frame, after.frames[top]? = some frame → ∀ (name : String)
      (decl : FunctionDecl), frame.functions.find? name = some decl →
        (name, decl.arity) ∈ zone.held) : after.Holds (some top) (zone :: env) := by
  have hlt := h.lt_depth
  obtain ⟨frame, hframe, hfits, hdown, hholds⟩ := h
  obtain ⟨frame', hframe', hgrows, _⟩ := hextends.frame top frame hframe
  refine ⟨frame', hframe', ?_, ?_, ?_⟩
  · exact
      { bound := fun name type hname => hgrows.bindings name (hfits.bound name type hname)
        functions := fun name returns arity hname =>
          hgrows.functions name (hfits.functions name returns arity hname)
        held := hheld frame' hframe' }
  · rw [hgrows.outer]
    exact hdown
  · rw [hgrows.outer]
    refine hextends.holds hholds ?_
    intro outer houter
    have hbelow := hdown outer houter
    omega

/-- A function of the top frame can still be called if the frame gets no others than those that the
function allows for. -/
theorem Closes.extend {all : List (String × Arity)} {top : Nat} {decl : FunctionDecl}
    (h : stack.Closes rules all top decl) (hextends : stack.Extends after)
    (hheld : ∀ frame : Frame, after.frames[top]? = some frame → ∀ (name : String)
      (decl : FunctionDecl), frame.functions.find? name = some decl → (name, decl.arity) ∈ all) :
    after.Closes rules all top decl := by
  obtain ⟨zone, env, hholds, hall, hfollows⟩ := h
  refine ⟨zone, env, hholds.extend hextends ?_, hall, hfollows⟩
  intro frame hframe name found hfound
  exact hall _ (hheld frame hframe name found hfound)

theorem Closes.forget {all : List (String × Arity)} {i : Nat} {decl : FunctionDecl}
    (h : stack.Closes rules all i decl) : stack.Closes rules [] i decl := by
  obtain ⟨zone, env, hholds, _, hfollows⟩ := h
  exact ⟨zone, env, hholds, List.forall_mem_nil _, hfollows⟩

/-! ## Changes of one frame -/

theorem modifyFrame_frames (i : Nat) (change : Frame → Frame) (j : Nat) :
    (stack.modifyFrame i change).frames[j]? =
      if i = j then (stack.frames[j]?).map change else stack.frames[j]? := by
  rw [modifyFrame, Array.getElem?_modify]

/-- A change of a frame that loses nothing. -/
theorem modifyFrame_grows {bound i : Nat} {change : Frame → Frame}
    (hgrows : ∀ frame : Frame, frame.Grows (change frame))
    (hsame : i < bound → ∀ frame : Frame, (change frame).functions = frame.functions) :
    stack.Grows bound (stack.modifyFrame i change) where
  size := by rw [modifyFrame, Array.size_modify]
  frame j frame hframe := by
    rw [modifyFrame_frames]
    by_cases hij : i = j
    · rw [if_pos hij, hframe]
      exact ⟨change frame, rfl, hgrows frame, fun hj => hsame (hij ▸ hj) frame⟩
    · rw [if_neg hij, hframe]
      exact ⟨frame, rfl, .refl frame, fun _ => rfl⟩

theorem bind_grows (name : String) (binding : Binding) (frame : Frame) :
    frame.Grows (bind name binding frame) where
  outer := rfl
  bindings _ h := Table.isSome_find?_insert h name binding
  functions _ h := h

/-- A binding with a type, and with a value if one is asked for, keeps a stack typed. -/
theorem Typed.modifyFrame {valued : Prop} (h : stack.Typed valued) (i : Nat) {name : String}
    {change : Frame → Binding} (hbinding : ∀ frame, stack.frames[i]? = some frame →
      (change frame).type.isSome ∧ (valued → (change frame).value.isSome)) :
    (stack.modifyFrame i fun frame => bind name (change frame) frame).Typed valued := by
  intro j frame hframe other binding hother
  rw [modifyFrame_frames] at hframe
  by_cases hij : i = j
  · rw [if_pos hij, Option.map_eq_some_iff] at hframe
    obtain ⟨frame₀, hframe₀, rfl⟩ := hframe
    simp only [Stack.bind, Table.find?_insert] at hother
    split at hother
    next =>
      obtain rfl := Option.some.inj hother
      exact hbinding frame₀ (hij ▸ hframe₀)
    next => exact h j frame₀ hframe₀ other binding hother
  · rw [if_neg hij] at hframe
    exact h j frame hframe other binding hother

/-- Binding a variable in the top frame. -/
theorem declare_keeps (name : String) (type : Option Ty) (value : Option Value) :
    stack.Keeps (stack.declare name type value) := by
  unfold declare modifyTop
  split
  · exact .refl _ _
  · exact modifyFrame_grows (bind_grows name ⟨type, value⟩) fun _ _ => rfl

theorem Typed.declare {valued : Prop} (h : stack.Typed valued) (name : String) (type : Ty)
    {value : Option Value} (hvalue : valued → value.isSome) :
    (stack.declare name (some type) value).Typed valued := by
  unfold Stack.declare modifyTop
  split
  · exact h
  · exact h.modifyFrame _ fun _ _ => ⟨rfl, hvalue⟩

/-- The top frame of a ready stack. -/
theorem Ready.exists_top (h : stack.Ready rules env zone) :
    ∃ top frame, stack.topIndex? = some top ∧ stack.frames[top]? = some frame ∧
      zone.Fits frame ∧ (∀ outer, frame.outer = some outer → outer < top) ∧
        stack.Holds frame.outer env := by
  have hholds := h.holds
  cases htop : stack.topIndex? with
  | none =>
    rw [htop] at hholds
    exact hholds.elim
  | some top =>
    rw [htop] at hholds
    obtain ⟨frame, hframe⟩ := hholds
    exact ⟨top, frame, rfl, hframe⟩

/-- A declared variable belongs to the zone. -/
theorem Ready.declare (h : stack.Ready rules env zone) (name : String) (type : Ty)
    {value : Option Value} (hvalue : rules.Valued → value.isSome) :
    (stack.declare name (some type) value).Ready rules env (zone.declare name type) := by
  have hkept := h.keep
    ⟨declare_keeps name (some type) value, h.sound.typed.declare name type hvalue⟩
  obtain ⟨top, frame, htop, hframe, hfits, hdown, hholds⟩ := hkept.exists_top
  refine { sound := hkept.sound, holds := ?_, within := hkept.within, closes := hkept.closes }
  rw [htop]
  refine ⟨frame, hframe, ?_, hdown, hholds⟩
  have hbound : (frame.bindings.find? name).isSome := by
    have htop₀ : stack.topIndex? = some top :=
      (Grows.topIndex? (declare_keeps name (some type) value)).symm.trans htop
    rw [Stack.declare, modifyTop, htop₀, modifyFrame_frames, if_pos rfl,
      Option.map_eq_some_iff] at hframe
    obtain ⟨frame₀, _, rfl⟩ := hframe
    rw [Stack.bind, Table.find?_insert_self]
    rfl
  exact hfits.declare type hbound

/-- Adding a function to the top frame. -/
theorem declareFunction_extends (decl : FunctionDecl) :
    stack.Extends (stack.declareFunction decl) := by
  unfold declareFunction modifyTop
  split
  · exact .refl _ _
  next top htop =>
    rw [topIndex?_eq_some] at htop
    refine modifyFrame_grows ?_ ?_
    · intro frame
      exact ⟨rfl, fun _ h => h, fun _ h => Table.isSome_find?_insert h decl.name decl⟩
    · intro hlt
      omega

theorem Typed.declareFunction {valued : Prop} (h : stack.Typed valued) (decl : FunctionDecl) :
    (stack.declareFunction decl).Typed valued := by
  unfold Stack.declareFunction modifyTop
  split
  · exact h
  next top _ =>
    intro i frame hframe
    rw [modifyFrame_frames] at hframe
    split at hframe
    next =>
      rw [Option.map_eq_some_iff] at hframe
      obtain ⟨frame₀, hframe₀, rfl⟩ := hframe
      exact h i frame₀ hframe₀
    next => exact h i frame hframe

/-- A declared function belongs to the zone, and can be called from then on. -/
theorem Ready.declareFunction (h : stack.Ready rules env zone) {decl : FunctionDecl}
    (hmem : (decl.name, decl.arity) ∈ zone.all)
    (hfollows : decl.follows rules ((zone.declareFunction decl).later :: env)) :
    (stack.declareFunction decl).Ready rules env (zone.declareFunction decl) := by
  have hextends : stack.Extends (stack.declareFunction decl) := declareFunction_extends decl
  have hwithin : ∀ entry ∈ (zone.declareFunction decl).held, entry ∈ zone.all := by
    intro entry hentry
    obtain rfl | hentry := List.mem_cons.mp hentry
    · exact hmem
    · exact h.within entry hentry
  obtain ⟨top, frame, htop, hframe, hfits, hdown, hholds⟩ := h.exists_top
  have htop' := hextends.topIndex?.trans htop
  have hframe' : (stack.declareFunction decl).frames[top]? =
      some { frame with functions := frame.functions.insert decl.name decl } := by
    rw [Stack.declareFunction, modifyTop, htop]
    simp only [modifyFrame_frames, if_pos, hframe, Option.map_some]
  have houter : (stack.declareFunction decl).Holds frame.outer env := by
    rw [topIndex?_eq_some] at htop
    refine hextends.holds hholds ?_
    intro outer houter
    have hbelow := hdown outer houter
    omega
  have hheld : ∀ frame' : Frame, (stack.declareFunction decl).frames[top]? = some frame' →
      ∀ (name : String) (found : FunctionDecl), frame'.functions.find? name = some found →
        (name, found.arity) ∈ zone.all := by
    rintro _ hlast name found hfound
    rw [hframe'] at hlast
    obtain rfl := Option.some.inj hlast
    exact hwithin _ ((hfits.declareFunction decl).held name found hfound)
  -- The new function closes over the zone behind it; an older one goes on as before.
  have hcloses : ∀ frame' : Frame, (stack.declareFunction decl).frames[top]? = some frame' →
      ∀ (name : String) (found : FunctionDecl), frame'.functions.find? name = some found →
        (stack.declareFunction decl).Closes rules zone.all top found := by
    rintro _ hlast name found hfound
    rw [hframe'] at hlast
    obtain rfl := Option.some.inj hlast
    simp only [Table.find?_insert] at hfound
    split at hfound
    next =>
      obtain rfl := Option.some.inj hfound
      exact ⟨_, env, ⟨_, hframe', (hfits.declareFunction decl).later hwithin, hdown, houter⟩,
        fun _ hentry => hentry, hfollows⟩
    next =>
      exact (h.closes top frame htop hframe name found hfound).extend hextends hheld
  refine { sound := ?_, holds := ?_, within := hwithin, closes := ?_ }
  · refine h.sound.extend hextends (h.sound.typed.declareFunction decl) ?_
    intro top' frame' htop'' hlast name found hfound
    obtain rfl : top = top' := Option.some.inj (htop'.symm.trans htop'')
    exact (hcloses frame' hlast name found hfound).forget
  · rw [htop']
    exact ⟨_, hframe', hfits.declareFunction decl, hdown, houter⟩
  · intro top' frame' htop'' hlast name found hfound
    obtain rfl : top = top' := Option.some.inj (htop'.symm.trans htop'')
    exact hcloses frame' hlast name found hfound

/-- The nearest binding of a name has a declared type. -/
theorem Typed.get? {valued : Prop} (h : stack.Typed valued) {name : String} {binding : Binding}
    (hget : stack.get? name = some binding) :
    binding.type.isSome ∧ (valued → binding.value.isSome) := by
  obtain ⟨i, _, hbinding⟩ := List.exists_of_findSome?_eq_some hget
  obtain ⟨frame, hframe, hfind⟩ := Option.bind_eq_some_iff.mp hbinding
  exact h i frame hframe name binding hfind

/-- A name that is bound has a frame that binds it. -/
theorem exists_resolve? {name : String} (h : (stack.get? name).isSome) :
    ∃ i, stack.resolve? name = some i ∧ (stack.bindingAt? name i).isSome := by
  obtain ⟨i, hi, hbinding⟩ := List.findSome?_isSome_iff.mp h
  obtain ⟨j, hj⟩ := Option.isSome_iff_exists.mp
    (List.find?_isSome.mpr ⟨i, hi, hbinding⟩ : (stack.resolve? name).isSome)
  have hthere := List.find?_some hj
  exact ⟨j, hj, hthere⟩

/-- A variable that is bound gets a value. -/
theorem Kept.set (h : stack.Typed rules.Valued) {name : String}
    (hname : (stack.get? name).isSome) (value : Value) :
    stack.Kept rules (stack.set name value) := by
  obtain ⟨i, hi, hbinding⟩ := exists_resolve? hname
  simp only [Stack.set, hi]
  constructor
  · exact modifyFrame_grows (fun frame => bind_grows name _ frame) fun _ _ => rfl
  · refine h.modifyFrame i ?_
    intro frame hframe
    obtain ⟨binding, hfind⟩ := Option.isSome_iff_exists.mp hbinding
    rw [bindingAt?_eq hframe] at hfind
    simp only [hfind, Option.bind_some]
    exact ⟨(h i frame hframe name binding hfind).1, fun _ => rfl⟩

/-! ## Entering and leaving frames -/

theorem pushLinked_frames (name : String) (kind : FrameKind) (outer : Option Nat) (i : Nat) :
    (stack.pushLinked name kind outer).frames[i]? =
      if i = stack.depth then some (stack.newFrame name kind outer) else stack.frames[i]? := by
  rw [pushLinked, Array.getElem?_push]
  rfl

/-- A new frame does not touch the others. -/
theorem Holds.pushLinked {start : Option Nat} (h : stack.Holds start env) (name : String)
    (kind : FrameKind) (outer : Option Nat) :
    (stack.pushLinked name kind outer).Holds start env := by
  refine h.grow stack.depth ?_ ?_
  · rintro i rfl
    exact h.lt_depth
  · intro i hi frame hframe
    rw [pushLinked_frames, if_neg (by omega)]
    exact ⟨frame, hframe, .refl frame, rfl⟩

/-- A new frame that links to frames that hold an environment is ready for a zone in it. -/
theorem Sound.enter (h : stack.Sound rules) {outer : Option Nat} (hholds : stack.Holds outer env)
    (name : String) (kind : FrameKind) (body : List Statement) :
    (stack.pushLinked name kind outer).Ready rules env (.start body) := by
  have hframe : (stack.pushLinked name kind outer).frames[stack.depth]? =
      some (stack.newFrame name kind outer) := by
    rw [pushLinked_frames, if_pos rfl]
  have htop : (stack.pushLinked name kind outer).topIndex? = some stack.depth := by
    rw [topIndex?_eq_some, depth_pushLinked]
  refine { sound := ⟨?_, ?_⟩, holds := ?_, within := List.forall_mem_nil _, closes := ?_ }
  · intro i frame hframe name binding hname
    rw [pushLinked_frames] at hframe
    split at hframe
    next =>
      obtain rfl := Option.some.inj hframe
      cases hname
    next => exact h.typed i frame hframe name binding hname
  · intro i frame hframe name decl hname
    rw [pushLinked_frames] at hframe
    split at hframe
    next =>
      obtain rfl := Option.some.inj hframe
      cases hname
    next =>
      obtain ⟨zone, env, hholds, hall, hfollows⟩ := h.closed i frame hframe name decl hname
      exact ⟨zone, env, hholds.pushLinked _ _ _, hall, hfollows⟩
  · rw [htop]
    refine ⟨_, hframe, ⟨?_, ?_, ?_⟩, ?_, hholds.pushLinked name kind outer⟩
    · intro _ _ h
      cases h
    · intro _ _ _ h
      cases h
    · intro _ _ h
      cases h
    · rintro i rfl
      exact hholds.lt_depth
  · intro top frame htop' hframe' name decl hname
    obtain rfl := Option.some.inj (htop.symm.trans htop')
    obtain rfl := Option.some.inj (hframe.symm.trans hframe')
    cases hname

/-- A frame in which a piece of text was executed is ready to execute it once more. -/
theorem Ready.anew (h : stack.Ready rules env zone) {body : List Statement}
    (hall : zone.all = functionsOf body) : stack.Ready rules env (.round body) := by
  obtain ⟨top, frame, htop, hframe, hfits, hdown, hholds⟩ := h.exists_top
  refine { sound := h.sound, holds := ?_, within := fun _ hentry => hentry, closes := ?_ }
  · rw [htop]
    refine ⟨frame, hframe, ⟨?_, ?_, ?_⟩, hdown, hholds⟩
    · intro _ _ hname
      cases hname
    · intro _ _ _ hname
      cases hname
    · intro name decl hname
      rw [Zone.round, ← hall]
      exact h.within _ (hfits.held name decl hname)
  · rw [Zone.round, ← hall]
    exact h.closes

/-- Behind a frame that was entered and left, the others have got no functions. -/
theorem Kept.leave {name : String} {kind : FrameKind} {outer : Option Nat}
    (h : (stack.pushLinked name kind outer).Extends after) (htyped : after.Typed rules.Valued) :
    stack.Kept rules after.pop := by
  have hsize : after.frames.size = stack.depth + 1 := by
    rw [h.size, ← depth_pushLinked stack name kind outer]
    rfl
  constructor
  · constructor
    · rw [pop, Array.size_pop, hsize]
      rfl
    · intro i frame hframe
      have hlt : i < stack.depth := (Array.getElem?_eq_some_iff.mp hframe).1
      have hbefore : (stack.pushLinked name kind outer).frames[i]? = some frame := by
        rw [pushLinked_frames, if_neg (by omega)]
        exact hframe
      obtain ⟨frame', hframe', hgrows, hsame⟩ := h.frame i frame hbefore
      refine ⟨frame', ?_, hgrows, fun _ => hsame ?_⟩
      · rw [pop, Array.getElem?_pop, if_pos (by omega)]
        exact hframe'
      · rw [depth_pushLinked]
        exact hlt
  · intro i frame hframe
    rw [pop, Array.getElem?_pop] at hframe
    split at hframe
    next => exact htyped i frame hframe
    next => cases hframe

end Invariant

end Stack

end ScopedScript
