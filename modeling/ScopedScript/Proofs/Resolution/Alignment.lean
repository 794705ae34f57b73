import Mathlib.Data.List.Forall2
import ScopedScript.Proofs.Resolution.Uses
import ScopedScript.Proofs.Run.Confinement

/-!
# Frames that align with a place

The frames that are visible from the top align with a place if they match its layers one by one:
each frame binds the variables that its layer has declared, and none but those that its layer says
it can bind. A stack is tracked at a place if its frames align with it and every function that a
frame holds can be called: the frames from there outward align with a place at which all uses inside
the function are known.

What changes no more than values leaves a stack tracked, so nothing has to be shown of expressions,
conditionals, loops and calls beyond what they do to frames. What is left are declarations, which
take the place from one layer to the next, and frames that are entered.
-/

namespace ScopedScript

namespace Stack

/-! ## What frames hold -/

section Held

variable {stack after : Stack} {i : Nat}

/-- What changes values keeps names bound and binds no others. -/
theorem Touched.isSome_bindingAt? (h : stack.Touched stack.depth after) (name : String) (i : Nat) :
    (after.bindingAt? name i).isSome = (stack.bindingAt? name i).isSome := by
  by_cases hi : i < stack.depth
  · have htypes := congrArg Option.isSome (h.types i hi name)
    rwa [Option.isSome_map, Option.isSome_map] at htypes
  · have hsize := h.toSameShape.depth
    unfold depth at hi hsize
    rw [bindingAt?, bindingAt?, Array.getElem?_eq_none (by omega),
      Array.getElem?_eq_none (by omega)]

theorem Touched.functionAt? (h : stack.Touched stack.depth after) (name : String) (i : Nat) :
    after.functionAt? name i = stack.functionAt? name i := by
  cases hframe : after.frames[i]? with
  | none =>
    have hsize := h.toSameShape.depth
    unfold depth at hsize
    rw [Array.getElem?_eq_none_iff] at hframe
    rw [Stack.functionAt?, Stack.functionAt?, Array.getElem?_eq_none (by omega),
      Array.getElem?_eq_none (by omega)]
  | some frame =>
    obtain ⟨frame₀, hframe₀, hsame⟩ := Keeps.functions h.toGrows hframe
    rw [functionAt?_eq hframe, functionAt?_eq hframe₀, hsame]

/-- What is not in a new frame is found where it was before. -/
theorem pushLinked_frames_bind {α : Type} {look : Frame → Option α} (name : String)
    (kind : FrameKind) (outer : Option Nat) (hnew : look (stack.newFrame name kind outer) = none)
    (i : Nat) :
    ((stack.pushLinked name kind outer).frames[i]?).bind look = (stack.frames[i]?).bind look := by
  rw [pushLinked_frames]
  split
  next hi =>
    rw [hi, depth, Array.getElem?_eq_none (Nat.le_refl _)]
    exact hnew
  next => rfl

theorem bindingAt?_pushLinked (name : String) (kind : FrameKind) (outer : Option Nat)
    (other : String) (i : Nat) :
    (stack.pushLinked name kind outer).bindingAt? other i = stack.bindingAt? other i :=
  pushLinked_frames_bind name kind outer rfl i

theorem functionAt?_pushLinked (name : String) (kind : FrameKind) (outer : Option Nat)
    (other : String) (i : Nat) :
    (stack.pushLinked name kind outer).functionAt? other i = stack.functionAt? other i :=
  pushLinked_frames_bind name kind outer rfl i

variable {top : Nat} (htop : stack.topIndex? = some top)

include htop

theorem modifyTop_frames (change : Frame → Frame) (i : Nat) :
    (stack.modifyTop change).frames[i]? =
      if top = i then (stack.frames[i]?).map change else stack.frames[i]? := by
  rw [modifyTop, htop]
  exact modifyFrame_frames top change i

theorem exists_top : ∃ frame, stack.frames[top]? = some frame :=
  exists_frame (topIndex?_lt_depth top htop)

/-- A declared variable is bound in the top frame; nothing else changes. -/
theorem bindingAt?_declare (name : String) (type : Option Ty) (value : Option Value)
    (other : String) (i : Nat) : (stack.declare name type value).bindingAt? other i =
      if top = i ∧ other = name then some ⟨type, value⟩ else stack.bindingAt? other i := by
  obtain ⟨frame, hframe⟩ := exists_top htop
  rw [bindingAt?, declare, modifyTop_frames htop]
  by_cases hi : top = i
  · subst hi
    rw [if_pos rfl, hframe, bindingAt?_eq hframe]
    simp only [Option.map_some, Option.bind_some, bind, Table.find?_insert, true_and]
  · rw [if_neg hi, if_neg fun h => hi h.1]
    rfl

theorem functionAt?_declare (name : String) (type : Option Ty) (value : Option Value)
    (other : String) (i : Nat) :
    (stack.declare name type value).functionAt? other i = stack.functionAt? other i := by
  rw [Stack.functionAt?, Stack.functionAt?, declare, modifyTop_frames htop]
  split
  · cases stack.frames[i]? <;> rfl
  · rfl

theorem bindingAt?_declareFunction (decl : FunctionDecl) (other : String) (i : Nat) :
    (stack.declareFunction decl).bindingAt? other i = stack.bindingAt? other i := by
  rw [bindingAt?, bindingAt?, declareFunction, modifyTop_frames htop]
  split
  · cases stack.frames[i]? <;> rfl
  · rfl

/-- A declared function is held by the top frame; nothing else changes. -/
theorem functionAt?_declareFunction (decl : FunctionDecl) (other : String) (i : Nat) :
    (stack.declareFunction decl).functionAt? other i =
      if top = i ∧ other = decl.name then some decl else stack.functionAt? other i := by
  obtain ⟨frame, hframe⟩ := exists_top htop
  rw [Stack.functionAt?, declareFunction, modifyTop_frames htop]
  by_cases hi : top = i
  · subst hi
    rw [if_pos rfl, hframe, functionAt?_eq hframe]
    simp only [Option.map_some, Option.bind_some, Table.find?_insert, true_and]
  · rw [if_neg hi, if_neg fun h => hi h.1]
    rfl

end Held

/-! ## Chains that match a place -/

/-- A frame binds what a layer has declared, and only variables that the layer can bind. -/
structure FitsAt (stack : Stack) (i : Nat) (layer : Layer) : Prop where
  bound : ∀ name type, layer.symbols.find? name = some (.var type) →
    (stack.bindingAt? name i).isSome
  binds : ∀ name, (stack.bindingAt? name i).isSome → ∃ token, (name, token) ∈ layer.binds

/-- The frames that are seen from a position match the layers of a place, one by one. -/
def Aligns (stack : Stack) (start : Option Nat) (place : Place) : Prop :=
  List.Forall₂ stack.FitsAt (stack.visibleFrom start) place

section Aligns

variable {stack after : Stack} {start : Option Nat} {place : Place} {layer : Layer} {i : Nat}

theorem FitsAt.congr (h : stack.FitsAt i layer)
    (hsame : ∀ name, (after.bindingAt? name i).isSome = (stack.bindingAt? name i).isSome) :
    after.FitsAt i layer where
  bound name type hname := by
    rw [hsame]
    exact h.bound name type hname
  binds name hname := by
    rw [hsame] at hname
    exact h.binds name hname

/-- Visible frames that bind the same names and have the same links match the same place. -/
theorem Aligns.congr (h : stack.Aligns start place)
    (hlink : ∀ i ∈ stack.visibleFrom start, after.link i = stack.link i)
    (hsame : ∀ i ∈ stack.visibleFrom start, ∀ name,
      (after.bindingAt? name i).isSome = (stack.bindingAt? name i).isSome) :
    after.Aligns start place := by
  unfold Aligns
  rw [visibleFrom_congr hlink]
  have hmem := (List.forall₂_and_left (p := (· ∈ stack.visibleFrom start)) _ _).mpr
    ⟨fun _ hi => hi, h⟩
  refine hmem.imp ?_
  rintro i layer ⟨hi, hfits⟩
  exact hfits.congr (hsame i hi)

theorem aligns_cons (hlinked : stack.Linked) : stack.Aligns (some i) (layer :: place) ↔
    stack.FitsAt i layer ∧ stack.Aligns (stack.link i) place := by
  unfold Aligns
  rw [visibleFrom_some hlinked.downward, List.forall₂_cons]

/-- What is seen behind a frame lies below it. -/
theorem Linked.lt_of_mem_link (hlinked : stack.Linked) {j : Nat}
    (hi : i ∈ stack.visibleFrom (stack.link j)) : i < j := by
  cases hlink : stack.link j with
  | none =>
    rw [hlink] at hi
    cases hi
  | some outer =>
    rw [hlink] at hi
    exact Nat.lt_of_le_of_lt (le_of_mem_visibleFrom hlinked.downward hi)
      (hlinked.downward j outer hlink)

/-- A chain that matches a place has a first frame. -/
theorem Aligns.exists_start (h : stack.Aligns start (layer :: place)) : ∃ i, start = some i := by
  cases start with
  | none => cases h
  | some i => exact ⟨i, rfl⟩

end Aligns

/-! ## What is reached -/

/-- How many links outward the nearest binding of a name lies. -/
def hops? (stack : Stack) (name : String) : Option Nat :=
  stack.chain.findIdx? fun i => (stack.bindingAt? name i).isSome

end Stack

/-- Of the frames, one by one, that match the place of a use, the nearest that binds its name is no
further out than the declaration that the use stands for. If it is nearer, its layer had not
declared the name before the use, but declares it further down. -/
def Use.Met (use : Use) (stack : Stack) : Prop :=
  stack.Aligns stack.topIndex? use.place ∧ ∃ near far,
    stack.hops? use.name = some near ∧ use.place.hops? use.name = some far ∧ near ≤ far ∧
      (near < far → ∃ layer token, use.place[near]? = some layer ∧
        layer.symbols.find? use.name = none ∧ (use.name, token) ∈ layer.binds)

namespace Stack

section Reach

variable {stack : Stack} {name : String}

theorem reach_of_fits {chain : List Nat} {place : Place} (h : List.Forall₂ stack.FitsAt chain place)
    {type : Ty} (hname : place.env.lookup? name = some (.var type)) : ∃ near far,
      chain.findIdx? (fun i => (stack.bindingAt? name i).isSome) = some near ∧
      place.hops? name = some far ∧ near ≤ far ∧
        (near < far → ∃ layer token, place[near]? = some layer ∧
          layer.symbols.find? name = none ∧ (name, token) ∈ layer.binds) := by
  induction h with
  | nil =>
    exact absurd hname builtinSymbols_ne_var
  | @cons i layer chain place hfits _ ih =>
    simp only [Place.hops?, List.findIdx?_cons] at ih ⊢
    rw [Place.env_cons, Env.lookup?] at hname
    cases hsymbol : layer.symbols.find? name with
    | some kind =>
      rw [hsymbol, Option.some_or, Option.some.injEq] at hname
      subst hname
      refine ⟨0, 0, ?_, ?_, Nat.le_refl 0, fun h => absurd h (Nat.lt_irrefl 0)⟩
      · rw [if_pos (hfits.bound name type hsymbol)]
      · rfl
    | none =>
      rw [hsymbol, Option.none_or] at hname
      obtain ⟨near, far, hnear, hfar, hle, hnearer⟩ := ih hname
      rw [hfar]
      by_cases hbinds : (stack.bindingAt? name i).isSome
      · obtain ⟨token, htoken⟩ := hfits.binds name hbinds
        refine ⟨0, far + 1, ?_, rfl, Nat.zero_le _, fun _ => ⟨layer, token, rfl, hsymbol, htoken⟩⟩
        rw [if_pos hbinds]
      · refine ⟨near + 1, far + 1, ?_, rfl, Nat.succ_le_succ hle, ?_⟩
        · rw [if_neg hbinds, hnear]
          rfl
        · intro hlt
          exact hnearer (Nat.lt_of_succ_lt_succ hlt)

end Reach

end Stack

/-- A use that stands for a variable, in frames that match its place. -/
theorem Use.met {use : Use} {stack : Stack} (h : stack.Aligns stack.topIndex? use.place)
    (hnamed : Rules.named.use use.place.env use.name) : use.Met stack := by
  obtain ⟨kind, hlookup, hkind⟩ := (Option.any_eq_true _ _).mp hnamed
  cases kind with
  | var type =>
    refine ⟨h, ?_⟩
    rw [Stack.hops?, Stack.chain_eq_visibleFrom]
    exact Stack.reach_of_fits h hlookup
  | _ => cases hkind

/-- What is met is bound. -/
theorem Use.Met.get?_isSome {use : Use} {stack : Stack} (h : use.Met stack) :
    (stack.get? use.name).isSome := by
  obtain ⟨_, near, _, hnear, _⟩ := h
  have hany := Option.isSome_of_eq_some hnear
  rw [Stack.hops?, List.findIdx?_isSome, List.any_eq_true] at hany
  obtain ⟨i, hi, hbinds⟩ := hany
  exact List.findSome?_isSome_iff.mpr ⟨i, hi, hbinds⟩

/-- A settled use reaches the declaration that it stands for. -/
theorem Use.Met.hops?_eq {use : Use} {stack : Stack} (h : use.Met stack) (hsettled : use.settled) :
    stack.hops? use.name = use.place.hops? use.name := by
  obtain ⟨_, near, far, hnear, hfar, hle, hnearer⟩ := h
  rw [hnear, hfar]
  rcases Nat.lt_or_eq_of_le hle with hlt | rfl
  · obtain ⟨layer, token, hlayer, _, htoken⟩ := hnearer hlt
    have hmem : layer ∈ use.place.take far := by
      refine List.mem_of_getElem? (i := near) ?_
      rw [List.getElem?_take, if_pos hlt, hlayer]
    simp only [Use.settled, hfar, Option.all_some, List.all_eq_true] at hsettled
    have hne := hsettled layer hmem _ htoken
    simp at hne
  · rfl

namespace Stack

/-! ## The invariant -/

/-- A function in a frame can be called: the frames from there outward match a place at which all
uses inside the function are known, and go on to do so if the frame binds more of the given
variables. -/
def Hosts (stack : Stack) (uses : List Use) (more : List (String × Token)) (i : Nat)
    (decl : FunctionDecl) : Prop :=
  ∃ layer place, stack.Aligns (some i) (layer :: place) ∧ more ⊆ layer.binds ∧
    decl.uses (layer :: place) ⊆ uses

/-- The frames match a place, and every function can be called. -/
structure Tracked (uses : List Use) (place : Place) (layer : Layer) (stack : Stack) : Prop where
  linked : stack.Linked
  aligned : stack.Aligns stack.topIndex? (layer :: place)
  /-- The frame can bind no more than the text declares. -/
  within : layer.binds ⊆ layer.locals
  /-- Functions can be called. -/
  hosted : ∀ i name decl, stack.functionAt? name i = some decl → stack.Hosts uses [] i decl
  /-- Functions of the top frame can be called later. -/
  topHosted : ∀ top name decl, stack.topIndex? = some top →
    stack.functionAt? name top = some decl → stack.Hosts uses layer.locals top decl

section Tracked

variable {uses : List Use} {place : Place} {layer : Layer} {stack after : Stack}

theorem Hosts.forget {more : List (String × Token)} {i : Nat} {decl : FunctionDecl}
    (h : stack.Hosts uses more i decl) : stack.Hosts uses [] i decl := by
  obtain ⟨layer, place, haligns, _, huses⟩ := h
  exact ⟨layer, place, haligns, List.nil_subset _, huses⟩

theorem Hosts.congr {more : List (String × Token)} {i : Nat} {decl : FunctionDecl}
    (h : stack.Hosts uses more i decl)
    (hlink : ∀ j ∈ stack.visibleFrom (some i), after.link j = stack.link j)
    (hsame : ∀ j ∈ stack.visibleFrom (some i), ∀ name,
      (after.bindingAt? name j).isSome = (stack.bindingAt? name j).isSome) :
    after.Hosts uses more i decl := by
  obtain ⟨layer, place, haligns, hmore, huses⟩ := h
  exact ⟨layer, place, haligns.congr hlink hsame, hmore, huses⟩

/-- What changes no more than values leaves a stack tracked. -/
theorem Tracked.touched (h : stack.Tracked uses place layer)
    (htouched : stack.Touched stack.depth after) : after.Tracked uses place layer where
  linked := h.linked.sameShape htouched.toSameShape
  aligned := by
    rw [htouched.toSameShape.topIndex?]
    exact h.aligned.congr (fun i _ => htouched.toSameShape.link i)
      fun i _ name => htouched.isSome_bindingAt? name i
  within := h.within
  hosted i name decl hname := by
    rw [htouched.functionAt?] at hname
    exact (h.hosted i name decl hname).congr (fun j _ => htouched.toSameShape.link j)
      fun j _ name => htouched.isSome_bindingAt? name j
  topHosted top name decl htop hname := by
    rw [htouched.toSameShape.topIndex?] at htop
    rw [htouched.functionAt?] at hname
    exact (h.topHosted top name decl htop hname).congr
      (fun j _ => htouched.toSameShape.link j) fun j _ name => htouched.isSome_bindingAt? name j

/-- The top frame of a tracked stack, and what is seen behind it. -/
theorem Tracked.exists_top (h : stack.Tracked uses place layer) : ∃ top,
    stack.topIndex? = some top ∧ stack.FitsAt top layer ∧
      stack.Aligns (stack.link top) place := by
  obtain ⟨top, htop⟩ := h.aligned.exists_start
  have haligns := h.aligned
  rw [htop, aligns_cons h.linked] at haligns
  exact ⟨top, htop, haligns⟩

/-! ## Declarations -/

theorem FitsAt.declare {top : Nat} (htop : stack.topIndex? = some top)
    (h : stack.FitsAt top layer) (name : String) (token : Token) (type : Ty)
    (value : Option Value) :
    (stack.declare name (some type) value).FitsAt top (layer.declare name token type) where
  bound other type' hother := by
    rw [bindingAt?_declare htop]
    simp only [Layer.declare_toZone, Zone.declare, Table.find?_insert] at hother
    split at hother
    next heq =>
      rw [if_pos ⟨rfl, heq⟩]
      rfl
    next hne =>
      rw [if_neg fun hboth => hne hboth.2]
      exact h.bound other type' hother
  binds other hother := by
    rw [bindingAt?_declare htop] at hother
    split at hother
    next hboth => exact ⟨token, hboth.2 ▸ List.mem_cons_self⟩
    next =>
      obtain ⟨token', htoken'⟩ := h.binds other hother
      exact ⟨token', List.mem_cons_of_mem _ htoken'⟩

/-- A layer that can bind a variable anyway goes on to fit. -/
theorem FitsAt.bind_more {top : Nat} (htop : stack.topIndex? = some top)
    (h : stack.FitsAt top layer) {name : String} {token : Token}
    (hmem : (name, token) ∈ layer.binds) (type : Option Ty) (value : Option Value) :
    (stack.declare name type value).FitsAt top layer where
  bound other type' hother := by
    rw [bindingAt?_declare htop]
    split
    · rfl
    · exact h.bound other type' hother
  binds other hother := by
    rw [bindingAt?_declare htop] at hother
    split at hother
    next hboth => exact ⟨token, hboth.2 ▸ hmem⟩
    next => exact h.binds other hother

/-- A declared variable belongs to the layer. -/
theorem Tracked.declare (h : stack.Tracked uses place layer) {name : String} {token : Token}
    (hmem : (name, token) ∈ layer.locals) (type : Ty) (value : Option Value) :
    (stack.declare name (some type) value).Tracked uses place (layer.declare name token type) := by
  obtain ⟨top, htop, hfits, hbehind⟩ := h.exists_top
  have hshape : stack.SameShape (stack.declare name (some type) value) :=
    (declare_touched name (some type) value).toSameShape
  have hlinked := h.linked.sameShape hshape
  have htop' := hshape.topIndex?.trans htop
  -- frames below the top one are not touched
  have hbelow : ∀ i, i < top → ∀ other,
      ((stack.declare name (some type) value).bindingAt? other i).isSome =
        (stack.bindingAt? other i).isSome := by
    intro i hi other
    rw [bindingAt?_declare htop, if_neg fun hboth => absurd hboth.1 (by omega)]
  have hrest : ∀ {place'}, stack.Aligns (stack.link top) place' →
      (stack.declare name (some type) value).Aligns (stack.link top) place' :=
    fun haligns => haligns.congr (fun i _ => hshape.link i)
      fun i hi => hbelow i (h.linked.lt_of_mem_link hi)
  have htopHosted : ∀ other decl, stack.functionAt? other top = some decl →
      (stack.declare name (some type) value).Hosts uses layer.locals top decl := by
    intro other decl hother
    obtain ⟨layer', place', haligns, hmore, huses⟩ := h.topHosted top other decl htop hother
    rw [aligns_cons h.linked] at haligns
    refine ⟨layer', place', ?_, hmore, huses⟩
    rw [aligns_cons hlinked, hshape.link]
    exact ⟨haligns.1.bind_more htop (hmore hmem) (some type) value, hrest haligns.2⟩
  refine { linked := hlinked, aligned := ?_, within := ?_, hosted := ?_, topHosted := ?_ }
  · rw [htop', aligns_cons hlinked, hshape.link]
    exact ⟨hfits.declare htop name token type value, hrest hbehind⟩
  · exact List.cons_subset.mpr ⟨hmem, h.within⟩
  · intro i other decl hother
    rw [functionAt?_declare htop] at hother
    by_cases hi : i < top
    · refine (h.hosted i other decl hother).congr (fun j _ => hshape.link j) ?_
      intro j hj
      exact hbelow j (Nat.lt_of_le_of_lt (le_of_mem_visibleFrom h.linked.downward hj) hi)
    · obtain rfl : i = top := by
        obtain ⟨frame, hframe, _⟩ := Option.bind_eq_some_iff.mp hother
        have hlt := (Array.getElem?_eq_some_iff.mp hframe).1
        rw [topIndex?_eq_some] at htop
        unfold depth at htop
        omega
      exact (htopHosted other decl hother).forget
  · intro top' other decl htop'' hother
    obtain rfl := Option.some.inj (htop'.symm.trans htop'')
    rw [functionAt?_declare htop] at hother
    exact htopHosted other decl hother

/-- A declared function can be called, whatever variables the frame binds by then. -/
theorem Tracked.declareFunction (h : stack.Tracked uses place layer) {decl : FunctionDecl}
    (huses : decl.uses ((layer.declareFunction decl).later :: place) ⊆ uses) :
    (stack.declareFunction decl).Tracked uses place (layer.declareFunction decl) := by
  obtain ⟨top, htop, hfits, hbehind⟩ := h.exists_top
  have hshape : stack.SameShape (stack.declareFunction decl) :=
    (declareFunction_touched decl).toSameShape
  have hlinked := h.linked.sameShape hshape
  have htop' := hshape.topIndex?.trans htop
  have hsame : ∀ i name, ((stack.declareFunction decl).bindingAt? name i).isSome =
      (stack.bindingAt? name i).isSome := by
    intro i name
    rw [bindingAt?_declareFunction htop]
  have hhosts : ∀ {more i found}, stack.Hosts uses more i found →
      (stack.declareFunction decl).Hosts uses more i found :=
    fun hhosts => hhosts.congr (fun j _ => hshape.link j) fun j _ => hsame j
  -- the function adds no variable, so what fits the layer fits it with the function declared
  have hdeclared : ∀ layer' : Layer, layer'.symbols = (layer.declareFunction decl).symbols →
      layer.binds ⊆ layer'.binds →
        (stack.declareFunction decl).Aligns (some top) (layer' :: place) := by
    intro layer' hsymbols hbinds
    rw [aligns_cons hlinked, hshape.link]
    refine ⟨⟨?_, ?_⟩, hbehind.congr (fun i _ => hshape.link i) fun i _ => hsame i⟩
    · intro name type hname
      simp only [hsymbols, Layer.declareFunction_toZone, Zone.declareFunction,
        Table.find?_insert] at hname
      rw [hsame]
      split at hname
      · cases hname
      · exact hfits.bound name type hname
    · intro name hname
      rw [hsame] at hname
      obtain ⟨token, htoken⟩ := hfits.binds name hname
      exact ⟨token, hbinds htoken⟩
  have hnew : (stack.declareFunction decl).Hosts uses layer.locals top decl :=
    ⟨(layer.declareFunction decl).later, place, hdeclared _ rfl h.within, List.Subset.refl _, huses⟩
  refine { linked := hlinked, aligned := ?_, within := h.within, hosted := ?_, topHosted := ?_ }
  · rw [htop']
    exact hdeclared _ rfl (List.Subset.refl _)
  · intro i name found hname
    rw [functionAt?_declareFunction htop] at hname
    split at hname
    next hboth =>
      obtain rfl := Option.some.inj hname
      exact hboth.1 ▸ hnew.forget
    next => exact hhosts (h.hosted i name found hname)
  · intro top' name found htop'' hname
    obtain rfl := Option.some.inj (htop'.symm.trans htop'')
    rw [functionAt?_declareFunction htop] at hname
    split at hname
    next =>
      obtain rfl := Option.some.inj hname
      exact hnew
    next => exact hhosts (h.topHosted top name found htop hname)

/-! ## Frames -/

theorem Linked.aligns_pushLinked (hlinked : stack.Linked) {start : Option Nat}
    (hstart : ∀ i, start = some i → i < stack.depth) (h : stack.Aligns start place)
    (name : String) (kind : FrameKind) (outer : Option Nat) :
    (stack.pushLinked name kind outer).Aligns start place := by
  refine h.congr ?_ ?_
  · intro i hi
    have hlt : i < stack.depth := by
      cases start with
      | none => cases hi
      | some j =>
        exact Nat.lt_of_le_of_lt (le_of_mem_visibleFrom hlinked.downward hi) (hstart j rfl)
    rw [link, link, pushLinked_frames, if_neg (by omega)]
  · intro i _ other
    rw [bindingAt?_pushLinked]

/-- A new frame that links to frames that match a place is tracked there, before anything is
declared. -/
theorem enter (hlinked : stack.Linked)
    (hhosted : ∀ i name decl, stack.functionAt? name i = some decl → stack.Hosts uses [] i decl)
    {outer : Option Nat} (hlive : ∀ i, outer = some i → i < stack.depth)
    (haligns : stack.Aligns outer place) (hsymbols : layer.symbols = .empty)
    (hwithin : layer.binds ⊆ layer.locals) (name : String) (kind : FrameKind) :
    (stack.pushLinked name kind outer).Tracked uses place layer := by
  have hpushed := hlinked.pushLinked hlive name kind
  have htop : (stack.pushLinked name kind outer).topIndex? = some stack.depth := by
    rw [topIndex?_eq_some, depth_pushLinked]
  have hlink : (stack.pushLinked name kind outer).link stack.depth = outer := by
    rw [link, pushLinked_frames, if_pos rfl]
    rfl
  have hbeyond : stack.frames[stack.depth]? = none := Array.getElem?_eq_none (Nat.le_refl _)
  refine { linked := hpushed, aligned := ?_, within := hwithin, hosted := ?_, topHosted := ?_ }
  · rw [htop, aligns_cons hpushed, hlink]
    refine ⟨⟨?_, ?_⟩, hlinked.aligns_pushLinked hlive haligns name kind outer⟩
    · intro other type hother
      rw [hsymbols] at hother
      cases hother
    · intro other hother
      rw [bindingAt?_pushLinked, bindingAt?, hbeyond] at hother
      cases hother
  · intro i other decl hother
    rw [functionAt?_pushLinked] at hother
    obtain ⟨layer', place', haligns', hmore, huses⟩ := hhosted i other decl hother
    obtain ⟨frame, hframe, _⟩ := Option.bind_eq_some_iff.mp hother
    refine ⟨layer', place', hlinked.aligns_pushLinked ?_ haligns' name kind outer, hmore, huses⟩
    rintro _ ⟨⟩
    exact (Array.getElem?_eq_some_iff.mp hframe).1
  · intro top other decl htop' hother
    obtain rfl := Option.some.inj (htop.symm.trans htop')
    rw [functionAt?_pushLinked, functionAt?, hbeyond] at hother
    cases hother

/-- A frame in which a round of a loop was executed is tracked for the next one. -/
theorem Tracked.anew (h : stack.Tracked uses place layer) {d : Declarator} {body : List Statement}
    (hvariables : layer.locals = (Layer.round d body).locals) :
    stack.Tracked uses place (.round d body) := by
  obtain ⟨top, htop, hfits, hbehind⟩ := h.exists_top
  refine { linked := h.linked, aligned := ?_, within := List.Subset.refl _, hosted := h.hosted,
           topHosted := ?_ }
  · rw [htop, aligns_cons h.linked]
    refine ⟨⟨?_, ?_⟩, hbehind⟩
    · intro name type hname
      cases hname
    · intro name hname
      obtain ⟨token, htoken⟩ := hfits.binds name hname
      have hmem := h.within htoken
      rw [hvariables] at hmem
      exact ⟨token, hmem⟩
  · rw [← hvariables]
    exact h.topHosted

end Tracked

end Stack

end ScopedScript
