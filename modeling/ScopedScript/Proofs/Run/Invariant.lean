import ScopedScript.Proofs.Run.Confinement

/-!
# What every operation keeps, every run keeps

A running program changes its state in few ways: it prints, assigns and declares, and it enters and
leaves frames. A property of states that each of these keeps holds at every moment of every run and
behind it, whatever comes of the run.

An assigned or declared value has been made to fit the declared type before it is stored, so an
operation has to keep the property only for values that fit.
-/

namespace ScopedScript

/-- A value fits the declared type of the nearest variable of a name, if that has one. -/
def Machine.Admits (m : Machine) (name : String) (v : Value) : Prop :=
  ∀ type, (m.stack.get? name).bind (·.type) = some type → v.type = type

/-- What a frame links to is there as long as the frame is. -/
theorem Stack.Linked.pop {stack : Stack} (h : stack.Linked) : stack.pop.Linked := by
  have hframes : ∀ i, i < stack.frames.size - 1 → stack.pop.frames[i]? = stack.frames[i]? :=
    fun i hi => pop_frames hi
  intro i frame hframe
  have hi : i < stack.pop.frames.size := (Array.getElem?_eq_some_iff.mp hframe).1
  rw [Stack.pop, Array.size_pop] at hi
  rw [hframes i hi] at hframe
  have hlinked := h i frame hframe
  unfold Frame.LinkedAt at hlinked ⊢
  cases houter : frame.outer with
  | none =>
    rw [houter] at hlinked
    exact hlinked
  | some outer =>
    rw [houter] at hlinked
    obtain ⟨hlt, around, haround, hlevel⟩ := hlinked
    exact ⟨hlt, around, (hframes outer (by omega)).trans haround, hlevel⟩

namespace Exec

/-- Every operation of a running program keeps a property of states. -/
structure Invariant (I : Machine → Prop) : Prop where
  write : ∀ {m : Machine} (output : Output), I m → I { m with output }
  store : ∀ {m : Machine} {name : String} {v : Value}, I m → m.Admits name v →
    I { m with stack := m.stack.set name v }
  declare : ∀ {m : Machine} {name : String} {type : Ty} {v : Option Value}, I m →
    (∀ first, v = some first → first.type = type) →
      I { m with stack := m.stack.declare name (some type) v }
  declareFunction : ∀ {m : Machine} (decl : FunctionDecl), I m →
    I { m with stack := m.stack.declareFunction decl }
  pushFrame : ∀ {m : Machine} (name : String) (kind : FrameKind), I m → I (m.pushFrame name kind)
  popFrame : ∀ {m : Machine}, I m → I m.popFrame
  /-- A call is entered, of a function that a visible frame holds. -/
  pushCall : ∀ {m : Machine} (name : String) {outer : Nat}, I m → outer ∈ m.stack.chain →
    I (m.pushCall name outer)
  popCall : ∀ {m : Machine}, I m → I m.popCall
  finish : ∀ {m : Machine} (ok : Bool), I m → I (m.finish ok)

/-- From states with a property two runs are the same, and end in a state with the property. -/
def Upholds (I : Machine → Prop) {α : Type} (x y : Exec α) : Prop :=
  ∀ m, I m → x m = y m ∧ I (final y m)

section Upholds

variable {I : Machine → Prop} {α β : Type}

theorem Upholds.of_final {x : Exec α} (h : ∀ m, I m → I (final x m)) : Upholds I x x :=
  fun m hm => ⟨rfl, h m hm⟩

theorem Upholds.bind {x y : Exec α} {f g : α → Exec β} (h : Upholds I x y)
    (hf : ∀ a, Upholds I (f a) (g a)) : Upholds I (x >>= f) (y >>= g) := by
  intro m hm
  obtain ⟨heq, hfinal⟩ := h m hm
  unfold final at hfinal ⊢
  rw [bind_apply, bind_apply, heq]
  cases hy : y m with
  | error halt after =>
    rw [hy] at hfinal
    exact ⟨rfl, hfinal⟩
  | ok a after =>
    rw [hy] at hfinal
    exact hf a after hfinal

theorem upholds_composes (I : Machine → Prop) : Composes (Upholds I) where
  pure _ := .of_final fun _ hm => hm
  halt _ := .of_final fun _ hm => hm
  bind := .bind

theorem upholds_load (name : String) (position : Position) :
    Upholds I (load name position) (load name position) := by
  refine .of_final fun m hm => ?_
  rw [final_load]
  exact hm

theorem upholds_write (hwrite : ∀ {m : Machine} (output : Output), I m → I { m with output })
    (text : String) (position : Position) :
    Upholds I (write text position) (write text position) := by
  refine .of_final fun m hm => ?_
  obtain ⟨output, hfinal⟩ := final_write text position m
  rw [hfinal]
  exact hwrite output hm

theorem Upholds.bracket {x y : Exec α} (h : Upholds I x y) {enter leave : Machine → Machine}
    {m : Machine} (henter : I (enter m)) (hleave : ∀ {m}, I m → I (leave m)) :
    Exec.bracket enter leave x m = Exec.bracket enter leave y m ∧
      I (final (Exec.bracket enter leave y) m) := by
  obtain ⟨heq, hfinal⟩ := h (enter m) henter
  unfold final at hfinal ⊢
  unfold Exec.bracket
  rw [heq]
  cases hy : y (enter m) with
  | error halt after =>
    rw [hy] at hfinal
    exact ⟨rfl, hleave hfinal⟩
  | ok a after =>
    rw [hy] at hfinal
    exact ⟨rfl, hleave hfinal⟩

end Upholds

namespace Invariant

variable {I : Machine → Prop} (h : Invariant I)

include h

/-! ## Operations -/

theorem upholds_store (name : String) (v : Value) (position : Position) :
    Upholds I (Exec.store name v position) (Exec.store name v position) := by
  refine .of_final fun m hm => ?_
  unfold final Exec.store
  simp only [bind_apply, get_apply]
  cases htype : (m.stack.get? name).bind (·.type) with
  | none =>
    refine h.store hm fun type hsome => ?_
    rw [htype] at hsome
    cases hsome
  | some type =>
    simp only [coerce]
    cases hfits : v.coerce? type with
    | none => exact hm
    | some fitting =>
      refine h.store hm fun type' hsome => ?_
      obtain rfl : type = type' := Option.some.inj (htype.symm.trans hsome)
      exact Value.type_of_coerce? hfits

theorem upholds_fit (name : String) (type : Ty) (v : Value) (position : Position) :
    Upholds I (fit name type v position) (fit name type v position) := by
  refine .of_final fun m hm => ?_
  unfold final fit coerce
  cases hfits : v.coerce? type with
  | none => exact hm
  | some fitting =>
    refine h.declare hm fun first hfirst => ?_
    obtain rfl : fitting = first := Option.some.inj hfirst
    exact Value.type_of_coerce? hfits

/-- All rules keep an invariant. -/
theorem respects : Respects (Upholds I) (Upholds I) where
  evaluation := upholds_composes I
  execution := upholds_composes I
  weaken hupholds := hupholds
  load := upholds_load
  write := upholds_write h.write
  store := h.upholds_store
  declare name type := .of_final fun m hm => h.declare hm nofun
  fit := h.upholds_fit
  declareFunction decl := .of_final fun m hm => h.declareFunction decl hm
  inFrame name kind hbody := fun m hm => hbody.bracket (h.pushFrame name kind hm) h.popFrame
  call name arguments position hinside hbuiltin := by
    intro m hm
    unfold call
    rw [bind_apply, bind_apply, final, bind_apply]
    simp only [get_apply]
    cases hfound : m.stack.findFunction? name with
    | none =>
      cases Builtin.ofName? name with
      | none => exact ⟨rfl, hm⟩
      | some b => exact hbuiltin b m hm
    | some found =>
      simp only [callFunction_apply]
      split
      · split
        · exact ⟨rfl, hm⟩
        · have hseen := mem_chain_of_findFunction? hfound
          exact (hinside found.2).bracket (h.pushCall found.2.name hm hseen) h.popCall
      · exact ⟨rfl, hm⟩

/-! ## Runs -/

omit h in
/-- A run that is made to halt once the property is lost passes all moments. -/
theorem pass_upholds (halt : Halt) (moment : Moment) :
    Upholds I (pass (fun _ now => ¬ I now) halt moment) (pure ()) :=
  fun _ hm => ⟨pass_apply (not_not_intro hm), hm⟩

/-- Evaluation and execution keep an invariant, and no moment on the way breaks it. -/
theorem until_upholds (halt : Halt) (fuel : Nat) :
    (∀ e, Upholds I (evalUntil (fun _ now => ¬ I now) halt fuel e) (eval fuel e)) ∧
      ∀ s, Upholds I (execUntil (fun _ now => ¬ I now) halt fuel s) (exec fuel s) := by
  refine until_rel h.respects (fun _ => pass_upholds halt _) (fun _ => pass_upholds halt _) ?_ fuel
  intro eval eval' exec exec' heval hexec name arguments position
  exact callUntil_rel h.respects.evaluation (pass_upholds halt _)
    (call_rel h.respects heval hexec name arguments position)

/-- A program keeps an invariant, and no moment of it breaks it. -/
theorem program_upholds (halt : Halt) (fuel : Nat) (p : Program) :
    Upholds I (programUntil (fun _ now => ¬ I now) halt fuel p) (program fuel p) := by
  intro m hm
  obtain ⟨heq, hblock⟩ := block_rel h.respects (h.until_upholds halt fuel).2 p
    (m.pushFrame "global" .global) (h.pushFrame _ _ hm)
  obtain ⟨ok, hfinal⟩ := final_program fuel p m
  rw [hfinal]
  exact ⟨programBy_congr heq, h.finish ok hblock⟩

/-! ## Invariants together -/

/-- Two invariants are one. -/
theorem and {J : Machine → Prop} (h' : Invariant J) : Invariant fun m => I m ∧ J m where
  write output hm := ⟨h.write output hm.1, h'.write output hm.2⟩
  store hm hadmits := ⟨h.store hm.1 hadmits, h'.store hm.2 hadmits⟩
  declare hm hfits := ⟨h.declare hm.1 hfits, h'.declare hm.2 hfits⟩
  declareFunction decl hm := ⟨h.declareFunction decl hm.1, h'.declareFunction decl hm.2⟩
  pushFrame name kind hm := ⟨h.pushFrame name kind hm.1, h'.pushFrame name kind hm.2⟩
  popFrame hm := ⟨h.popFrame hm.1, h'.popFrame hm.2⟩
  pushCall name _ hm hseen := ⟨h.pushCall name hm.1 hseen, h'.pushCall name hm.2 hseen⟩
  popCall hm := ⟨h.popCall hm.1, h'.popCall hm.2⟩
  finish ok hm := ⟨h.finish ok hm.1, h'.finish ok hm.2⟩

end Invariant

/-- Links are in order at every moment. -/
theorem linked_invariant : Invariant fun m => m.stack.Linked where
  write _ hm := hm
  store hm _ := hm.sameShape (Stack.set_touched _ _).toSameShape
  declare hm _ := hm.sameShape (Stack.declare_touched _ _ _).toSameShape
  declareFunction decl hm := hm.sameShape (Stack.declareFunction_touched decl).toSameShape
  pushFrame name kind hm := Machine.linked_pushFrame hm name kind
  popFrame hm := by
    rw [Machine.popFrame_stack]
    exact hm.pop
  pushCall name _ hm hseen := Machine.linked_pushCall hm hseen name
  popCall hm := by
    rw [Machine.popCall_stack]
    exact hm.pop
  finish {m} ok hm := by
    obtain ⟨_, _, hfinish⟩ := Machine.finish_eq m ok
    rw [hfinish]
    exact hm.pop

end Exec

end ScopedScript
