import ScopedScript.Proofs.Log.Replay
import ScopedScript.Proofs.Run.Regime

/-!
# What a run records of its frames

A run records every frame that it enters and leaves, and every call. At every moment the frames that
are open in the record are those of the stack: a frame is recorded as it is entered and as it is
left, with the depth that the stack has then, and a call with the number of calls that are under
way, for each of which there is a frame.

A run leaves the frames behind that it found, whatever comes of it. So the record of a program that
began with nothing closes every frame that it opened.
-/

namespace ScopedScript

/-! ## Records that tell the stack -/

namespace Stack

/-- What a record tells of a frame. -/
def opening (frame : Frame) : OpenFrame := ⟨frame.name, frame.kind, frame.level⟩

/-- What a record tells of the frames, the top one first. -/
def openings (stack : Stack) : List OpenFrame := (stack.frames.toList.map opening).reverse

variable {stack after : Stack}

theorem SameShape.openings (h : stack.SameShape after) : after.openings = stack.openings := by
  have hmap : after.frames.toList.map opening = stack.frames.toList.map opening := by
    refine List.ext_getElem? fun i => ?_
    have hshape := congrArg (Option.map fun shape => OpenFrame.mk shape.1 shape.2.1 shape.2.2.1)
      (h.shape i)
    rw [shapeAt?, shapeAt?, Option.map_map, Option.map_map] at hshape
    rw [List.getElem?_map, List.getElem?_map, Array.getElem?_toList, Array.getElem?_toList]
    exact hshape
  rw [Stack.openings, hmap, Stack.openings]

theorem length_openings (stack : Stack) : stack.openings.length = stack.depth := by
  simp only [openings, List.length_reverse, List.length_map, Array.length_toList, depth]

theorem openings_pushLinked (stack : Stack) (name : String) (kind : FrameKind)
    (outer : Option Nat) : (stack.pushLinked name kind outer).openings =
      ⟨name, kind, stack.levelAbove outer⟩ :: stack.openings := by
  simp only [openings, pushLinked, Array.toList_push, List.map_append, List.map_cons, List.map_nil,
    List.reverse_append, List.reverse_singleton, List.singleton_append, opening, newFrame]

/-- What is told first is the top frame. -/
theorem exists_top_of_openings {innermost : OpenFrame} {around : List OpenFrame}
    (h : stack.openings = innermost :: around) :
    (∃ frame, stack.top? = some frame ∧ opening frame = innermost) ∧
      stack.pop.openings = around := by
  obtain ⟨⟨frames⟩, pushed⟩ := stack
  simp only [openings, pop, top?] at h ⊢
  rw [List.reverse_eq_cons_iff, List.map_eq_append_iff] at h
  obtain ⟨below, last, rfl, hbelow, hlast⟩ := h
  obtain ⟨frame, rfl, hframe⟩ := List.map_eq_singleton_iff.mp hlast
  refine ⟨⟨frame, ?_, hframe⟩, ?_⟩
  · simp
  · simp [hbelow]

end Stack

namespace Machine

/-- The record of a state tells its stack, and how many calls are under way. -/
structure Recorded (m : Machine) : Prop where
  /-- The frames that are open in the record are those of the stack. -/
  opened : openFrames m.events.reverse = some m.stack.openings
  /-- There is a frame for every call that is under way. -/
  calls : m.stack.openings.countP (·.kind = .function) = m.callDepth

variable {m after : Machine}

theorem recorded_of_empty (hframes : m.stack.frames = #[]) (hcalls : m.callDepth = 0)
    (hevents : m.events = []) : m.Recorded where
  opened := by
    rw [hevents, Stack.openings, hframes]
    rfl
  calls := by
    rw [hcalls, Stack.openings, hframes]
    rfl

/-- A change of what frames hold leaves the record as it is. -/
theorem Recorded.of_sameShape (h : m.Recorded) (hshape : m.stack.SameShape after.stack)
    (hcalls : after.callDepth = m.callDepth) (hevents : after.events = m.events) :
    after.Recorded where
  opened := by rw [hevents, hshape.openings, h.opened]
  calls := by rw [hshape.openings, h.calls, hcalls]

theorem openFrames_log {event : Event} {events : List Event} {opened : List OpenFrame}
    (h : openFrames events.reverse = some opened) :
    openFrames (event :: events).reverse = event.replayFrames opened := by
  rw [List.reverse_cons]
  exact openFrames_concat h event

/-- A frame that is entered is recorded as the one that is on top. -/
theorem Recorded.opened_pushed (h : m.Recorded) (name : String) (kind : FrameKind)
    (outer : Option Nat) :
    openFrames (Event.framePushed name kind (m.stack.levelAbove outer) (m.stack.depth + 1) ::
      m.events).reverse = some (m.stack.pushLinked name kind outer).openings := by
  rw [openFrames_log h.opened, Stack.openings_pushLinked, Event.replayFrames, m.stack.length_openings,
    if_pos rfl]

theorem Recorded.pushFrame (h : m.Recorded) (name : String) {kind : FrameKind}
    (hkind : kind ≠ .function) : (m.pushFrame name kind).Recorded where
  opened := by
    rw [pushFrame_recorded, pushFrame_stack]
    exact h.opened_pushed name kind _
  calls := by
    obtain ⟨_, heq⟩ := m.pushFrame_eq name kind
    rw [pushFrame_stack, Stack.push, Stack.openings_pushLinked,
      List.countP_cons_of_neg (by simpa using hkind), h.calls, heq]

theorem Recorded.pushCall (h : m.Recorded) (name : String) (outer : Nat) :
    (m.pushCall name outer).Recorded := by
  have hcalls : (m.stack.pushLinked name .function (some outer)).openings.countP
      (·.kind = .function) = m.callDepth + 1 := by
    rw [Stack.openings_pushLinked, List.countP_cons_of_pos (by simp), h.calls]
  constructor
  · rw [pushCall_recorded, pushCall_stack, openFrames_log (h.opened_pushed name .function _),
      Event.replayFrames, hcalls, if_pos rfl]
    rfl
  · obtain ⟨_, heq⟩ := m.pushCall_eq name outer
    rw [pushCall_stack, Stack.pushFunction, hcalls, heq]

/-- The frame that is left is recorded as it was entered. -/
theorem Recorded.opened_popped (h : m.Recorded) {innermost : OpenFrame} {around : List OpenFrame}
    (hopenings : m.stack.openings = innermost :: around) :
    openFrames m.popFrame.events.reverse = some around ∧ m.popFrame.stack.openings = around := by
  obtain ⟨⟨frame, htop, rfl⟩, hpop⟩ := Stack.exists_top_of_openings hopenings
  have hdepth : m.stack.depth - 1 = around.length := by
    rw [← m.stack.length_openings, hopenings]
    rfl
  refine ⟨?_, by rw [popFrame_stack, hpop]⟩
  rw [popFrame_recorded htop, openFrames_log h.opened, hopenings, Event.replayFrames]
  exact if_pos ⟨rfl, hdepth⟩

theorem Recorded.popFrame (h : m.Recorded) {innermost : OpenFrame} {around : List OpenFrame}
    (hopenings : m.stack.openings = innermost :: around) (hkind : innermost.kind ≠ .function) :
    m.popFrame.Recorded ∧ m.popFrame.stack.openings = around := by
  obtain ⟨hopened, haround⟩ := h.opened_popped hopenings
  obtain ⟨_, heq⟩ := m.popFrame_eq
  have hcalls := h.calls
  rw [hopenings, List.countP_cons_of_neg (by simpa using hkind)] at hcalls
  refine ⟨⟨by rw [hopened, haround], ?_⟩, haround⟩
  rw [haround, hcalls, heq]

theorem Recorded.popCall (h : m.Recorded) {innermost : OpenFrame} {around : List OpenFrame}
    (hopenings : m.stack.openings = innermost :: around) (hkind : innermost.kind = .function) :
    m.popCall.Recorded ∧ m.popCall.stack.openings = around := by
  obtain ⟨hopened, haround⟩ := h.opened_popped hopenings
  obtain ⟨_, heq⟩ := m.popCall_eq
  have hcalls := h.calls
  rw [hopenings, List.countP_cons_of_pos (by simpa using hkind)] at hcalls
  have haround' : m.popCall.stack.openings = around := haround
  refine ⟨⟨?_, ?_⟩, haround'⟩
  · rw [haround']
    exact hopened
  · rw [haround', heq]
    exact Nat.eq_sub_of_add_eq hcalls

end Machine

/-! ## Runs -/

namespace Exec

theorem bracket_congr {α : Type} {x y : Exec α} {enter leave : Machine → Machine} {m : Machine}
    (h : x (enter m) = y (enter m)) : bracket enter leave x m = bracket enter leave y m := by
  unfold bracket
  rw [h]

theorem final_bracket {α : Type} (x : Exec α) (enter leave : Machine → Machine) (m : Machine) :
    final (bracket enter leave x) m = leave (final x (enter m)) := by
  unfold final bracket
  cases x (enter m) <;> rfl

/-- From states that the record tells two runs are the same, and keep the record and the frames that
are open. -/
def Records {α : Type} (x y : Exec α) : Prop :=
  ∀ m : Machine, m.Recorded → x m = y m ∧
    (final y m).Recorded ∧ (final y m).stack.openings = m.stack.openings

section Records

variable {α β : Type} {x y : Exec α}

theorem Records.bind {f g : α → Exec β} (h : Records x y) (hf : ∀ a, Records (f a) (g a)) :
    Records (x >>= f) (y >>= g) := by
  intro m hm
  obtain ⟨heq, hrecorded, hopenings⟩ := h m hm
  unfold final at hrecorded hopenings ⊢
  rw [bind_apply, bind_apply, heq]
  cases hy : y m with
  | error halt after =>
    rw [hy] at hrecorded hopenings
    exact ⟨rfl, hrecorded, hopenings⟩
  | ok a after =>
    rw [hy] at hrecorded hopenings
    obtain ⟨hsame, hlast, hopen⟩ := hf a after hrecorded
    exact ⟨hsame, hlast, hopen.trans hopenings⟩

theorem records_composes : Composes Records where
  pure _ _ hm := ⟨rfl, hm, rfl⟩
  halt _ _ hm := ⟨rfl, hm, rfl⟩
  bind := .bind

/-- What changes no more than what frames hold. -/
theorem records_of_sameShape
    (h : ∀ m, m.stack.SameShape (final x m).stack ∧ (final x m).callDepth = m.callDepth ∧
      (final x m).events = m.events) : Records x x := by
  intro m hm
  obtain ⟨hshape, hcalls, hevents⟩ := h m
  exact ⟨rfl, hm.of_sameShape hshape hcalls hevents, hshape.openings⟩

theorem Records.inFrame (h : Records x y) (name : String) {kind : FrameKind}
    (hkind : kind ≠ .function) : Records (inFrame name kind x) (inFrame name kind y) := by
  intro m hm
  obtain ⟨heq, hrecorded, hopenings⟩ := h _ (hm.pushFrame name hkind)
  rw [Machine.pushFrame_stack, Stack.push, Stack.openings_pushLinked] at hopenings
  unfold Exec.inFrame
  rw [final_bracket]
  exact ⟨bracket_congr heq, hrecorded.popFrame hopenings hkind⟩

theorem Records.inCall (h : Records x y) (name : String) (outer : Nat) :
    Records (inCall name outer x) (inCall name outer y) := by
  intro m hm
  obtain ⟨heq, hrecorded, hopenings⟩ := h _ (hm.pushCall name outer)
  rw [Machine.pushCall_stack, Stack.pushFunction, Stack.openings_pushLinked] at hopenings
  unfold Exec.inCall
  rw [final_bracket]
  exact ⟨bracket_congr heq, hrecorded.popCall hopenings rfl⟩

theorem records_modify {change : Stack → Stack}
    (h : ∀ stack : Stack, stack.SameShape (change stack)) :
    Records (modify fun m => { m with stack := change m.stack })
      (modify fun m => { m with stack := change m.stack }) :=
  records_of_sameShape fun m => ⟨h m.stack, rfl, rfl⟩

theorem records_declare (name : String) (type : Ty) (v : Option Value) :
    Records (declare name type v) (declare name type v) :=
  records_modify fun _ => (Stack.declare_touched name (some type) v).toSameShape

theorem records_fit (name : String) (type : Ty) (v : Value) (position : Position) :
    Records (fit name type v position) (fit name type v position) :=
  fit_rel records_composes (records_declare name type) v position

theorem records_write (text : String) (position : Position) :
    Records (write text position) (write text position) := by
  refine records_of_sameShape fun m => ?_
  obtain ⟨output, hfinal⟩ := final_write text position m
  rw [hfinal]
  exact ⟨.refl _, rfl, rfl⟩

theorem records_load (name : String) (position : Position) :
    Records (load name position) (load name position) := by
  refine records_of_sameShape fun m => ?_
  rw [final_load]
  exact ⟨.refl _, rfl, rfl⟩

theorem records_store (name : String) (v : Value) (position : Position) :
    Records (store name v position) (store name v position) := by
  refine records_of_sameShape fun m => ?_
  obtain hfinal | ⟨v', hfinal⟩ := final_store name v position m
  · rw [hfinal]
    exact ⟨.refl _, rfl, rfl⟩
  · rw [hfinal]
    exact ⟨(Stack.set_touched name v').toSameShape, rfl, rfl⟩

/-- Operations on variables keep the record. -/
theorem records_operates : Operates .keep Records Records where
  evaluation := records_composes.combines
  execution := records_composes.combines
  weaken h := h
  load := records_load
  store := records_store
  declare name type := records_declare name type none
  fit := records_fit

/-- So do frames. -/
theorem records_encloses : Encloses .keep Records Records where
  outside := records_composes.combines
  inside := records_composes.combines
  fit := records_fit
  inFrame name _ hkind h := h.inFrame name hkind

theorem records_callFunction {eval eval' : Expr → Exec (Option Value)}
    {exec exec' : Statement → Exec Flow} {decl : FunctionDecl} {arguments : List Value}
    {position : Position}
    (hinside : Records (inside eval exec decl arguments position)
      (inside eval' exec' decl arguments position)) (outer : Nat) :
    Records (callFunction eval exec decl outer arguments position)
      (callFunction eval' exec' decl outer arguments position) := by
  intro m hm
  unfold final
  rw [callFunction_apply, callFunction_apply]
  by_cases haccepts : decl.arity.accepts arguments.length
  · rw [if_pos haccepts, if_pos haccepts]
    by_cases hdepth : m.maxCallDepth ≤ m.callDepth
    · rw [if_pos hdepth, if_pos hdepth]
      exact ⟨rfl, hm, rfl⟩
    · rw [if_neg hdepth, if_neg hdepth]
      exact hinside.inCall decl.name outer m hm
  · rw [if_neg haccepts, if_neg haccepts]
    exact ⟨rfl, hm, rfl⟩

/-- A call keeps the record, whatever function it finds. -/
theorem records_call {eval eval' : Expr → Exec (Option Value)} {exec exec' : Statement → Exec Flow}
    (heval : ∀ e, Records (eval e) (eval' e)) (hexec : ∀ s, Records (exec s) (exec' s))
    (name : String) (arguments : List Value) (position : Position) :
    Records (call eval exec name arguments position)
      (call eval' exec' name arguments position) := by
  intro m hm
  unfold final
  cases hfound : m.stack.findFunction? name with
  | some found =>
    rw [call_of_function hfound, call_of_function hfound]
    have hinside : Records (inside eval exec found.2 arguments position)
        (inside eval' exec' found.2 arguments position) :=
      inside_keep records_operates (fun e _ => heval e) (fun s _ => hexec s) arguments position
    exact records_callFunction hinside found.1 m hm
  | none =>
    cases hname : Builtin.ofName? name with
    | none =>
      rw [call_of_unknown hfound hname, call_of_unknown hfound hname]
      exact ⟨rfl, hm, rfl⟩
    | some b =>
      rw [call_of_builtin hfound hname, call_of_builtin hfound hname]
      exact builtin_along records_composes.combines records_write b arguments position m hm

/-- A run that is made to halt once the record does not tell the stack passes all moments. -/
theorem pass_records (halt : Halt) (moment : Moment) :
    Records (pass (fun _ now => ¬ now.Recorded) halt moment) (pure ()) :=
  fun _ hm => ⟨pass_apply (not_not_intro hm), hm, rfl⟩

/-- Evaluation and execution keep the record, and it tells the stack at every moment on the way. -/
theorem until_records (halt : Halt) (fuel : Nat) :
    (∀ e, Records (evalUntil (fun _ now => ¬ now.Recorded) halt fuel e) (eval fuel e)) ∧
      ∀ s, Records (execUntil (fun _ now => ¬ now.Recorded) halt fuel s) (exec fuel s) := by
  induction fuel with
  | zero => exact ⟨fun _ => records_composes.halt _, fun _ => records_composes.halt _⟩
  | succ fuel ih =>
    obtain ⟨heval, hexec⟩ := ih
    constructor
    · intro e
      refine watched_rel records_composes (pass_records halt _) (pass_records halt _)
        (evalStep_keep records_composes.combines records_load ?_ fun part _ => heval part)
      intro name arguments position
      exact callUntil_rel records_composes (pass_records halt _)
        (records_call heval hexec name arguments position)
    · intro s
      refine watched_rel records_composes (pass_records halt _) (pass_records halt _) ?_
      cases hs : s.isCompound with
      | true =>
        exact compoundStep_keep records_encloses fuel hs (fun e _ => heval e) (fun s _ => hexec s)
          fun _ _ _ _ => records_composes.halt _
      | false =>
        exact plainStep_keep records_operates fuel hs (fun e _ => heval e) fun decl _ =>
          records_modify fun _ => (Stack.declareFunction_touched decl).toSameShape

/-- The record of a program that began with nothing tells its stack at every moment, and closes all
its frames. -/
theorem programUntil_recorded (halt : Halt) (fuel : Nat) (p : Program) (maxCallDepth : Nat)
    (outputLimit : Option Nat) :
    programUntil (fun _ now => ¬ now.Recorded) halt fuel p (.initial maxCallDepth outputLimit) =
        program fuel p (.initial maxCallDepth outputLimit) ∧
      openFrames (final (program fuel p) (.initial maxCallDepth outputLimit)).events.reverse =
        some [] := by
  have hempty : (Machine.initial maxCallDepth outputLimit).Recorded :=
    Machine.recorded_of_empty rfl rfl rfl
  have hblock : Records (block (execUntil _ halt fuel) p) (block (exec fuel) p) :=
    block_keep records_composes.combines fun s _ => (until_records halt fuel).2 s
  have hentered := hempty.pushFrame "global" (show FrameKind.global ≠ .function by decide)
  obtain ⟨heq, hrecorded, hopenings⟩ := hblock _ hentered
  rw [Machine.pushFrame_stack, Stack.push, Stack.openings_pushLinked] at hopenings
  obtain ⟨ok, hfinal⟩ := final_program fuel p (.initial maxCallDepth outputLimit)
  rw [hfinal]
  refine ⟨programBy_congr heq, ?_⟩
  exact (Machine.openFrames_log (hrecorded.opened_popped hopenings).1).trans rfl

end Records

end Exec

end ScopedScript
