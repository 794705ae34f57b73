import ScopedScript.Proofs.Run.Confinement
import ScopedScript.Proofs.Session

/-!
# Programs that run one after the other

A session runs one program after the other on the same machine. What was printed, recorded and
counted before stands before what a program adds, and the program does what it does on a fresh
machine: no rule reads any of it. The variables of the program before are still there, but they are
replaced when a program comes to its end and not read before that.

A program can stop anywhere inside its frames. Behind it none is left, and no call is under way, so
the next one starts as on a fresh machine.

Writing is taken to never fail: outputs have no limit.
-/

namespace ScopedScript

/-! ## States with a past -/

namespace FrameCounts

/-- The counts of both. -/
def plus (counts more : FrameCounts) : FrameCounts where
  global := counts.global + more.global
  conditional := counts.conditional + more.conditional
  whileRound := counts.whileRound + more.whileRound
  forLoop := counts.forLoop + more.forLoop
  function := counts.function + more.function

theorem get_plus (counts more : FrameCounts) (kind : FrameKind) :
    (counts.plus more).get kind = counts.get kind + more.get kind := by
  cases kind <;> rfl

theorem plus_add (counts more : FrameCounts) (kind : FrameKind) :
    counts.plus (more.add kind) = (counts.plus more).add kind := by
  cases kind <;> rfl

theorem plus_zero (counts : FrameCounts) : counts.plus zero = counts := rfl

end FrameCounts

/-- Behind what was there before stands the whole text. -/
theorem Output.textFrom_append (output : Output) (before : ByteArray) :
    ({ output with bytes := before ++ output.bytes } : Output).textFrom before.size =
      output.text := by
  unfold text textFrom
  rw [ByteArray.extract_append_eq_right rfl ByteArray.size_append,
    ByteArray.extract_zero_size]

namespace Stack

/-- The stack when frames had been entered before. -/
def after (stack past : Stack) : Stack :=
  { stack with pushed := past.pushed.plus stack.pushed }

variable (stack past : Stack)

theorem modifyTop_after (change : Frame → Frame) :
    (stack.modifyTop change).after past = (stack.after past).modifyTop change := by
  have htop : (stack.after past).topIndex? = stack.topIndex? := rfl
  rw [modifyTop, modifyTop, htop]
  cases stack.topIndex? <;> rfl

theorem set_after (name : String) (value : Value) :
    (stack.set name value).after past = (stack.after past).set name value := by
  have hresolve : (stack.after past).resolve? name = stack.resolve? name := rfl
  rw [set, set, hresolve]
  cases stack.resolve? name with
  | none => exact stack.modifyTop_after past _
  | some i => rfl

theorem pushLinked_after (name : String) (kind : FrameKind) (outer : Option Nat) :
    (stack.pushLinked name kind outer).after past =
      (stack.after past).pushLinked name kind outer := by
  simp only [pushLinked, after, FrameCounts.plus_add]
  rfl

end Stack

namespace Machine

/-- The state when another one came before: its counts are in the counts, what it printed and
recorded comes first, and its variables are those of the last program. -/
def after (m past : Machine) : Machine :=
  { m with
    stack := m.stack.after past.stack
    output := { m.output with bytes := past.output.bytes ++ m.output.bytes }
    globals := past.globals
    events := m.events ++ past.events }

variable (m past : Machine)

theorem callDepth_after : (m.after past).callDepth = m.callDepth := rfl

theorem log_after (event : Event) : (m.log event).after past = (m.after past).log event := rfl

@[simp] theorem pushFrame_output (name : String) (kind : FrameKind) :
    (m.pushFrame name kind).output = m.output := by
  obtain ⟨_, heq⟩ := pushFrame_eq m name kind
  rw [heq]

@[simp] theorem pushCall_output (name : String) (outer : Nat) :
    (m.pushCall name outer).output = m.output := by
  obtain ⟨_, heq⟩ := pushCall_eq m name outer
  rw [heq]

@[simp] theorem popFrame_output : m.popFrame.output = m.output := by
  obtain ⟨_, heq⟩ := popFrame_eq m
  rw [heq]

@[simp] theorem popCall_output : m.popCall.output = m.output := by
  obtain ⟨_, heq⟩ := popCall_eq m
  rw [heq]

@[simp] theorem finish_output (ok : Bool) : (m.finish ok).output = m.output := by
  obtain ⟨_, _, heq⟩ := finish_eq m ok
  rw [heq]

theorem logPush_after : m.logPush.after past = (m.after past).logPush := by
  have htop : (m.after past).stack.top? = m.stack.top? := rfl
  rw [logPush, logPush, htop]
  cases m.stack.top? <;> rfl

theorem pushFrame_after (name : String) (kind : FrameKind) :
    (m.pushFrame name kind).after past = (m.after past).pushFrame name kind := by
  rw [pushFrame, logPush_after, pushFrame]
  simp only [after, Stack.push, Stack.pushLinked_after]
  rfl

theorem pushCall_after (name : String) (outer : Nat) :
    (m.pushCall name outer).after past = (m.after past).pushCall name outer := by
  rw [pushCall, pushCall]
  dsimp only
  rw [log_after, ← callDepth_after (logPush _) past, logPush_after]
  simp only [after, Stack.pushFunction, Stack.pushLinked_after]

theorem popFrame_after : m.popFrame.after past = (m.after past).popFrame := by
  have htop : (m.after past).stack.top? = m.stack.top? := rfl
  rw [popFrame, popFrame, htop]
  cases m.stack.top? <;> rfl

theorem popCall_after : m.popCall.after past = (m.after past).popCall := by
  simp only [popCall, ← popFrame_after]
  rfl

/-- A program leaves its own variables, whatever those of the program before were. -/
theorem finish_after {frame : Frame} (htop : m.stack.top? = some frame) (ok : Bool) :
    (m.after past).finish ok =
      { (m.finish ok).after past with globals := (m.finish ok).globals } := by
  have hsame : (m.after past).stack.top? = some frame := htop
  simp only [finish, htop, hsame, ← popFrame_after]
  rfl

end Machine

/-! ## Runs with a past -/

namespace Exec

/-- The end of a run, in another state. -/
def mapEnd {α : Type} (change : Machine → Machine) :
    EStateM.Result Halt Machine α → EStateM.Result Halt Machine α
  | .ok a last => .ok a (change last)
  | .error halt last => .error halt (change last)

/-- The second run does what the first does, when another state came before. The output has no
limit. -/
def Later (past : Machine) {α : Type} (x y : Exec α) : Prop :=
  ∀ m, m.output.limit = none →
    y (m.after past) = mapEnd (·.after past) (x m) ∧ (final x m).output.limit = none

variable {past : Machine} {α β : Type}

theorem Later.bind {x y : Exec α} {g k : α → Exec β} (h : Later past x y)
    (hg : ∀ a, Later past (g a) (k a)) : Later past (x >>= g) (y >>= k) := by
  intro m hm
  obtain ⟨heq, hlimit⟩ := h m hm
  unfold final at hlimit ⊢
  rw [bind_apply, bind_apply, heq]
  cases hx : x m with
  | ok a last =>
    rw [hx] at hlimit
    exact hg a last hlimit
  | error halt last =>
    rw [hx] at hlimit
    exact ⟨rfl, hlimit⟩

theorem later_composes (past : Machine) : Composes (Later past) where
  pure _ _ hm := ⟨rfl, hm⟩
  halt _ _ hm := ⟨rfl, hm⟩
  bind := .bind

theorem later_modify {change : Machine → Machine}
    (h : ∀ m : Machine, (change m).after past = change (m.after past))
    (houtput : ∀ m, (change m).output = m.output) : Later past (modify change) (modify change) :=
  fun m hm => ⟨congrArg (EStateM.Result.ok ()) (h m).symm,
    (congrArg Output.limit (houtput m)).trans hm⟩

theorem Later.bracket {x y : Exec α} (h : Later past x y) {enter leave : Machine → Machine}
    (henter : ∀ m : Machine, (enter m).after past = enter (m.after past))
    (hentered : ∀ m, (enter m).output = m.output)
    (hleave : ∀ m : Machine, (leave m).after past = leave (m.after past))
    (hleft : ∀ m, (leave m).output = m.output) :
    Later past (Exec.bracket enter leave x) (Exec.bracket enter leave y) := by
  intro m hm
  obtain ⟨heq, hlimit⟩ := h (enter m) ((congrArg Output.limit (hentered m)).trans hm)
  unfold final at hlimit ⊢
  unfold Exec.bracket
  rw [← henter, heq]
  cases hx : x (enter m) with
  | ok a last | error halt last =>
    rw [hx] at hlimit
    simp only [mapEnd, hleave]
    exact ⟨trivial, (congrArg Output.limit (hleft last)).trans hlimit⟩

/-! ## Operations -/

theorem later_load (name : String) (position : Position) :
    Later past (load name position) (load name position) := by
  intro m hm
  have hget : (m.after past).stack.get? name = m.stack.get? name := rfl
  rw [final_load]
  unfold load
  simp only [bind_apply, get_apply, hget]
  cases (m.stack.get? name).bind (·.value) <;> exact ⟨rfl, hm⟩

theorem later_write (text : String) (position : Position) :
    Later past (write text position) (write text position) := by
  intro m hm
  have hwrite := Output.write_of_limit_none hm text
  have hlimit : (m.after past).output.limit = none := hm
  have hlater := Output.write_of_limit_none hlimit text
  unfold final write
  simp only [bind_apply, get_apply, set_apply, hwrite, hlater]
  refine ⟨?_, hm⟩
  simp only [Machine.after, ByteArray.append_assoc]
  rfl

theorem later_set (name : String) (v : Value) :
    Later past (modify fun m => { m with stack := m.stack.set name v })
      (modify fun m => { m with stack := m.stack.set name v }) :=
  later_modify (fun m => by simp only [Machine.after, Stack.set_after]) fun _ => rfl

theorem later_store (name : String) (v : Value) (position : Position) :
    Later past (store name v position) (store name v position) := by
  intro m hm
  have hget : (m.after past).stack.get? name = m.stack.get? name := rfl
  unfold final store
  rw [bind_apply, bind_apply]
  simp only [get_apply, hget]
  cases (m.stack.get? name).bind (·.type) with
  | none => exact later_set name v m hm
  | some type =>
    have hcoerce := coerce_rel (later_composes past) name type v position
    exact hcoerce.bind (fun v => later_set name v) m hm

theorem later_declare (name : String) (type : Ty) (v : Option Value) :
    Later past (declare name type v) (declare name type v) :=
  later_modify (fun m => by simp only [Machine.after, Stack.declare, Stack.modifyTop_after])
    fun _ => rfl

theorem later_declareFunction (decl : FunctionDecl) :
    Later past (declareFunction decl) (declareFunction decl) :=
  later_modify (fun m => by
    simp only [Machine.after, Stack.declareFunction, Stack.modifyTop_after]) fun _ => rfl

/-- No rule depends on the past. -/
theorem later_respects (past : Machine) : Respects (Later past) (Later past) where
  evaluation := later_composes past
  execution := later_composes past
  weaken h := h
  load := later_load
  write := later_write
  store := later_store
  declare name type := later_declare name type none
  fit name type := fit_rel (later_composes past) (later_declare name type)
  declareFunction := later_declareFunction
  inFrame name kind h := h.bracket (Machine.pushFrame_after · past name kind)
    (Machine.pushFrame_output · name kind) (Machine.popFrame_after · past) Machine.popFrame_output
  call name arguments position hinside hbuiltin := by
    intro m hm
    have hfind : (m.after past).stack.findFunction? name = m.stack.findFunction? name := rfl
    unfold final call
    rw [bind_apply, bind_apply]
    simp only [get_apply, hfind]
    cases m.stack.findFunction? name with
    | none =>
      cases Builtin.ofName? name with
      | none => exact ⟨rfl, hm⟩
      | some b => exact hbuiltin b m hm
    | some found =>
      have hcall := (hinside found.2).bracket (Machine.pushCall_after · past found.2.name found.1)
        (Machine.pushCall_output · found.2.name found.1) (Machine.popCall_after · past)
        Machine.popCall_output
      -- The limit of calls is looked up in both states.
      have hdepths : (m.after past).maxCallDepth ≤ (m.after past).callDepth ↔
          m.maxCallDepth ≤ m.callDepth := Iff.rfl
      simp only [callFunction_apply]
      by_cases haccepts : found.2.arity.accepts arguments.length
      · rw [if_pos haccepts, if_pos haccepts]
        by_cases hdepth : m.maxCallDepth ≤ m.callDepth
        · rw [if_pos hdepth, if_pos (hdepths.mpr hdepth)]
          exact ⟨rfl, hm⟩
        · rw [if_neg hdepth, if_neg (mt hdepths.mp hdepth)]
          exact hcall m hm
      · rw [if_neg haccepts, if_neg haccepts]
        exact ⟨rfl, hm⟩

/-! ## Programs -/

/-- The frame of a program is there when its statements are done. -/
theorem exists_top (fuel : Nat) (p : Program) {m : Machine} (hlinked : m.stack.Linked) :
    ∃ frame, (final (block (exec fuel) p) (m.pushFrame "global" .global)).stack.top? =
      some frame := by
  have hblock := block_rel confines_respects (run_rel confines_respects fuel).2 p
    (m.pushFrame "global" .global) (Machine.linked_pushFrame hlinked _ _)
  have hdepth := hblock.2.stack.size
  rw [Machine.pushFrame_stack] at hdepth
  replace hdepth := hdepth.trans (m.stack.depth_pushLinked _ _ _)
  cases htop : (final (block (exec fuel) p) (m.pushFrame "global" .global)).stack.top? with
  | some frame => exact ⟨frame, rfl⟩
  | none =>
    rw [Array.back?_eq_none_iff.mp htop] at hdepth
    cases hdepth

/-- A program with a past does what it does without, but for what was there before. -/
theorem program_later (past : Machine) (fuel : Nat) (p : Program) {m : Machine}
    (hlinked : m.stack.Linked) (hlimit : m.output.limit = none) :
    program fuel p (m.after past) = mapEnd
        (fun last => { last.after past with globals := last.globals }) (program fuel p m) ∧
      (final (program fuel p) m).output.limit = none := by
  obtain ⟨frame, htop⟩ := exists_top fuel p hlinked
  obtain ⟨heq, hkept⟩ := block_rel (later_respects past) (run_rel (later_respects past) fuel).2 p
    (m.pushFrame "global" .global) ((congrArg Output.limit (m.pushFrame_output _ _)).trans hlimit)
  unfold final at htop hkept ⊢
  unfold program programBy
  rw [← Machine.pushFrame_after, heq]
  cases hblock : block (exec fuel) p (m.pushFrame "global" .global) with
  | ok _ last | error halt last =>
    rw [hblock] at htop hkept
    simp only [mapEnd, last.finish_after past htop]
    exact ⟨trivial, (congrArg Output.limit (last.finish_output _)).trans hkept⟩

end Exec

/-! ## Sessions -/

namespace Machine

/-- Nothing runs, and the output has no limit. -/
structure Idle (maxCallDepth : Nat) (m : Machine) : Prop where
  frames : m.stack.frames = #[]
  callDepth : m.callDepth = 0
  maxCallDepth_eq : m.maxCallDepth = maxCallDepth
  limit : m.output.limit = none

variable {maxCallDepth : Nat} {m : Machine}

theorem idle_initial (maxCallDepth : Nat) : (initial maxCallDepth none).Idle maxCallDepth :=
  ⟨rfl, rfl, rfl, rfl⟩

theorem Idle.linked (h : m.Idle maxCallDepth) : m.stack.Linked := .empty h.frames

/-- A state in which nothing runs is a fresh one with a past. -/
theorem Idle.eq_after (h : m.Idle maxCallDepth) :
    (initial maxCallDepth none).after m = m := by
  obtain ⟨⟨frames, pushed⟩, ⟨bytes, limit⟩, callDepth, maxCallDepth', globals, events⟩ := m
  obtain ⟨rfl, rfl, rfl, rfl⟩ := h
  simp only [after, initial, Stack.after, Stack.empty, Output.empty, FrameCounts.plus_zero,
    ByteArray.append_empty, List.nil_append]

theorem executeFor_state (m : Machine) (fuel : Nat) (p : Program) :
    (m.executeFor fuel p).2 = Exec.final (Exec.program fuel p) m := by
  unfold Machine.executeFor Exec.final
  cases Exec.program fuel p m <;> rfl

/-- Behind a program nothing runs, whatever came of it. -/
theorem Idle.executeFor (h : m.Idle maxCallDepth) (fuel : Nat) (p : Program) :
    (m.executeFor fuel p).2.Idle maxCallDepth := by
  have hreturned := (Exec.program_confines .outOfFuel fuel p m h.linked).2
  rw [executeFor_state]
  exact ⟨hreturned.unwound.empty h.frames, hreturned.callDepth.trans h.callDepth,
    hreturned.maxCallDepth.trans h.maxCallDepth_eq,
    (Exec.program_later m fuel p h.linked h.limit).2⟩

/-- The state behind programs that run one after the other, each for so many steps. -/
def session (m : Machine) (runs : List (Nat × Program)) : Machine :=
  runs.foldl (fun m (fuel, p) => (m.executeFor fuel p).2) m

theorem Idle.session (h : m.Idle maxCallDepth) (runs : List (Nat × Program)) :
    (m.session runs).Idle maxCallDepth := by
  induction runs generalizing m with
  | nil => exact h
  | cons run runs ih => exact ih (h.executeFor run.1 run.2)

end Machine

/-- The end of a run in a session that had come so far does what the end of a run on a fresh machine
does: it adds to what was there. -/
structure Continues (before : Machine) (fresh later : Option Failure × Machine) : Prop where
  failure : later.1 = fresh.1
  output : later.2.output.bytes = before.output.bytes ++ fresh.2.output.bytes
  added : later.2.output.textFrom before.output.bytes.size = fresh.2.output.text
  globals : later.2.globals = fresh.2.globals
  pushed : ∀ kind, later.2.stack.pushed.get kind =
    before.stack.pushed.get kind + fresh.2.stack.pushed.get kind
  events : later.2.events = fresh.2.events ++ before.events
  frames : later.2.stack.frames = fresh.2.stack.frames
  callDepth : later.2.callDepth = fresh.2.callDepth
  maxCallDepth : later.2.maxCallDepth = fresh.2.maxCallDepth

/-- A program that runs in a session, behind any programs that ended in any way, comes to the same
end as on a fresh machine. It appends the same text and leaves the same variables. Only the counts
of entered frames go on, and they grow by the same amounts. -/
theorem session_continues (maxCallDepth : Nat) (runs : List (Nat × Program)) (fuel : Nat)
    (p : Program) :
    Continues ((Machine.initial maxCallDepth none).session runs)
      ((Machine.initial maxCallDepth none).executeFor fuel p)
      (((Machine.initial maxCallDepth none).session runs).executeFor fuel p) := by
  have hfresh := Machine.idle_initial maxCallDepth
  have hidle := hfresh.session runs
  generalize (Machine.initial maxCallDepth none).session runs = before at hidle ⊢
  have hrun := (Exec.program_later before fuel p hfresh.linked hfresh.limit).1
  rw [hidle.eq_after] at hrun
  unfold Machine.executeFor
  rw [hrun]
  cases Exec.program fuel p (.initial maxCallDepth none) with
  | ok _ last | error halt last =>
    exact {
      failure := rfl
      output := rfl
      added := last.output.textFrom_append before.output.bytes
      globals := rfl
      pushed := FrameCounts.get_plus _ _
      events := rfl
      frames := rfl
      callDepth := rfl
      maxCallDepth := rfl }

end ScopedScript
