import ScopedScript.Proofs.Grammar.Height
import ScopedScript.Proofs.Run.Regime
import ScopedScript.Proofs.Session

/-!
# How many frames there can be

Every frame other than that of a call stands for a block around what is being executed, in the body
of the same function. Blocks can be around each other only so deep in a program that was read, and
calls can be under way only so many; so the stack can be only so high.

At a place in the program, the frames that are there, those that blocks around each other can still
add, and those of all calls that are left are together no more than the bound. A block takes one of
those that blocks can add. A call takes as many as a function can need, its own frame among them,
since its body is a block.
-/

namespace ScopedScript

/-- How many frames there can be if blocks are around each other no deeper than `nesting`. -/
def frameBound (nesting calls : Nat) : Nat := 1 + nesting * (calls + 1)

/-- There are as many frames of calls as calls under way, and these are no more than can be; and
there are no more frames than a bound. -/
structure Machine.Bounded (limit bound : Nat) (m : Machine) : Prop where
  calls : m.stack.functionFrames = m.callDepth
  limit : m.callDepth ≤ limit
  depth : m.stack.depth ≤ bound

/-- What is recorded of frames and calls keeps to the bounds. -/
def Event.Bounded (limit bound : Nat) : Event → Prop
  | .framePushed _ _ _ depth => depth ≤ bound
  | .called _ depth => depth ≤ limit
  | _ => True

namespace Exec

open Regime

/-- Runs in which blocks are around each other no deeper than `nesting` in functions. -/
def roomy (nesting limit : Nat) : Regime where
  limit := limit
  function decl := decl.nesting ≤ nesting
  event := Event.Bounded limit (frameBound nesting limit)
  halt _ := True
  popped _ _ _ _ := trivial
  fault _ := trivial

/-- There is room for so many more blocks, and for all calls that are left. -/
structure Room (nesting limit : Nat) (kinds : List FrameKind) (calls blocks : Nat) : Prop where
  count : kinds.count .function = calls
  calls_le : calls ≤ limit
  blocks_le : blocks ≤ nesting
  /-- With the frames that can follow there are no more than the bound. -/
  length_le : kinds.length + blocks + nesting * (limit - calls) ≤ frameBound nesting limit

section Room

variable {nesting limit : Nat} {kinds : List FrameKind} {calls blocks : Nat}
  (h : Room nesting limit kinds calls blocks)

include h

theorem Room.length_bounded : kinds.length ≤ frameBound nesting limit := by
  have hlength := h.length_le
  omega

theorem Room.bounded {m : Machine} (hm : (roomy nesting limit).At kinds calls m) :
    m.Bounded limit (frameBound nesting limit) where
  calls := by rw [Stack.functionFrames, hm.kinds, h.count, hm.calls]
  limit := by
    rw [hm.calls]
    exact h.calls_le
  depth := by
    rw [hm.depth]
    exact h.length_bounded

/-- A block takes one place of those for blocks. -/
theorem Room.block (hblocks : 0 < blocks) {kind : FrameKind} (hkind : kind ≠ .function) :
    Room nesting limit (kinds ++ [kind]) calls (blocks - 1) where
  count := by
    rw [List.count_append, h.count, List.count_singleton, if_neg (by simpa using hkind),
      Nat.add_zero]
  calls_le := h.calls_le
  blocks_le := Nat.le_trans (Nat.sub_le _ _) h.blocks_le
  length_le := by
    have hlength := h.length_le
    rw [List.length_append, List.length_singleton]
    omega

/-- A call takes as many places as a function can need. -/
theorem Room.call (hnesting : 0 < nesting) (hcalls : calls < limit) :
    Room nesting limit (kinds ++ [.function]) (calls + 1) (nesting - 1) where
  count := by rw [List.count_append, h.count, List.count_singleton_self]
  calls_le := hcalls
  blocks_le := Nat.sub_le _ _
  length_le := by
    have hlength := h.length_le
    have hleft := mul_sub_succ nesting hcalls
    rw [List.length_append, List.length_singleton]
    omega

end Room

/-! ## Runs -/

section Runs

variable {nesting limit : Nat}

/-- The regime is about frames, not about how runs halt. -/
theorem roomy_halts (nesting limit : Nat) (halt : Halt) : (roomy nesting limit).halt halt := trivial

variable {kinds : List FrameKind} {calls blocks : Nat}

/-- A run that is made to halt once a bound is passed passes all moments. -/
theorem pass_roomy (h : Room nesting limit kinds calls blocks) (halt : Halt) (moment : Moment) :
    (roomy nesting limit).Keeps kinds calls
      (pass (fun _ now => ¬ now.Bounded limit (frameBound nesting limit)) halt moment) (pure ()) :=
  fun _ hm => ⟨pass_apply (not_not_intro (h.bounded hm)), hm⟩

theorem watched_roomy (h : Room nesting limit kinds calls blocks) (halt : Halt) {task : Task}
    {α : Type} {x y : Exec α} (hx : (roomy nesting limit).Keeps kinds calls x y) :
    (roomy nesting limit).Keeps kinds calls
      (watched (fun _ now => ¬ now.Bounded limit (frameBound nesting limit)) halt task x) y :=
  watched_rel (keeps_composes (roomy_halts nesting limit) kinds calls) (pass_roomy h halt _)
    (pass_roomy h halt _) hx

/-- What is inside a function has room in the frame of a call. -/
theorem Room.inside (h : Room nesting limit kinds calls blocks) {decl : FunctionDecl}
    (hdecl : decl.nesting ≤ nesting) (hcalls : calls < limit) :
    Room nesting limit (kinds ++ [.function]) (calls + 1) (nesting - 1) :=
  h.call (Nat.lt_of_lt_of_le decl.nesting_pos hdecl) hcalls

/-- Runs keep to the bound at every moment, if there is room for the blocks of what they execute. -/
theorem until_roomy (halt : Halt) (fuel : Nat) : ∀ kinds calls blocks,
    Room nesting limit kinds calls blocks →
    (∀ e, (roomy nesting limit).Keeps kinds calls
      (evalUntil (fun _ now => ¬ now.Bounded limit (frameBound nesting limit)) halt fuel e)
      (eval fuel e)) ∧
    ∀ s : Statement, s.nesting ≤ blocks → (roomy nesting limit).Keeps kinds calls
      (execUntil (fun _ now => ¬ now.Bounded limit (frameBound nesting limit)) halt fuel s)
      (exec fuel s) := by
  induction fuel with
  | zero =>
    intro kinds calls _ _
    have hcomposes := keeps_composes (roomy_halts nesting limit) kinds calls
    exact ⟨fun _ => hcomposes.halt _, fun _ _ => hcomposes.halt _⟩
  | succ fuel ih =>
    intro kinds calls blocks hroom
    have heval := (ih kinds calls blocks hroom).1
    have hcomposes := keeps_composes (roomy_halts nesting limit) kinds calls
    have hoperates := keeps_operates (roomy nesting limit) kinds calls
    constructor
    · intro e
      refine watched_roomy hroom halt (evalStep_keep hoperates.evaluation keeps_load ?_
        fun part _ => heval part)
      intro name arguments position
      refine callUntil_rel hcomposes (pass_roomy hroom halt _)
        (keeps_call ?_ (fun _ hcalls => hcalls) ?_)
      · intro decl _ hdecl hcalls
        have hbounded := (hroom.inside hdecl hcalls).length_bounded
        rwa [List.length_append, List.length_singleton] at hbounded
      · intro decl hdecl hcalls
        obtain ⟨heval, hexec⟩ := ih _ _ _ (hroom.inside hdecl hcalls)
        have hdeep : decl.nesting ≤ nesting := hdecl
        refine inside_keep (keeps_operates _ _ _) (fun e _ => heval e) ?_ arguments position
        intro s hs
        have hless := decl.nesting_body s hs
        exact hexec s (by omega)
    · intro s hs
      refine watched_roomy hroom halt ?_
      cases hcompound : s.isCompound with
      | true =>
        have hblocks : 0 < blocks := Nat.lt_of_lt_of_le (s.nesting_pos hcompound) hs
        refine compoundStep_keep (keeps_encloses ?_) fuel hcompound (fun e _ => heval e) ?_
          fun _ _ _ _ => hcomposes.halt _
        · intro _ _ _
          have hlength := hroom.length_le
          exact Nat.le_trans (by omega) hlength
        · intro s' hs' kind hkind
          have hless := s.nesting_inner s' hs'
          exact (ih _ _ _ (hroom.block hblocks hkind)).2 s' (by omega)
      | false =>
        refine plainStep_keep hoperates fuel hcompound (fun e _ => heval e) ?_
        rintro decl rfl
        exact keeps_declareFunction (Nat.le_trans hs hroom.blocks_le)

/-- So do programs that begin with nothing. -/
theorem programUntil_roomy {p : Program} (hp : Program.nesting p ≤ nesting) {m : Machine}
    (hempty : m.stack.frames = #[]) (hcalls : m.callDepth = 0) (hlimit : m.maxCallDepth = limit)
    (hevents : ∀ event ∈ m.events, event.Bounded limit (frameBound nesting limit)) (halt : Halt)
    (fuel : Nat) :
    programUntil (fun _ now => ¬ now.Bounded limit (frameBound nesting limit)) halt fuel p m =
        program fuel p m ∧
      ∀ event ∈ (final (program fuel p) m).events,
        event.Bounded limit (frameBound nesting limit) := by
  have hroom : Room nesting limit [.global] 0 nesting := by
    refine ⟨rfl, Nat.zero_le _, Nat.le_refl _, Nat.le_of_eq ?_⟩
    rw [List.length_singleton, Nat.sub_zero, frameBound, Nat.mul_succ]
    omega
  have hstart : (roomy nesting limit).At [] m.callDepth m := .of_empty hempty hlimit hevents
  rw [hcalls] at hstart
  have hentered : (roomy nesting limit).At [.global] 0 (m.pushFrame "global" .global) :=
    hstart.pushFrame fun _ => hroom.length_bounded
  have hexec := (until_roomy halt fuel _ _ _ hroom).2
  obtain ⟨heq, hends⟩ := block_keep (keeps_combines _ _ _)
    (fun s hs => hexec s (Statement.nestingList_le.mp hp s hs)) _ hentered
  obtain ⟨ok, hfinal⟩ := final_program fuel p m
  rw [hfinal]
  exact ⟨programBy_congr heq, Regime.Ends.final hends |>.finish_events trivial⟩

end Runs

end Exec

open Exec in
/-- The stack is bounded. Of every program that was read, every run that begins with nothing has, at
every moment, as many frames of calls as calls are under way, no more of them than can be, and no
more than `1 + 64 * (limit + 1)` frames: a run that is made to halt once this is not so is the plain
one. What is recorded, each frame that was entered and each call, does not go beyond that either. -/
theorem frames_bounded {ts : List Token} {p : Program} (hparse : parse ts = .ok p)
    (limit : Nat) (outputLimit : Option Nat) (fuel : Nat) :
    (∀ halt, programUntil (fun _ now => ¬ now.Bounded limit (1 + 64 * (limit + 1))) halt fuel p
      (.initial limit outputLimit) = program fuel p (.initial limit outputLimit)) ∧
    ∀ event ∈ (final (program fuel p) (.initial limit outputLimit)).events,
      event.Bounded limit (1 + 64 * (limit + 1)) := by
  obtain ⟨_, hprogram⟩ := parse_eq_ok.mp hparse
  obtain ⟨_, _, _, _, hderived⟩ := Parser.program_eq_ok_iff.mp hprogram
  have hroomy := programUntil_roomy hderived.nesting_le (m := .initial limit outputLimit) rfl rfl
    rfl (by exact nofun)
  exact ⟨fun halt => (hroomy halt fuel).1, (hroomy .outOfFuel fuel).2⟩

/-- A call in a branch of the function that is called: each call takes two frames. -/
theorem frames_bounded_recursion : ∃ ts p,
    tokenize "func(int) f() \x7b if true \x7b return f(); \x7d return 0; \x7d f();" = .ok ts ∧
    parse ts = .ok p ∧
    .framePushed "if" .conditional 3 7 ∈
      (Exec.final (Exec.program 60 p) (.initial 3 none)).events ∧
    ∀ event ∈ (Exec.final (Exec.program 60 p) (.initial 3 none)).events, event.Bounded 3 257 := by
  obtain ⟨ts, p, htokenize, hparse, hpushed⟩ := exists_read
    "func(int) f() \x7b if true \x7b return f(); \x7d return 0; \x7d f();" rfl
    (fun p => .framePushed "if" .conditional 3 7 ∈
      (Exec.final (Exec.program 60 p) (.initial 3 none)).events) (by decide +kernel)
  exact ⟨ts, p, htokenize, hparse, of_decide_eq_true hpushed, (frames_bounded hparse 3 none 60).2⟩

end ScopedScript
