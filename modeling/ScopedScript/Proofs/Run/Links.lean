import ScopedScript.Proofs.Run.Readiness
import ScopedScript.Run.Machine

/-!
# Linked stacks

A stack is linked if each frame links to a frame below it and lies one level deeper than that one. A
walk along the links then stays among the live frames and comes to an end, and what is seen from a
frame is seen from every frame from which that frame is seen.

Links and levels belong to the shape of a stack: what its frames are apart from the variables and
functions they hold. Stacks of the same shape are linked alike and show the same frames.
-/

namespace ScopedScript

/-! ## What the operations of a machine do to its stack -/

namespace Machine

@[simp] theorem logPush_stack (m : Machine) : m.logPush.stack = m.stack := by
  unfold logPush
  split <;> rfl

@[simp] theorem pushFrame_stack (m : Machine) (name : String) (kind : FrameKind) :
    (m.pushFrame name kind).stack = m.stack.push name kind := by
  rw [pushFrame, logPush_stack]

@[simp] theorem pushCall_stack (m : Machine) (name : String) (outer : Nat) :
    (m.pushCall name outer).stack = m.stack.pushFunction name outer := by
  simp only [pushCall, log, logPush_stack]

@[simp] theorem popFrame_stack (m : Machine) : m.popFrame.stack = m.stack.pop := by
  unfold popFrame
  split
  · rfl
  next hnone =>
    rw [Stack.top?, Array.back?_eq_none_iff] at hnone
    have hpop : m.stack.frames.pop = m.stack.frames := by
      rw [hnone]
      rfl
    rw [Stack.pop, hpop]

@[simp] theorem popCall_stack (m : Machine) : m.popCall.stack = m.stack.pop := by
  rw [popCall, popFrame_stack]

/-! Frames are entered and left on record, and nothing else changes but the count of calls. -/

theorem logPush_eq (m : Machine) : ∃ events, m.logPush = { m with events } := by
  unfold logPush
  split
  · exact ⟨_, rfl⟩
  · exact ⟨m.events, rfl⟩

theorem pushFrame_eq (m : Machine) (name : String) (kind : FrameKind) :
    ∃ events, m.pushFrame name kind = { m with stack := m.stack.push name kind, events } := by
  obtain ⟨events, hevents⟩ := logPush_eq { m with stack := m.stack.push name kind }
  exact ⟨events, hevents⟩

theorem pushCall_eq (m : Machine) (name : String) (outer : Nat) :
    ∃ events, m.pushCall name outer = { m with
      stack := m.stack.pushFunction name outer, callDepth := m.callDepth + 1, events } := by
  obtain ⟨events, hevents⟩ := logPush_eq
    { m with stack := m.stack.pushFunction name outer, callDepth := m.callDepth + 1 }
  simp only [pushCall, hevents, log]
  exact ⟨_, rfl⟩

theorem popFrame_eq (m : Machine) :
    ∃ events, m.popFrame = { m with stack := m.stack.pop, events } := by
  have hstack := m.popFrame_stack
  unfold popFrame at hstack ⊢
  split
  · exact ⟨_, rfl⟩
  next hnone =>
    rw [hnone] at hstack
    refine ⟨m.events, ?_⟩
    rw [← hstack]

theorem popCall_eq (m : Machine) : ∃ events, m.popCall =
    { m with stack := m.stack.pop, callDepth := m.callDepth - 1, events } := by
  obtain ⟨events, hevents⟩ := popFrame_eq m
  simp only [popCall, hevents]
  exact ⟨_, rfl⟩

theorem finish_eq (m : Machine) (ok : Bool) : ∃ globals events,
    m.finish ok = { m with stack := m.stack.pop, globals, events } := by
  obtain ⟨events, hevents⟩ := popFrame_eq m
  simp only [finish, hevents, log]
  exact ⟨_, _, rfl⟩

end Machine

/-! ## What is seen from a position -/

namespace Stack

/-- The positions of the frames that are seen from a position, innermost first. -/
def visibleFrom (stack : Stack) : Option Nat → List Nat
  | none => []
  | some i => ScopedScript.chain stack.link i

theorem chain_eq_visibleFrom (stack : Stack) :
    stack.chain = stack.visibleFrom stack.topIndex? := by
  unfold chain visibleFrom
  cases stack.topIndex? <;> rfl

section Visible

variable {stack : Stack} (h : Downward stack.link)

include h

theorem visibleFrom_some (i : Nat) :
    stack.visibleFrom (some i) = i :: stack.visibleFrom (stack.link i) := by
  rw [visibleFrom, chain_eq h]
  cases stack.link i <;> rfl

theorem mem_visibleFrom_self (i : Nat) : i ∈ stack.visibleFrom (some i) := by
  rw [visibleFrom_some h]
  exact List.mem_cons_self

theorem le_of_mem_visibleFrom {i j : Nat} (hj : j ∈ stack.visibleFrom (some i)) : j ≤ i :=
  le_of_mem_chain h hj

/-- What a visible frame sees is visible. -/
theorem visibleFrom_subset {start : Option Nat} {j : Nat} (hj : j ∈ stack.visibleFrom start) :
    ∀ k ∈ stack.visibleFrom (some j), k ∈ stack.visibleFrom start := by
  cases start with
  | none => cases hj
  | some i =>
    induction j using Nat.strongRecOn with
    | ind j ih =>
      intro k hk
      rw [visibleFrom_some h, List.mem_cons] at hk
      rcases hk with rfl | hk
      · exact hj
      · cases hlink : stack.link j with
        | none =>
          rw [hlink] at hk
          cases hk
        | some outer =>
          rw [hlink] at hk
          exact ih outer (h j outer hlink) (mem_chain_of_link h hj hlink) k hk

end Visible

/-- Stacks with the same links on what is visible show the same frames. -/
theorem visibleFrom_congr {before after : Stack} {start : Option Nat}
    (h : ∀ i ∈ before.visibleFrom start, after.link i = before.link i) :
    after.visibleFrom start = before.visibleFrom start := by
  cases start with
  | none => rfl
  | some i => exact chain_congr h

end Stack

/-! ## Shapes -/

/-- What a frame is apart from what it holds: its name, its kind, its level and its link. -/
def Frame.shape (frame : Frame) : String × FrameKind × Nat × Option Nat :=
  (frame.name, frame.kind, frame.level, frame.outer)

namespace Stack

/-- The shape of the frame at a position. -/
def shapeAt? (stack : Stack) (i : Nat) : Option (String × FrameKind × Nat × Option Nat) :=
  (stack.frames[i]?).map Frame.shape

/-- Two stacks have as many frames, and these are the same apart from what they hold. -/
structure SameShape (before after : Stack) : Prop where
  size : after.frames.size = before.frames.size
  shape : ∀ i, after.shapeAt? i = before.shapeAt? i

theorem SameShape.refl (stack : Stack) : stack.SameShape stack := ⟨rfl, fun _ => rfl⟩

theorem SameShape.trans {a b c : Stack} (hab : a.SameShape b) (hbc : b.SameShape c) :
    a.SameShape c :=
  ⟨hbc.size.trans hab.size, fun i => (hbc.shape i).trans (hab.shape i)⟩

section SameShape

variable {before after : Stack} (h : before.SameShape after)

include h

theorem SameShape.depth : after.depth = before.depth := h.size

theorem SameShape.topIndex? : after.topIndex? = before.topIndex? := by
  simp only [Stack.topIndex?, Array.isEmpty_iff_size_eq_zero, h.size, h.depth]

theorem SameShape.exists_frame {i : Nat} {frame : Frame} (hframe : after.frames[i]? = some frame) :
    ∃ frame₀, before.frames[i]? = some frame₀ ∧ frame.shape = frame₀.shape := by
  have hshape := h.shape i
  rw [shapeAt?, shapeAt?, hframe, Option.map_some, eq_comm, Option.map_eq_some_iff] at hshape
  obtain ⟨frame₀, hframe₀, heq⟩ := hshape
  exact ⟨frame₀, hframe₀, heq.symm⟩

theorem SameShape.symm : after.SameShape before := ⟨h.size.symm, fun i => (h.shape i).symm⟩

theorem SameShape.link (i : Nat) : after.link i = before.link i := by
  have hlink : ∀ stack : Stack, stack.link i = (stack.shapeAt? i).bind (·.2.2.2) := by
    intro stack
    rw [Stack.link, shapeAt?]
    cases stack.frames[i]? <;> rfl
  rw [hlink, hlink, h.shape i]

theorem SameShape.visibleFrom (start : Option Nat) :
    after.visibleFrom start = before.visibleFrom start :=
  visibleFrom_congr fun i _ => h.link i

theorem SameShape.chain : after.chain = before.chain := by
  rw [chain_eq_visibleFrom, chain_eq_visibleFrom, h.topIndex?, h.visibleFrom]

end SameShape

end Stack

/-! ## Links -/

/-- A frame at a position links to a live frame below and lies one level deeper; one without a link
lies at the first level. -/
def Frame.LinkedAt (frame : Frame) (stack : Stack) (i : Nat) : Prop :=
  match frame.outer with
  | none => frame.level = 1
  | some outer => outer < i ∧
      ∃ around, stack.frames[outer]? = some around ∧ frame.level = around.level + 1

namespace Stack

/-- Every frame links to one below it, one level up. -/
def Linked (stack : Stack) : Prop :=
  ∀ (i : Nat) (frame : Frame), stack.frames[i]? = some frame → frame.LinkedAt stack i

/-- A walk along links: each position is that of a live frame, and the last one has no link. -/
inductive Walk (stack : Stack) : Option Nat → List Nat → Prop where
  | done : Walk stack none []
  | step {i : Nat} {frame : Frame} {rest : List Nat} (live : stack.frames[i]? = some frame)
      (next : Walk stack frame.outer rest) : Walk stack (some i) (i :: rest)

theorem exists_frame {stack : Stack} {i : Nat} (hi : i < stack.depth) :
    ∃ frame, stack.frames[i]? = some frame :=
  ⟨_, Array.getElem?_eq_getElem hi⟩

theorem topIndex?_lt_depth {stack : Stack} : ∀ i, stack.topIndex? = some i → i < stack.depth := by
  intro i htop
  rw [topIndex?_eq_some] at htop
  omega

theorem Linked.empty {stack : Stack} (h : stack.frames = #[]) : stack.Linked := by
  intro i frame hframe
  rw [h] at hframe
  cases hframe

section Linked

variable {stack : Stack} (h : stack.Linked)

include h

theorem Linked.downward : Downward stack.link := by
  intro i outer hlink
  obtain ⟨frame, hframe, houter⟩ := Option.bind_eq_some_iff.mp hlink
  have hlinked := h i frame hframe
  unfold Frame.LinkedAt at hlinked
  rw [houter] at hlinked
  exact hlinked.1

theorem Linked.live {i outer : Nat} (hlink : stack.link i = some outer) :
    outer < stack.depth := by
  have hlt := h.downward i outer hlink
  obtain ⟨frame, hframe, _⟩ := Option.bind_eq_some_iff.mp hlink
  exact Nat.lt_trans hlt (Array.getElem?_eq_some_iff.mp hframe).1

theorem Linked.walk_from {i : Nat} (hi : i < stack.depth) :
    stack.Walk (some i) (stack.visibleFrom (some i)) := by
  induction i using Nat.strongRecOn with
  | ind i ih =>
    rw [visibleFrom_some h.downward]
    obtain ⟨frame, hframe⟩ := exists_frame hi
    refine .step hframe ?_
    rw [← link_eq hframe]
    cases hlink : stack.link i with
    | none => exact .done
    | some outer => exact ih outer (h.downward i outer hlink) (h.live hlink)

/-- What is visible is what a walk from the top comes by. -/
theorem Linked.walk : stack.Walk stack.topIndex? stack.chain := by
  rw [chain_eq_visibleFrom]
  cases htop : stack.topIndex? with
  | none => exact .done
  | some top => exact h.walk_from (topIndex?_lt_depth top htop)

/-- What is visible is live. -/
theorem Linked.lt_depth {i : Nat} (hi : i ∈ stack.chain) : i < stack.depth := by
  rw [chain_eq_visibleFrom] at hi
  cases htop : stack.topIndex? with
  | none =>
    rw [htop] at hi
    cases hi
  | some top =>
    rw [htop] at hi
    exact Nat.lt_of_le_of_lt (le_of_mem_visibleFrom h.downward hi) (topIndex?_lt_depth top htop)

theorem Linked.sameShape {after : Stack} (hshape : stack.SameShape after) : after.Linked := by
  intro i frame hframe
  obtain ⟨frame₀, hframe₀, heq⟩ := hshape.exists_frame hframe
  have hlinked := h i frame₀ hframe₀
  simp only [Frame.shape, Prod.mk.injEq] at heq
  unfold Frame.LinkedAt at hlinked ⊢
  rw [heq.2.2.2, heq.2.2.1]
  cases houter : frame₀.outer with
  | none =>
    rw [houter] at hlinked
    exact hlinked
  | some outer =>
    rw [houter] at hlinked
    obtain ⟨hlt, around₀, haround₀, hlevel⟩ := hlinked
    obtain ⟨around, haround, heq'⟩ := hshape.symm.exists_frame haround₀
    simp only [Frame.shape, Prod.mk.injEq] at heq'
    exact ⟨hlt, around, haround, by rw [hlevel, heq'.2.2.1]⟩

/-! ## New frames -/

variable {outer : Option Nat} (houter : ∀ i, outer = some i → i < stack.depth)

include houter

omit h in
theorem newFrame_linkedAt (name : String) (kind : FrameKind) :
    (stack.newFrame name kind outer).LinkedAt (stack.pushLinked name kind outer) stack.depth := by
  unfold Frame.LinkedAt newFrame levelAbove
  cases outer with
  | none => rfl
  | some i =>
    have hi := houter i rfl
    obtain ⟨frame, hframe⟩ := exists_frame hi
    refine ⟨hi, frame, ?_, ?_⟩
    · rw [pushLinked_frames, if_neg (by omega), hframe]
    · simp only [Option.bind_some, hframe]

/-- A new frame that links to a live one. -/
theorem Linked.pushLinked (name : String) (kind : FrameKind) :
    (stack.pushLinked name kind outer).Linked := by
  intro i frame hframe
  rw [pushLinked_frames] at hframe
  split at hframe
  next hi =>
    obtain rfl := Option.some.inj hframe
    rw [hi]
    exact newFrame_linkedAt houter name kind
  next hi =>
    have hlinked := h i frame hframe
    unfold Frame.LinkedAt at hlinked ⊢
    cases hframeOuter : frame.outer with
    | none =>
      rw [hframeOuter] at hlinked
      exact hlinked
    | some around =>
      rw [hframeOuter] at hlinked
      obtain ⟨hlt, frame', hframe', hlevel⟩ := hlinked
      have hlive := (Array.getElem?_eq_some_iff.mp hframe').1
      refine ⟨hlt, frame', ?_, hlevel⟩
      rw [pushLinked_frames, if_neg (by unfold depth; omega)]
      exact hframe'

omit houter in
theorem Linked.visibleFrom_pushLinked (name : String) (kind : FrameKind) {start : Option Nat}
    (hstart : ∀ i, start = some i → i < stack.depth) :
    (stack.pushLinked name kind outer).visibleFrom start = stack.visibleFrom start := by
  refine visibleFrom_congr ?_
  intro i hi
  cases start with
  | none => cases hi
  | some top =>
    have hle := le_of_mem_visibleFrom h.downward hi
    have hlt := hstart top rfl
    rw [link, link, pushLinked_frames, if_neg (by omega)]

/-- A new frame sees itself and what the frame it links to sees. -/
theorem Linked.chain_pushLinked (name : String) (kind : FrameKind) :
    (stack.pushLinked name kind outer).chain = stack.depth :: stack.visibleFrom outer := by
  have htop : (stack.pushLinked name kind outer).topIndex? = some stack.depth := by
    rw [topIndex?_eq_some, depth_pushLinked]
  have hlink : (stack.pushLinked name kind outer).link stack.depth = outer := by
    rw [link, pushLinked_frames, if_pos rfl]
    rfl
  rw [chain_eq_visibleFrom, htop, visibleFrom_some (h.pushLinked houter name kind).downward,
    hlink, h.visibleFrom_pushLinked name kind houter]

end Linked

end Stack

end ScopedScript
