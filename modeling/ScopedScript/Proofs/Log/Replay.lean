import ScopedScript.Event

/-!
# Reading what was recorded

What is recorded of scopes and frames can be read in order. An event that tells of an entry opens
something, and one that tells of an exit closes what was opened last, if it is told of as what it
was opened as. So the record tells at every moment what is open, unless some event does not fit. A
record of which all events fit and behind which nothing is open is properly nested.
-/

namespace ScopedScript

/-! ## Events that open and close -/

/-- What the record tells of a scope. -/
structure OpenScope where
  name : String
  /-- How many scopes lie around it. -/
  level : Nat
  deriving DecidableEq

/-- What the record tells of a frame. -/
structure OpenFrame where
  name : String
  kind : FrameKind
  /-- How deep it lies, counted along the links. -/
  level : Nat
  deriving DecidableEq

namespace Event

/-- The scopes that are open behind an event, the innermost first. There are none if the event does
not fit those that are open before it: only the innermost one is closed, as what it was opened
as. -/
def replayScopes (opened : List OpenScope) : Event → Option (List OpenScope)
  | scopeEntered _ name level => some (⟨name, level⟩ :: opened)
  | scopeLeft name level _ =>
    match opened with
    | [] => none
    | innermost :: around => if innermost = ⟨name, level⟩ then some around else none
  | _ => some opened

/-- The frames that are open behind an event, the innermost first. There are none if the event does
not fit those that are open before it:
* a frame is entered at the depth behind those that are open;
* the innermost one is left, as what it was entered as, to the depth of those around it;
* a call is as deep as there are frames of calls. -/
def replayFrames (opened : List OpenFrame) : Event → Option (List OpenFrame)
  | framePushed name kind level depth =>
    if depth = opened.length + 1 then some (⟨name, kind, level⟩ :: opened) else none
  | framePopped name kind level depth =>
    match opened with
    | [] => none
    | innermost :: around =>
      if innermost = ⟨name, kind, level⟩ ∧ depth = around.length then some around else none
  | called _ depth =>
    if depth = opened.countP (·.kind = .function) then some opened else none
  | _ => some opened

/-- An event is about scopes. -/
def ofScopes : Event → Bool
  | scopeEntered .. | scopeLeft .. => true
  | _ => false

/-- An event is about frames and calls. -/
def ofFrames : Event → Bool
  | framePushed .. | framePopped .. | called .. => true
  | _ => false

/-- Other events open and close no scope. -/
theorem replayScopes_of_not_ofScopes {event : Event} (h : event.ofScopes = false)
    (opened : List OpenScope) : event.replayScopes opened = some opened := by
  cases event with
  | scopeEntered | scopeLeft => cases h
  | _ => rfl

/-- Other events open and close no frame. -/
theorem replayFrames_of_not_ofFrames {event : Event} (h : event.ofFrames = false)
    (opened : List OpenFrame) : event.replayFrames opened = some opened := by
  cases event with
  | framePushed | framePopped | called => cases h
  | _ => rfl

end Event

/-! ## Records -/

/-- The scopes that are open behind a record, if every event fits. -/
def openScopes (log : List Event) : Option (List OpenScope) := log.foldlM Event.replayScopes []

/-- The frames that are open behind a record, if every event fits. -/
def openFrames (log : List Event) : Option (List OpenFrame) := log.foldlM Event.replayFrames []

section Reading

variable {σ : Type} {read : σ → Event → Option σ}

theorem foldlM_concat (log : List Event) (event : Event) (start : σ) :
    (log ++ [event]).foldlM read start = (log.foldlM read start).bind (read · event) := by
  rw [List.foldlM_append]
  refine bind_congr fun state => ?_
  rw [List.foldlM_cons]
  exact bind_pure _

theorem foldlM_of_idle {log : List Event}
    (h : ∀ event ∈ log, ∀ state, read state event = some state) (start : σ) :
    log.foldlM read start = some start := by
  induction log with
  | nil => rfl
  | cons event log ih =>
    rw [List.forall_mem_cons] at h
    rw [List.foldlM_cons, h.1]
    exact ih h.2

/-- Events that change nothing do not matter at the end. -/
theorem foldlM_append_idle {more : List Event}
    (h : ∀ event ∈ more, ∀ state, read state event = some state) (log : List Event) (start : σ) :
    (log ++ more).foldlM read start = log.foldlM read start := by
  rw [List.foldlM_append]
  exact (bind_congr (foldlM_of_idle h)).trans (bind_pure _)

/-- Nor do they at the beginning. -/
theorem foldlM_idle_append {log : List Event}
    (h : ∀ event ∈ log, ∀ state, read state event = some state) (more : List Event) (start : σ) :
    (log ++ more).foldlM read start = more.foldlM read start := by
  rw [List.foldlM_append, foldlM_of_idle h]
  rfl

end Reading

theorem openScopes_concat {log : List Event} {opened : List OpenScope}
    (h : openScopes log = some opened) (event : Event) :
    openScopes (log ++ [event]) = event.replayScopes opened := by
  rw [openScopes, foldlM_concat, ← openScopes, h]
  rfl

theorem openFrames_concat {log : List Event} {opened : List OpenFrame}
    (h : openFrames log = some opened) (event : Event) :
    openFrames (log ++ [event]) = event.replayFrames opened := by
  rw [openFrames, foldlM_concat, ← openFrames, h]
  rfl

section Idle

variable {log more : List Event}

/-- Events that are not about scopes do not matter at the end. -/
theorem openScopes_append_of_not_ofScopes (h : ∀ event ∈ more, event.ofScopes = false) :
    openScopes (log ++ more) = openScopes log :=
  foldlM_append_idle (fun event hevent => Event.replayScopes_of_not_ofScopes (h event hevent)) log []

/-- Nor do they at the beginning. -/
theorem openScopes_of_not_ofScopes_append (h : ∀ event ∈ log, event.ofScopes = false) :
    openScopes (log ++ more) = openScopes more :=
  foldlM_idle_append (fun event hevent => Event.replayScopes_of_not_ofScopes (h event hevent))
    more []

/-- Events that are not about frames do not matter at the beginning. -/
theorem openFrames_of_not_ofFrames_append (h : ∀ event ∈ log, event.ofFrames = false) :
    openFrames (log ++ more) = openFrames more :=
  foldlM_idle_append (fun event hevent => Event.replayFrames_of_not_ofFrames (h event hevent))
    more []

/-- Where no event is about frames none is open. -/
theorem openFrames_of_not_ofFrames (h : ∀ event ∈ log, event.ofFrames = false) :
    openFrames log = some [] :=
  foldlM_of_idle (fun event hevent => Event.replayFrames_of_not_ofFrames (h event hevent)) []

end Idle

end ScopedScript
