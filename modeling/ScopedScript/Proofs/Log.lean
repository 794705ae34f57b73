import ScopedScript.Proofs.Log.Frames
import ScopedScript.Proofs.Log.Scopes
import ScopedScript.Proofs.Run.History
import ScopedScript.Proofs.Run.Invariant

/-!
# What is recorded of a source

All stages record what happens. The check records its scopes and the run its frames, and both close
whatever they open, however they end. The run comes after the check, and only if that accepts the
program. So in the record of a source the scopes are properly nested, and so are the frames, and no
frame is recorded before the program was accepted.
-/

namespace ScopedScript

/-- What is recorded of a source, the earliest first, if its program runs for so many steps on a
fresh machine. -/
def logFor (fuel : Nat) (source : String) (maxCallDepth : Nat) (outputLimit : Option Nat) :
    List Event :=
  match check source with
  | ⟨events, .error _⟩ => events
  | ⟨events, .ok p⟩ =>
    events ++ ((Machine.initial maxCallDepth outputLimit).executeFor fuel p).2.events.reverse

/-- What is recorded of a source is properly nested. -/
structure Nested (source : String) (log : List Event) : Prop where
  /-- Every event fits the frames that are open before it, and none is left open. -/
  frames : openFrames log = some []
  /-- Every event fits the scopes that are open before it, and none is left open. -/
  scopes : openScopes log = some []
  /-- An event about frames comes after the event that tells that the program was accepted. -/
  accepted : ∀ before event after, log = before ++ event :: after → event.ofFrames →
    .analyzed ∈ before ∧ ∃ p, (check source).result = .ok p

/-! ## Checks -/

/-- What is recorded up to the end of a check closes all scopes and tells of no frame, and it tells
that a program was accepted if one was. -/
structure RecordsCheck (logged : Logged Program) : Prop where
  scopes : openScopes logged.events = some []
  frames : ∀ event ∈ logged.events, event.ofFrames = false
  /-- The last word is that a program was accepted. -/
  accepted : ∀ p, logged.result = .ok p → .analyzed ∈ logged.events

theorem checkProgram_records (p : Program) : RecordsCheck (checkProgram p) := by
  have hrecorded := Check.program_recorded p
  unfold Check.final at hrecorded
  unfold checkProgram
  cases hcheck : Check.program p .initial with
  | error d state =>
    rw [hcheck] at hrecorded
    exact ⟨hrecorded.opened, fun event hevent => hrecorded.only event (List.mem_reverse.mp hevent),
      nofun⟩
  | ok _ state =>
    rw [hcheck] at hrecorded
    refine ⟨?_, ?_, fun _ _ => by simp⟩
    · rw [openScopes_append_of_not_ofScopes (by simp [Event.ofScopes])]
      exact hrecorded.opened
    · rw [List.forall_mem_append]
      exact ⟨fun event hevent => hrecorded.only event (List.mem_reverse.mp hevent),
        by simp [Event.ofFrames]⟩

theorem check_records (source : String) : RecordsCheck (check source) := by
  unfold check
  cases readTokens source with
  | error failure => exact ⟨rfl, nofun, nofun⟩
  | ok ts =>
    dsimp only
    cases readProgram ts with
    | error failure => exact ⟨rfl, by simp [Event.ofFrames], nofun⟩
    | ok p =>
      have hprogram := checkProgram_records p
      refine ⟨?_, ?_, fun q hq => List.mem_append_right _ (hprogram.accepted q hq)⟩
      · exact (openScopes_of_not_ofScopes_append (by simp [Event.ofScopes])).trans hprogram.scopes
      · rw [List.forall_mem_append]
        exact ⟨by simp [Event.ofFrames], hprogram.frames⟩

/-! ## Runs -/

/-- A run records nothing about scopes. -/
theorem unscoped_invariant :
    Exec.Invariant fun m => ∀ event ∈ m.events, event.ofScopes = false := by
  have hpop : ∀ m : Machine, (∀ event ∈ m.events, event.ofScopes = false) →
      ∀ event ∈ m.popFrame.events, event.ofScopes = false := by
    intro m hm
    obtain hevents | ⟨_, _, _, _, hevents⟩ := m.popFrame_events <;> rw [hevents]
    · exact hm
    · exact List.forall_mem_cons.mpr ⟨rfl, hm⟩
  exact {
    write _ hm := hm
    store hm _ := hm
    declare hm _ := hm
    declareFunction _ hm := hm
    pushFrame {m} name kind hm := by
      rw [m.pushFrame_recorded]
      exact List.forall_mem_cons.mpr ⟨rfl, hm⟩
    popFrame hm := hpop _ hm
    pushCall {m} name outer hm _ := by
      rw [m.pushCall_recorded]
      exact List.forall_mem_cons.mpr ⟨rfl, List.forall_mem_cons.mpr ⟨rfl, hm⟩⟩
    popCall hm := hpop _ hm
    finish ok hm := List.forall_mem_cons.mpr ⟨rfl, hpop _ hm⟩ }

/-- Before an event that is not among the first ones they all have come. -/
theorem mem_before_of_append {first rest before after : List Event} {event mark : Event}
    (heq : first ++ rest = before ++ event :: after) (hmark : mark ∈ first)
    (hevent : event ∉ first) : mark ∈ before := by
  obtain ⟨more, rfl, -⟩ | ⟨more, rfl, hrest⟩ := List.append_eq_append_iff.mp heq
  · exact List.mem_append_left _ hmark
  · cases more with
    | nil => simpa using hmark
    | cons e more =>
      obtain rfl := (List.cons.inj hrest).1
      exact absurd (by simp) hevent

theorem logFor_nested (fuel : Nat) (source : String) (maxCallDepth : Nat)
    (outputLimit : Option Nat) : Nested source (logFor fuel source maxCallDepth outputLimit) := by
  have hcheck := check_records source
  unfold logFor
  cases hchecked : check source with
  | mk events result =>
    rw [hchecked] at hcheck
    have hframe : ∀ event, event.ofFrames → event ∉ events := by
      intro event hframe hevent
      rw [hcheck.frames event hevent] at hframe
      cases hframe
    cases result with
    | error failure =>
      refine ⟨openFrames_of_not_ofFrames hcheck.frames, hcheck.scopes, ?_⟩
      intro before event after heq hevent
      refine absurd ?_ (hframe event hevent)
      rw [show events = before ++ event :: after from heq]
      simp
    | ok p =>
      have hrun := (Exec.programUntil_recorded .outOfFuel fuel p maxCallDepth outputLimit).2
      have hunscoped := (unscoped_invariant.program_upholds .outOfFuel fuel p
        (.initial maxCallDepth outputLimit) nofun).2
      rw [← Machine.executeFor_state] at hrun hunscoped
      refine ⟨?_, ?_, ?_⟩
      · exact (openFrames_of_not_ofFrames_append hcheck.frames).trans hrun
      · refine (openScopes_append_of_not_ofScopes ?_).trans hcheck.scopes
        exact fun event hevent => hunscoped event (List.mem_reverse.mp hevent)
      · intro before event after heq hevent
        exact ⟨mem_before_of_append heq (hcheck.accepted p rfl) (hframe event hevent), p,
          by rw [hchecked]⟩

/-- The record of every source is properly nested, whatever comes of its check and of its run, for
any number of steps and any limits. Frames are left in the opposite order to that in which they were
entered, under the same name, kind and level and one deeper than what they are left to; each is
entered one deeper than there are frames open, and a call is as deep as there are frames of calls.
Scopes are closed in the opposite order to that in which they were opened, under the same name and
level. No frame is entered before the program was accepted.

The frames that are open in the record are those of the stack at every moment of a run, and as many
of them are of calls as calls are under way: a run that is made to halt once this is not so is the
plain one. -/
theorem log_nested (source : String) (maxCallDepth : Nat) :
    Nested source (run source maxCallDepth).events ∧
      ∀ fuel outputLimit, Nested source (logFor fuel source maxCallDepth outputLimit) ∧
        ∀ p halt, Exec.programUntil (fun _ now => ¬ now.Recorded) halt fuel p
            (.initial maxCallDepth outputLimit) =
          Exec.program fuel p (.initial maxCallDepth outputLimit) := by
  refine ⟨?_, fun fuel outputLimit => ⟨logFor_nested fuel source maxCallDepth outputLimit,
    fun p halt => (Exec.programUntil_recorded halt fuel p maxCallDepth outputLimit).1⟩⟩
  have hlog : (run source maxCallDepth).events =
      logFor Exec.ample source maxCallDepth none := by
    unfold run logFor
    rcases check source with ⟨events, _ | p⟩ <;> rfl
  rw [hlog]
  exact logFor_nested Exec.ample source maxCallDepth none

end ScopedScript
