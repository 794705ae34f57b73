import ScopedScript.Proofs.Log.Replay
import ScopedScript.Proofs.Scoping.History

/-!
# What a check records of its scopes

A check records every scope that it opens and closes. A scope is closed whatever comes of the check
inside, and by then the scope that is current is the one that was opened: a check leaves the same
scope current, with its name and its level. So the record of a check closes every scope that it
opened, whether a fault is found or not.
-/

namespace ScopedScript

/-! ## Scopes that stay as they were named -/

namespace ScopeTree

/-- What a record tells of the current scope. -/
def opening (tree : ScopeTree) : OpenScope := ⟨tree.current.name, tree.current.level⟩

variable {tree after last : ScopeTree}

/-- Scopes can have come behind, and the current one is the one that it was, as it was named. -/
structure Resumes (tree after : ScopeTree) : Prop where
  grows : tree.Grows after
  opening : after.opening = tree.opening

theorem Resumes.refl (tree : ScopeTree) : tree.Resumes tree := ⟨.refl tree, rfl⟩

theorem Resumes.trans (h : tree.Resumes after) (h' : after.Resumes last) : tree.Resumes last :=
  ⟨h.grows.trans h'.grows, h'.opening.trans h.opening⟩

/-- A declaration adds to the current scope alone. -/
theorem resumes_insert (tree : ScopeTree) (symbol : Symbol) :
    tree.Resumes (tree.insert symbol).2 := by
  refine ⟨grows_insert symbol, ?_⟩
  unfold insert
  split
  · rfl
  · simp only [opening, current, modifyCurrent, Array.getElem?_modify, if_pos]
    cases tree.scopes[tree.currentIndex]? <;> rfl

/-- Behind a scope the one around it is current again. -/
theorem resumes_exit (hlive : tree.currentIndex < tree.scopes.size) {name : String}
    (h : (tree.enter name).Grows after) : tree.Resumes after.exit := by
  have hrestored := restored_exit h
  refine ⟨hrestored.grows, ?_⟩
  simp only [opening, current, hrestored.current, hrestored.scopes _ hlive]

end ScopeTree

/-! ## Records -/

/-- The record of a state tells which scopes are open, and tells of nothing else. -/
structure Checker.Recorded (opened : List OpenScope) (c : Checker) : Prop where
  live : c.scopes.currentIndex < c.scopes.scopes.size
  opened : openScopes c.events.reverse = some opened
  only : ∀ event ∈ c.events, event.ofFrames = false

namespace Checker

variable {c after : Checker} {opened : List OpenScope}

theorem recorded_initial : Recorded [] .initial := ⟨by decide, rfl, nofun⟩

/-- What changes no more than names in the current scope leaves the record as it is. -/
theorem Recorded.resumes (h : c.Recorded opened) (hscopes : c.scopes.Resumes after.scopes)
    (hevents : after.events = c.events) : after.Recorded opened := by
  refine ⟨?_, by rw [hevents, h.opened], by rw [hevents]; exact h.only⟩
  rw [hscopes.grows.current]
  exact Nat.lt_of_lt_of_le h.live hscopes.grows.size

theorem Recorded.enterScope (h : c.Recorded opened) (name : String) :
    (Check.enterScope name c).Recorded ((Check.enterScope name c).scopes.opening :: opened) where
  live := by simp [Check.enterScope, ScopeTree.enter]
  opened := by
    have hname : (c.scopes.enter name).current.name = name := by
      simp only [ScopeTree.current, ScopeTree.enter, Array.getElem?_push_size, Option.getD_some]
    simp only [Check.enterScope, List.reverse_cons]
    rw [openScopes_concat h.opened, Event.replayScopes, ScopeTree.opening, hname]
  only := List.forall_mem_cons.mpr ⟨rfl, h.only⟩

/-- The scope that is closed is recorded as it was opened. -/
theorem Recorded.leaveScope (h : c.Recorded (c.scopes.opening :: opened)) :
    openScopes (Check.leaveScope c).events.reverse = some opened ∧
      ∀ event ∈ (Check.leaveScope c).events, event.ofFrames = false := by
  refine ⟨?_, List.forall_mem_cons.mpr ⟨rfl, h.only⟩⟩
  simp only [Check.leaveScope, List.reverse_cons]
  rw [openScopes_concat h.opened]
  exact if_pos rfl

end Checker

/-! ## Checks -/

namespace Check

/-- What is recorded and the scopes that are open are kept, from one state to another. -/
def Records (c after : Checker) : Prop :=
  ∀ opened : List OpenScope, c.Recorded opened →
    after.Recorded opened ∧ c.scopes.Resumes after.scopes

section Records

variable {c after : Checker}

/-- No more than names in the current scope changes. -/
theorem records_of_resumes (hscopes : c.scopes.Resumes after.scopes)
    (hevents : after.events = c.events) : Records c after :=
  fun _ hc => ⟨hc.resumes hscopes hevents, hscopes⟩

theorem Records.trans {last : Checker} (h : Records c after) (h' : Records after last) :
    Records c last := by
  intro opened hc
  obtain ⟨hrecorded, hscopes⟩ := h opened hc
  obtain ⟨hlast, hscopes'⟩ := h' opened hrecorded
  exact ⟨hlast, hscopes.trans hscopes'⟩

/-- A scope that is opened is closed, and recorded so. -/
theorem Records.scope {name : String} (h : Records (enterScope name c) after) :
    Records c (leaveScope after) := by
  intro opened hc
  obtain ⟨hrecorded, hscopes⟩ := h _ (hc.enterScope name)
  rw [← hscopes.opening] at hrecorded
  obtain ⟨hopened, honly⟩ := hrecorded.leaveScope
  have hexit := ScopeTree.resumes_exit hc.live hscopes.grows
  exact ⟨⟨(hexit.grows.current ▸ hc.live).trans_le hexit.grows.size, hopened, honly⟩, hexit⟩

/-- Surroundings other than scopes do not matter. -/
theorem Records.around {entered left : Checker} (h : Records entered after)
    (hentered : entered.scopes = c.scopes ∧ entered.events = c.events)
    (hleft : left.scopes = after.scopes ∧ left.events = after.events) : Records c left :=
  (records_of_resumes (hentered.1 ▸ .refl _) hentered.2).trans
    (h.trans (records_of_resumes (hleft.1 ▸ .refl _) hleft.2))

/-- Every step of a check keeps the record. -/
theorem leads_records : Leads Records where
  refl c := records_of_resumes (.refl c.scopes) rfl
  trans := .trans
  declare c symbol := records_of_resumes (c.scopes.resumes_insert symbol) rfl
  scope _ h := h.scope
  mark c _ := records_of_resumes (c.scopes.resumes_insert _) rfl
  loop h := h.around ⟨rfl, rfl⟩ ⟨rfl, rfl⟩
  function _ h := h.around ⟨rfl, rfl⟩ ⟨rfl, rfl⟩

/-- The record of a program closes all its scopes, whether the program is accepted or not. -/
theorem program_recorded (p : Program) : (final (program p) .initial).Recorded [] :=
  (leads_records.inScope (leads_records.statements p) "global" .initial []
    Checker.recorded_initial).1

end Records

end Check

end ScopedScript
