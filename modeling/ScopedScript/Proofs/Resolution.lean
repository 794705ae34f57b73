import ScopedScript.Proofs.Resolution.Distinct
import ScopedScript.Proofs.Resolution.Tracking
import ScopedScript.Proofs.Scoping

/-!
# Which declarations variables reach

A use of a variable stands for the nearest declaration of its name that was made before it, and this
is the one that the checker finds. A run looks in the frames that are visible when the use is
executed. These match the pieces of text around the use, one by one, so that it reaches a
declaration of one of them.

It is the declaration that the use stands for unless a nearer frame binds the name. That can be so
where the text of that frame declares the name further down: inside a function that is called after
that, and in a later round of a `for` loop, whose rounds share a frame.
-/

namespace ScopedScript

/-! ## Declarations -/

/-- The piece of text so many layers outward declares a name by a token, and by no other. -/
def Place.Declares (place : Place) (name : String) (far : Nat) (token : Token) : Prop :=
  ∃ layer, place[far]? = some layer ∧ ∀ other, (name, other) ∈ layer.locals ↔ other = token

/-- The nearest declaration of the name of a use that was made before it. -/
def Use.StandsFor (use : Use) (far : Nat) (token : Token) : Prop :=
  use.place.hops? use.name = some far ∧ use.place.Declares use.name far token

/-- The declaration that a use reaches: the frames that are visible match the layers around the use,
and the nearest of them that binds the name is the one of the declaration. -/
def Use.Reaches (use : Use) (stack : Stack) (near : Nat) (token : Token) : Prop :=
  stack.Aligns stack.topIndex? use.place ∧ stack.hops? use.name = some near ∧
    use.place.Declares use.name near token

/-- A use reaches the declaration that it stands for, or one that is nearer but comes after the use
in its text. The latter is not so if the use is settled. -/
def Use.Resolved (use : Use) (stack : Stack) : Prop :=
  ∃ near reached far declared, use.Reaches stack near reached ∧ use.StandsFor far declared ∧
    (near = far ∧ reached = declared ∨
      near < far ∧ use.settled = false ∧ ∃ layer, use.place[near]? = some layer ∧
        layer.symbols.find? use.name = none)

theorem Place.Proper.declares {place : Place} (h : place.Proper) {layer : Layer} {far : Nat}
    (hlayer : place[far]? = some layer) {name : String} {token : Token}
    (htoken : (name, token) ∈ layer.locals) : place.Declares name far token := by
  refine ⟨layer, hlayer, fun other => ⟨fun hother => ?_, fun heq => heq ▸ htoken⟩⟩
  exact (h layer (List.mem_of_getElem? hlayer)).unique hother htoken

/-- A name that stands for a variable is declared in a layer. -/
theorem Place.exists_hops {place : Place} {name : String} {type : Ty}
    (h : place.env.lookup? name = some (.var type)) : ∃ far layer, place.hops? name = some far ∧
      place[far]? = some layer ∧ layer.symbols.find? name = some (.var type) := by
  induction place with
  | nil => exact absurd h builtinSymbols_ne_var
  | cons layer place ih =>
    rw [Place.env_cons, Env.lookup?] at h
    simp only [Place.hops?, List.findIdx?_cons] at ih ⊢
    cases hsymbol : layer.symbols.find? name with
    | some kind =>
      rw [hsymbol, Option.some_or, Option.some.injEq] at h
      exact ⟨0, layer, rfl, rfl, h ▸ hsymbol⟩
    | none =>
      rw [hsymbol, Option.none_or] at h
      obtain ⟨far, found, hfar, hfound, htype⟩ := ih h
      exact ⟨far + 1, found, by rw [hfar]; rfl, hfound, htype⟩

namespace Use

variable {use : Use}

theorem exists_standsFor (hproper : use.place.Proper)
    (hnamed : Rules.named.use use.place.env use.name) : ∃ far token, use.StandsFor far token := by
  obtain ⟨kind, hlookup, hkind⟩ := (Option.any_eq_true _ _).mp hnamed
  cases kind with
  | var type =>
    obtain ⟨far, layer, hfar, hlayer, htype⟩ := Place.exists_hops hlookup
    obtain ⟨token, htoken⟩ :=
      (hproper layer (List.mem_of_getElem? hlayer)).declared use.name type htype
    exact ⟨far, token, hfar, hproper.declares hlayer htoken⟩
  | _ => cases hkind

theorem Met.resolved {stack : Stack} (h : use.Met stack) (hproper : use.place.Proper)
    {far : Nat} {declared : Token} (hstands : use.StandsFor far declared) :
    use.Resolved stack := by
  obtain ⟨haligns, near, far', hnear, hfar', hle, hnearer⟩ := id h
  obtain rfl := Option.some.inj (hstands.1.symm.trans hfar')
  rcases Nat.lt_or_eq_of_le hle with hlt | rfl
  · obtain ⟨layer, token, hlayer, hsymbol, htoken⟩ := hnearer hlt
    have hmem := (hproper layer (List.mem_of_getElem? hlayer)).within htoken
    refine ⟨near, token, far, declared, ⟨haligns, hnear, hproper.declares hlayer hmem⟩, hstands,
      .inr ⟨hlt, ?_, layer, hlayer, hsymbol⟩⟩
    rw [Bool.eq_false_iff]
    intro hsettled
    have heq := h.hops?_eq hsettled
    rw [hnear, hstands.1] at heq
    cases heq
    exact Nat.lt_irrefl _ hlt
  · exact ⟨near, declared, near, declared, ⟨haligns, hnear, hstands.2⟩, hstands, .inl ⟨rfl, rfl⟩⟩

end Use

/-! ## What the checker finds -/

namespace ScopeTree

/-- How many links outward the nearest scope that declares a name lies. -/
def hops? (tree : ScopeTree) (name : String) : Option Nat :=
  tree.chain.findIdx? fun i => ((tree.scopes[i]?).bind (·.find? name)).isSome

/-- A variable is found as far outward in the scopes as in the layers that they show. -/
theorem hops_of_shows {tree : ScopeTree} {place : Place} {i count : Nat}
    (h : tree.Shows i place.env) (hcount : i < count) {name : String} {symbol : Symbol}
    (hfound : (chainUpTo tree.link count i).findSome?
      (fun j => (tree.scopes[j]?).bind (·.find? name)) = some symbol)
    {type : Ty} (hkind : symbol.kind = .var type) :
    (chainUpTo tree.link count i).findIdx?
      (fun j => ((tree.scopes[j]?).bind (·.find? name)).isSome) = place.hops? name := by
  induction place generalizing i count with
  | nil =>
    have hlookup := lookup_of_shows h hcount hfound (by rw [hkind]; nofun)
    rw [hkind] at hlookup
    exact absurd hlookup builtinSymbols_ne_var
  | cons layer place ih =>
    obtain ⟨count, rfl⟩ : ∃ less, count = less + 1 := ⟨count - 1, by omega⟩
    obtain ⟨scope, outer, hscope, hrecords, houter, hlt, hshows⟩ := h
    simp only [chainUpTo, link, hscope, Option.bind_some, houter, List.findSome?_cons,
      List.findIdx?_cons, Scope.find?, Option.isSome_map, Place.hops?] at hfound ih ⊢
    cases hsymbol : scope.symbols.find? name with
    | none =>
      have hlayer : layer.symbols.find? name = none := by
        obtain heq | heq := hrecords name
        · rw [← heq, hsymbol]
        · rw [heq] at hsymbol
          cases hsymbol
      simp only [hsymbol, Option.map_none] at hfound
      simp only [hlayer, Option.isSome_none, ih hshows (by omega) hfound]
    | some kind =>
      simp only [hsymbol, Option.map_some, Option.some.injEq] at hfound
      subst hfound
      have hlayer : layer.symbols.find? name = some kind := by
        obtain heq | heq := hrecords name
        · rw [← heq, hsymbol]
        · rw [heq] at hsymbol
          rw [← Option.some.inj hsymbol] at hkind
          cases hkind
      simp only [hlayer, Option.isSome_some, if_true]

end ScopeTree

/-- A use that the checker accepts in scopes that show its place is found as far outward there as
the declaration that it stands for. -/
theorem Use.StandsFor.hops_checked {use : Use} {far : Nat} {token : Token}
    (h : use.StandsFor far token) {before after : Checker} {position : Position}
    (hshows : before.scopes.Shows before.scopes.currentIndex use.place.env)
    (hcheck : Check.variableUse use.name position before = .ok () after) :
    before.scopes.hops? use.name = some far := by
  obtain ⟨state, middle, hget, hcheck⟩ := bind_eq_ok.mp hcheck
  cases hget
  cases hlookup : before.scopes.lookup? use.name with
  | none =>
    rw [hlookup] at hcheck
    cases hcheck
  | some symbol =>
    obtain ⟨found, kind⟩ := symbol
    rw [hlookup] at hcheck
    cases kind with
    | var type =>
      rw [← h.1]
      exact ScopeTree.hops_of_shows hshows (Nat.lt_succ_self _) hlookup rfl
    | _ => cases hcheck

/-! ## Accepted programs -/

/-- What the uses of variables in a program that is accepted stand for and reach. Each stands for
one declaration, and it is the one that the checker finds. Whenever a variable is read or assigned,
what is reached is that declaration, unless a frame that is nearer binds a variable of the name that
is declared after the use; settled uses always reach the declaration that they stand for. -/
theorem variables_resolved {ts : List Token} {p : Program} {checked : Checker}
    (hparse : parse ts = .ok p) (hcheck : Check.program p .initial = .ok () checked)
    (fuel maxCallDepth : Nat) (limit : Option Nat) :
    (∀ use ∈ p.uses, ∃ far token, use.StandsFor far token ∧
      ∀ before after position, before.scopes.Shows before.scopes.currentIndex use.place.env →
        Check.variableUse use.name position before = .ok () after →
          before.scopes.hops? use.name = some far) ∧
    ¬ Exec.Meets (fun moment m => ¬ moment.AtUse p.uses Use.Resolved m) fuel p
      (.initial maxCallDepth limit) := by
  have hcover : Rules.named.Cover p.uses := by
    intro use huse
    exact Rules.naming.use _ _
      (Program.cover_uses Rules.naming (follows_of_accepted hparse hcheck) use huse)
  have hproper := Program.proper_uses (Check.program_distinct hcheck)
  constructor
  · intro use huse
    obtain ⟨far, token, hstands⟩ := use.exists_standsFor (hproper use huse) (hcover use huse)
    exact ⟨far, token, hstands, fun _ _ _ => hstands.hops_checked⟩
  · refine Exec.not_meets_use hcover ?_ (List.Subset.refl _) fuel rfl
    intro use huse stack hmet
    obtain ⟨far, token, hstands⟩ := use.exists_standsFor (hproper use huse) (hcover use huse)
    exact hmet.resolved (hproper use huse) hstands

/-- A function reads a variable that stands for the one of the program, two layers outward, but the
block of the function has declared another one by the time of the call, and the run prints that.
Where the block declares it under another name, all uses are settled. -/
theorem variables_resolved_later :
    (∃ p,
      (check "var(int) x = 1; if true {func(void) f() {print(x);} var(int) x = 2; f();}").result =
        .ok p ∧
      (∃ use ∈ p.uses, use.name = "x" ∧ use.place.hops? "x" = some 2 ∧ use.settled = false) ∧
      (run "var(int) x = 1; if true {func(void) f() {print(x);} var(int) x = 2; f();}"
        100).output = "2\n" ∧
      ¬ Exec.Meets (fun moment m => ¬ moment.AtUse p.uses Use.Resolved m) Exec.ample p
        (.initial 100 none)) ∧
    ∃ p,
      (check "var(int) x = 1; if true {func(void) f() {print(x);} var(int) y = 2; f();}").result =
        .ok p ∧
      p.uses.all Use.settled ∧
      (∀ use ∈ p.uses, ∃ far token, use.StandsFor far token) ∧
      ¬ Exec.Meets (fun moment m => ¬ moment.AtUse p.uses Use.Resolved m) Exec.ample p
        (.initial 100 none) := by
  constructor
  · obtain ⟨p, ts, checked, hresult, hany, hparse, hcheck⟩ := exists_checked
      "var(int) x = 1; if true {func(void) f() {print(x);} var(int) x = 2; f();}" rfl
      (fun p => p.uses.any fun use =>
        use.name = "x" && use.place.hops? "x" = some 2 && !use.settled) (by decide +kernel)
    obtain ⟨use, huse, hholds⟩ := List.any_eq_true.mp hany
    simp only [Bool.and_eq_true, decide_eq_true_eq, Bool.not_eq_true'] at hholds
    exact ⟨p, hresult, ⟨use, huse, hholds.1.1, hholds.1.2, hholds.2⟩, by decide +kernel,
      (variables_resolved hparse hcheck Exec.ample 100 none).2⟩
  · obtain ⟨p, ts, checked, hresult, hall, hparse, hcheck⟩ := exists_checked
      "var(int) x = 1; if true {func(void) f() {print(x);} var(int) y = 2; f();}" rfl
      (fun p => p.uses.all Use.settled) (by decide +kernel)
    have hresolved := variables_resolved hparse hcheck Exec.ample 100 none
    refine ⟨p, hresult, hall, fun use huse => ?_, hresolved.2⟩
    obtain ⟨far, token, hstands, _⟩ := hresolved.1 use huse
    exact ⟨far, token, hstands⟩

end ScopedScript
