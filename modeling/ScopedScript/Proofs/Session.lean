import ScopedScript.Session

/-!
# The stages one after the other

A source can be run if its tokens can be read, they are those of a program, and the program passes
its check. Here is what each stage says of the one behind it.
-/

namespace ScopedScript

theorem mapError_eq_ok {ε ε' α : Type} {x : Except ε α} {f : ε → ε'} {a : α} :
    x.mapError f = .ok a ↔ x = .ok a := by
  cases x with
  | error e => exact ⟨nofun, nofun⟩
  | ok b =>
    exact ⟨fun h => congrArg Except.ok (Except.ok.inj h),
      fun h => congrArg Except.ok (Except.ok.inj h)⟩

theorem read_eq_ok {source : String} {p : Program} :
    read source = .ok p ↔ ∃ ts, tokenize source = .ok ts ∧ parse ts = .ok p := by
  unfold read readTokens readProgram
  cases tokenize source with
  | error d => exact ⟨nofun, nofun⟩
  | ok ts =>
    refine ⟨fun h => ⟨ts, rfl, mapError_eq_ok.mp h⟩, ?_⟩
    rintro ⟨_, hsame, h⟩
    cases hsame
    exact mapError_eq_ok.mpr h

theorem tokenize_ofList (characters : List Char) :
    tokenize (String.ofList characters) =
      (⟨characters, .start⟩ : Cursor).collect (characters.length + 1) := by
  rw [tokenize, Cursor.start, String.toList_ofList, String.length_ofList]

-- The characters are given apart from the source: to take a text apart costs more than to read it.
theorem exists_read (source : String) {characters : List Char}
    (hsource : source = String.ofList characters) (holds : Program → Bool)
    (h : (((⟨characters, .start⟩ : Cursor).collect (characters.length + 1)).toOption.bind
      fun ts => (parse ts).toOption).any holds) :
    ∃ ts p, tokenize source = .ok ts ∧ parse ts = .ok p ∧ holds p := by
  rw [← tokenize_ofList, ← hsource] at h
  cases htokenize : tokenize source with
  | error fault =>
    rw [htokenize] at h
    cases h
  | ok ts =>
    cases hparse : parse ts with
    | error fault =>
      simp only [htokenize, Except.toOption, Option.bind_some, hparse] at h
      cases h
    | ok p =>
      simp only [htokenize, Except.toOption, Option.bind_some, hparse] at h
      exact ⟨ts, p, rfl, hparse, h⟩

theorem check_result (source : String) :
    (check source).result = read source >>= fun p => (checkProgram p).result := by
  unfold check read
  cases readTokens source with
  | error failure => rfl
  | ok ts =>
    simp only [bind, Except.bind]
    cases readProgram ts <;> rfl

theorem check_of_read {source : String} {p : Program} (h : read source = .ok p) :
    (check source).result = (checkProgram p).result := by
  rw [check_result, h]
  rfl

theorem checkProgram_eq_ok {p q : Program} (h : (checkProgram p).result = .ok q) :
    p = q ∧ ∃ checked, Check.program p .initial = .ok () checked := by
  unfold checkProgram at h
  cases hcheck : Check.program p .initial with
  | error fault state =>
    rw [hcheck] at h
    cases h
  | ok _ state =>
    rw [hcheck] at h
    cases h
    exact ⟨rfl, state, rfl⟩

/-- A source whose use of names was checked was accepted by the parser and by the checker. -/
theorem check_eq_ok {source : String} {p : Program} (h : (check source).result = .ok p) :
    ∃ ts checked, tokenize source = .ok ts ∧ parse ts = .ok p ∧
      Check.program p .initial = .ok () checked := by
  rw [check_result] at h
  cases hread : read source with
  | error failure =>
    rw [hread] at h
    cases h
  | ok q =>
    rw [hread] at h
    obtain ⟨rfl, checked, hcheck⟩ := checkProgram_eq_ok h
    obtain ⟨ts, htokenize, hparse⟩ := read_eq_ok.mp hread
    exact ⟨ts, checked, htokenize, hparse, hcheck⟩

/-- A source whose program passes a test is accepted. -/
theorem exists_checked (source : String) {characters : List Char}
    (hsource : source = String.ofList characters) (holds : Program → Bool)
    (h : (((⟨characters, .start⟩ : Cursor).collect (characters.length + 1)).toOption.bind
      fun ts => (parse ts).toOption).any fun p => (checkProgram p).result.toOption.any holds) :
    ∃ p ts checked, (check source).result = .ok p ∧ holds p ∧ parse ts = .ok p ∧
      Check.program p .initial = .ok () checked := by
  obtain ⟨ts, p, htokenize, hparse, haccepted⟩ := exists_read source hsource _ h
  cases hresult : (checkProgram p).result with
  | error failure =>
    rw [hresult] at haccepted
    cases haccepted
  | ok q =>
    rw [hresult] at haccepted
    obtain ⟨rfl, checked, hcheck⟩ := checkProgram_eq_ok hresult
    have hread : read source = .ok p := read_eq_ok.mpr ⟨ts, htokenize, hparse⟩
    exact ⟨p, ts, checked, (check_of_read hread).trans hresult, haccepted, hparse, hcheck⟩

/-- Runs a program on a machine for so many steps. -/
def Machine.executeFor (fuel : Nat) (m : Machine) (p : Program) : Option Failure × Machine :=
  match Exec.program fuel p m with
  | .ok _ after => (none, after)
  | .error halt after => (some (.ofHalt halt), after)

end ScopedScript
