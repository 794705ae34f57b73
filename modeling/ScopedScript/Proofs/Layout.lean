import ScopedScript.Proofs.Grammar.Naturality
import ScopedScript.Proofs.Lexing.Munch
import ScopedScript.Proofs.RoundTrip.Meaning

/-!
# The layout of a source

The layout of a source is where its tokens stand and how they are written. The stages behind the
tokens report failures at the positions of tokens, and layout decides nothing else.

Both are told by other tokens in the places of those that were read. If the other tokens are those
that were read, then so are the program and its failure, while every position at which no token
stands has moved: so no failure is reported there. And if they have no text and no position, they
are the same for all sources with the same kinds of tokens.
-/

namespace ScopedScript

/-! ## Tokens of a source -/

/-- A line and a column that count from one. -/
def Position.Counted (position : Position) : Prop := 1 ≤ position.line ∧ 1 ≤ position.column

theorem Position.Counted.advance {position : Position} (h : position.Counted) (c : Char) :
    (position.advance c).Counted := by
  unfold Position.advance
  split
  · exact ⟨Nat.le_add_left 1 _, Nat.le_refl 1⟩
  · exact ⟨h.1, Nat.le_add_left 1 _⟩

theorem Position.Counted.advanceBy {position : Position} (h : position.Counted)
    (text : List Char) : (position.advanceBy text).Counted := by
  induction text generalizing position with
  | nil => exact h
  | cons c text ih => exact ih (h.advance c)

namespace Cursor

theorem counted_next {cursor after : Cursor} {token : Token} (hcursor : cursor.position.Counted)
    (h : cursor.next = (.ok token, after)) : token.position.Counted ∧ after.position.Counted := by
  have hbehind := hcursor.advanceBy (Lexer.gap cursor.rest).1
  unfold next at h
  cases hlexeme : Lexer.lexeme? (Lexer.gap cursor.rest).2 with
  | none =>
    simp only [hlexeme] at h
    cases h
    exact ⟨hbehind, hbehind⟩
  | some lexeme =>
    simp only [hlexeme] at h
    split at h
    · cases h
      exact ⟨hbehind, hbehind.advanceBy lexeme.text⟩
    · cases h

theorem counted_of_collect {count : Nat} {cursor : Cursor} {ts : List Token}
    (hcursor : cursor.position.Counted) (h : collect count cursor = .ok ts) :
    ∀ t ∈ ts, t.position.Counted := by
  induction count generalizing cursor ts with
  | zero =>
    cases h
    exact List.forall_mem_nil _
  | succ count ih =>
    unfold collect at h
    split at h
    next => cases h
    next token after hnext =>
      obtain ⟨htoken, hafter⟩ := counted_next hcursor hnext
      split at h
      next =>
        cases h
        exact List.forall_mem_singleton.mpr htoken
      next =>
        cases hrest : collect count after with
        | error fault =>
          rw [hrest] at h
          cases h
        | ok rest =>
          rw [hrest] at h
          cases h
          exact List.forall_mem_cons.mpr ⟨htoken, ih hafter hrest⟩

end Cursor

section Tokens

variable {source : String} {ts : List Token} (htokenize : tokenize source = .ok ts)

include htokenize

theorem counted_of_tokenize : ∀ t ∈ ts, t.position.Counted :=
  Cursor.counted_of_collect ⟨Nat.le_refl 1, Nat.le_refl 1⟩ htokenize

theorem closed_of_tokenize : Parser.Closed ts := by
  obtain ⟨us, last, rfl, hlast, _⟩ := ends_of_tokenize htokenize
  exact ⟨last, List.mem_append_right us (List.mem_singleton_self last), hlast⟩

/-- What comes of a source is what comes of its tokens. -/
theorem check_of_tokens :
    (check source).result = readProgram ts >>= fun p => (checkProgram p).result := by
  rw [check_result, read, readTokens, htokenize]
  rfl

end Tokens

/-! ## Where failures are reported -/

/-- The position at which a failure is reported. -/
def Failure.position? : Failure → Option Position
  | .lexical d => some d.position
  | .syntactic d => some d.position
  | .scoping d => some d.position
  | .running d => some d.position
  | .outOfFuel => none

/-- A failure is reported at one of some tokens. -/
def Failure.IsAt (failure : Failure) (ts : List Token) : Prop :=
  ∃ t ∈ ts, failure.position? = some t.position

/-- The positions of some tokens stay, and all others move. -/
def Relabeling.astray (ts : List Token) : Relabeling :=
  let move (position : Position) : Position :=
    if position ∈ ts.map Token.position then position else ⟨position.line + 1, position.column⟩
  ⟨fun t => { t with position := move t.position }, move, fun _ => rfl⟩

section Astray

variable {ts : List Token}

theorem Relabeling.keepsKinds_astray (ts : List Token) : (astray ts).KeepsKinds := fun _ => rfl

/-- A position that stays is that of a token. -/
theorem Relabeling.exists_of_astray {position : Position}
    (h : (astray ts).position position = position) : ∃ t ∈ ts, position = t.position := by
  by_cases hmem : position ∈ ts.map Token.position
  · obtain ⟨t, ht, rfl⟩ := List.mem_map.mp hmem
    exact ⟨t, ht, rfl⟩
  · have hline := congrArg Position.line h
    simp only [astray, if_neg hmem] at hline
    exact absurd hline (Nat.succ_ne_self _)

/-- The tokens stay. -/
theorem Relabeling.map_astray (ts : List Token) : ts.map (astray ts).token = ts := by
  refine List.map_congr_left (fun t ht => ?_) |>.trans (List.map_id ts)
  have hmem : t.position ∈ ts.map Token.position := List.mem_map_of_mem ht
  simp only [astray, if_pos hmem, id]

/-- A fault that stays is at a token. -/
theorem Diagnostic.exists_of_astray {Cause : Type} {d : Diagnostic Cause}
    (h : d.relabel (.astray ts) = d) : ∃ t ∈ ts, d.position = t.position :=
  Relabeling.exists_of_astray (congrArg Diagnostic.position h)

variable (hts : Parser.Closed ts)

include hts

theorem syntactic_isAt {d : Diagnostic ParseFault} (h : parse ts = .error d) :
    (Failure.syntactic d).IsAt ts := by
  have hsame := parse_relabel (Relabeling.keepsKinds_astray ts) hts
  rw [Relabeling.map_astray, h] at hsame
  obtain ⟨t, ht, hposition⟩ := Diagnostic.exists_of_astray (Except.error.inj hsame).symm
  exact ⟨t, ht, congrArg some hposition⟩

/-- A program that was read from tokens has no others. -/
theorem relabel_astray {p : Program} (h : parse ts = .ok p) :
    p.map (Statement.relabel (.astray ts)) = p := by
  have hsame := parse_relabel (Relabeling.keepsKinds_astray ts) hts
  rw [Relabeling.map_astray, h] at hsame
  exact (Except.ok.inj hsame).symm

theorem scoping_isAt {p : Program} (h : parse ts = .ok p) {c after : Checker}
    {d : Diagnostic ScopeFault} (hfault : Check.program p c = .error d after) :
    (Failure.scoping d).IsAt ts := by
  have hsame := Check.program_natural (f := .astray ts) p c
  rw [Statement.relabelList_eq_map, relabel_astray hts h, hfault] at hsame
  obtain ⟨t, ht, hposition⟩ :=
    Diagnostic.exists_of_astray (EStateM.Result.error.inj hsame).1.symm
  exact ⟨t, ht, congrArg some hposition⟩

/-- No function is there at first, so all there will be come from the tokens. -/
theorem running_isAt {p : Program} (h : parse ts = .ok p) {fuel : Nat} {m : Machine}
    (hempty : m.stack.frames = #[]) {failure : Failure}
    (hfails : (m.executeFor fuel p).1 = some failure) :
    failure = .outOfFuel ∨ failure.IsAt ts := by
  have hsame := Exec.program_natural (f := .astray ts) fuel p m
  have hkeep : m.relabel (.astray ts) = m := by
    rw [Machine.relabel, Stack.relabel, hempty, Array.map_empty, ← hempty]
  rw [relabel_astray hts h, hkeep] at hsame
  unfold Machine.executeFor at hfails
  cases hrun : Exec.program fuel p m with
  | ok _ after =>
    rw [hrun] at hfails
    cases hfails
  | error halt after =>
    rw [hrun] at hfails hsame
    obtain rfl := Option.some.inj hfails
    cases halt with
    | outOfFuel => exact .inl rfl
    | fault d =>
      have hfault := Halt.fault.inj (EStateM.Result.error.inj hsame).1
      obtain ⟨t, ht, hposition⟩ := Diagnostic.exists_of_astray hfault.symm
      exact .inr ⟨t, ht, congrArg some hposition⟩

end Astray

theorem check_isAt {source : String} {ts : List Token} (htokenize : tokenize source = .ok ts)
    {failure : Failure} (h : (check source).result = .error failure) : failure.IsAt ts := by
  have hclosed := closed_of_tokenize htokenize
  rw [check_of_tokens htokenize, readProgram] at h
  cases hparse : parse ts with
  | error d =>
    rw [hparse] at h
    obtain rfl := Except.error.inj h
    exact syntactic_isAt hclosed hparse
  | ok p =>
    rw [hparse] at h
    replace h : (checkProgram p).result = .error failure := h
    unfold checkProgram at h
    cases hcheck : Check.program p .initial with
    | ok _ after =>
      rw [hcheck] at h
      cases h
    | error d after =>
      rw [hcheck] at h
      obtain rfl := Except.error.inj h
      exact scoping_isAt hclosed hparse hcheck

theorem runFor_isAt {source : String} {ts : List Token} (htokenize : tokenize source = .ok ts)
    {fuel : Nat} {m : Machine} (hempty : m.stack.frames = #[]) {failure : Failure}
    (h : (runFor fuel source m).1 = some failure) : failure = .outOfFuel ∨ failure.IsAt ts := by
  unfold runFor at h
  cases hcheck : (check source).result with
  | error failure' =>
    rw [hcheck] at h
    obtain rfl := Option.some.inj h
    exact .inr (check_isAt htokenize hcheck)
  | ok p =>
    rw [hcheck] at h
    obtain ⟨ts', _, htokenize', hparse, _⟩ := check_eq_ok hcheck
    obtain rfl := Except.ok.inj (htokenize.symm.trans htokenize')
    exact running_isAt (closed_of_tokenize htokenize) hparse hempty h

/-- A source that can be read into tokens fails at one of these, whatever stage it fails in. So the
place that is reported when there is no token is never reported: lines and columns count from
one. -/
theorem failure_at_token {source : String} {ts : List Token}
    (htokenize : tokenize source = .ok ts) :
    (∀ t ∈ ts, 1 ≤ t.position.line ∧ 1 ≤ t.position.column) ∧
    (∀ failure, (check source).result = .error failure → failure.IsAt ts) ∧
    (∀ fuel m, m.stack.frames = #[] → ∀ failure, (runFor fuel source m).1 = some failure →
      failure = .outOfFuel ∨ failure.IsAt ts) ∧
    ∀ limit failure, (run source limit).failure = some failure →
      failure = .outOfFuel ∨ failure.IsAt ts := by
  refine ⟨counted_of_tokenize htokenize, fun _ => check_isAt htokenize,
    fun _ _ hempty _ => runFor_isAt htokenize hempty, fun limit failure hfails => ?_⟩
  rw [(run_eq source limit).2] at hfails
  exact runFor_isAt htokenize rfl hfails

/-- A division by zero in a call is reported at the sign on the line of the function. -/
theorem failure_at_token_division : ∃ ts,
    tokenize "func(int) f(var(int) x)\x7b\n  return 1//x;\x7d\nprint(f(0));" = .ok ts ∧
    (runFor 60 "func(int) f(var(int) x)\x7b\n  return 1//x;\x7d\nprint(f(0));"
      (.initial 5 none)).1 = some (.running ⟨.divisionByZero, ⟨2, 11⟩⟩) ∧
    ∃ t ∈ ts, t.position = ⟨2, 11⟩ := by
  obtain ⟨ts, p, htokenize, -⟩ := exists_read
    "func(int) f(var(int) x)\x7b\n  return 1//x;\x7d\nprint(f(0));" rfl (fun _ => true)
    (by decide +kernel)
  have hfails : (runFor 60 "func(int) f(var(int) x)\x7b\n  return 1//x;\x7d\nprint(f(0));"
      (.initial 5 none)).1 = some (.running ⟨.divisionByZero, ⟨2, 11⟩⟩) := by decide +kernel
  obtain hfuel | ⟨t, ht, hposition⟩ :=
    (failure_at_token htokenize).2.2.1 60 (.initial 5 none) rfl _ hfails
  · cases hfuel
  · exact ⟨ts, htokenize, hfails, t, ht, (Option.some.inj hposition).symm⟩

/-! ## What layout decides -/

/-- What came of tokens that were read, without positions. -/
def bareRead (result : Except (Diagnostic ParseFault) Program) :
    Except (Diagnostic ParseFault) Program :=
  (result.map Program.bare).mapError (Diagnostic.relabel .forget)

/-- Tokens without text and position are read as the same program, without places, or with the same
fault. -/
theorem parse_bare {ts : List Token} (hts : Parser.Closed ts) :
    parse (ts.map Token.bare) = bareRead (parse ts) := by
  have hforget : parse (ts.map Token.bare) = relabelRead .forget (parse ts) :=
    parse_relabel (f := .forget) (fun _ => rfl) hts
  rw [hforget]
  cases parse ts with
  | error d => rfl
  | ok p =>
    rw [relabelRead, ← Statement.relabelList_eq_map, Statement.relabelList_forget]
    rfl

/-- What comes of a source, without positions, is what comes of its tokens without text and
position. -/
theorem check_bare {source : String} {ts : List Token} (htokenize : tokenize source = .ok ts) :
    bareResult (check source).result =
      readProgram (ts.map Token.bare) >>= fun p => (checkProgram p).result := by
  rw [check_of_tokens htokenize, readProgram, readProgram,
    parse_bare (closed_of_tokenize htokenize)]
  cases parse ts with
  | error d => rfl
  | ok p => exact (checkProgram_bare p).symm

/-- Layout does not matter. Two sources whose tokens are of the same kinds are read as the same
program up to places, or have the same fault. Both are accepted, or both are rejected for the same
reason. For any number of steps and from any state in which nothing runs, both have printed the same
and left the same variables, and both are at their end, or both have halted for the same reason, or
neither is done; so one goes on forever exactly if the other does. -/
theorem layout_means_same {source source' : String} {ts ts' : List Token}
    (htokenize : tokenize source = .ok ts) (htokenize' : tokenize source' = .ok ts')
    (hkinds : ts'.map Token.kind = ts.map Token.kind) :
    bareRead (parse ts') = bareRead (parse ts) ∧
    bareResult (check source').result = bareResult (check source).result ∧
    (∀ fuel m, m.stack.frames = #[] → RunsAlike (runFor fuel source' m) (runFor fuel source m)) ∧
    ∀ limit, (run source' limit).output = (run source limit).output ∧
      (run source' limit).failure.map Failure.bare =
        (run source limit).failure.map Failure.bare := by
  have hbare : ts'.map Token.bare = ts.map Token.bare := by
    have hsame := congrArg (List.map fun kind => Token.mk kind "" .nowhere) hkinds
    rwa [List.map_map, List.map_map] at hsame
  have hcheck : bareResult (check source').result = bareResult (check source).result := by
    rw [check_bare htokenize, check_bare htokenize', hbare]
  refine ⟨?_, hcheck, fun _ _ hempty => runFor_alike hcheck _ hempty, run_alike hcheck⟩
  rw [← parse_bare (closed_of_tokenize htokenize), ← parse_bare (closed_of_tokenize htokenize'),
    hbare]

/-- Blanks, line feeds, comments and zeros at the end of a number. -/
theorem layout_means_same_comment : ∃ ts ts',
    tokenize "print(1.50);print(1//0);" = .ok ts ∧
    tokenize "print ( 1.5 ) ; /* one\n */\nprint(1 // 0);" = .ok ts' ∧
    ts'.map Token.kind = ts.map Token.kind ∧ ts' ≠ ts ∧
    (runFor 60 "print ( 1.5 ) ; /* one\n */\nprint(1 // 0);"
      (.initial 5 none)).2.output.text = "1.5\n" ∧
    (runFor 60 "print ( 1.5 ) ; /* one\n */\nprint(1 // 0);"
      (.initial 5 none)).1.map Failure.bare = some (.running ⟨.divisionByZero, .nowhere⟩) := by
  obtain ⟨ts, _, htokenize, -⟩ := exists_read "print(1.50);print(1//0);" rfl
    (fun _ => true) (by decide +kernel)
  obtain ⟨ts', _, htokenize', -⟩ := exists_read
    "print ( 1.5 ) ; /* one\n */\nprint(1 // 0);" rfl (fun _ => true)
    (by decide +kernel)
  have hkinds : ((tokenize "print ( 1.5 ) ; /* one\n */\nprint(1 // 0);").toOption.map
      (List.map Token.kind)) = (tokenize "print(1.50);print(1//0);").toOption.map
        (List.map Token.kind) := by decide +kernel
  have hother : (tokenize "print ( 1.5 ) ; /* one\n */\nprint(1 // 0);").toOption ≠
      (tokenize "print(1.50);print(1//0);").toOption := by decide +kernel
  rw [htokenize, htokenize'] at hkinds hother
  replace hkinds : ts'.map Token.kind = ts.map Token.kind := Option.some.inj hkinds
  have hruns := (layout_means_same htokenize htokenize' hkinds).2.2.1 60 (.initial 5 none) rfl
  refine ⟨ts, ts', htokenize, htokenize', hkinds, fun heq => hother (heq ▸ rfl), ?_, ?_⟩
  · rw [hruns.output]
    decide +kernel
  · rw [hruns.failure]
    decide +kernel

end ScopedScript
