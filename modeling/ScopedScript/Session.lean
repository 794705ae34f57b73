import ScopedScript.Run.Interpreter
import ScopedScript.Scope.Checker
import ScopedScript.Token.Lexer
import ScopedScript.Tree.Parser.Statement

/-!
# From source text to a finished run

A source goes through four stages, and the first failure ends it: it is read into tokens, these
into a program, the use of names is checked, and the program runs. A session runs one program after
the other on the same machine.
-/

namespace ScopedScript

/-- A failure of any stage. -/
inductive Failure where
  | lexical (diagnostic : Diagnostic LexFault)
  | syntactic (diagnostic : Diagnostic ParseFault)
  | scoping (diagnostic : Diagnostic ScopeFault)
  | running (diagnostic : Diagnostic RuntimeFault)
  | outOfFuel
  deriving DecidableEq

namespace Failure

/-- The line that reports a failure. -/
def report : Failure → String
  | lexical d => d.report LexFault.wording
  | syntactic d => d.report ParseFault.wording
  | scoping d => d.report ScopeFault.wording
  | running d => d.report RuntimeFault.wording
  | outOfFuel => "Out of steps."

/-- The failure of a run that halted. -/
def ofHalt : Halt → Failure
  | .fault d => running d
  | .outOfFuel => outOfFuel

end Failure

/-! ## Stages before the run -/

/-- The tokens of a source. -/
def readTokens (source : String) : Except Failure (List Token) :=
  (tokenize source).mapError .lexical

/-- The program of a list of tokens. -/
def readProgram (tokens : List Token) : Except Failure Program :=
  (parse tokens).mapError .syntactic

/-- A source as a program. -/
def read (source : String) : Except Failure Program := do
  readProgram (← readTokens source)

/-- What came of a source, and what happened on the way, the earliest first. -/
structure Logged (α : Type) where
  events : List Event
  result : Except Failure α

/-- A program whose use of names is checked. -/
def checkProgram (p : Program) : Logged Program :=
  match Check.program p .initial with
  | .error d state => ⟨state.events.reverse, .error (.scoping d)⟩
  | .ok _ state =>
    ⟨state.events.reverse ++ [.programAnalyzed state.scopes.scopes.size, .analyzed], .ok p⟩

/-- A source as a program whose use of names was checked. -/
def check (source : String) : Logged Program :=
  match readTokens source with
  | .error failure => ⟨[], .error failure⟩
  | .ok tokens =>
    let tokenized := [.sourceTokenized tokens.length, .tokenized tokens.length]
    match readProgram tokens with
    | .error failure => ⟨tokenized, .error failure⟩
    | .ok p =>
      let parsed := [.programParsed p.length, .parsed p.length]
      let checked := checkProgram p
      ⟨tokenized ++ parsed ++ checked.events, checked.result⟩

/-! ## Runs -/

/-- Runs a program on a machine. -/
def Machine.execute (m : Machine) (p : Program) : Option Failure × Machine :=
  match Exec.program Exec.ample p m with
  | .ok _ after => (none, after)
  | .error halt after => (some (.ofHalt halt), after)

/-- What came of a source that was to run. -/
structure Run where
  /-- What happened, the earliest first. -/
  events : List Event
  output : String
  failure : Option Failure

/-- All four stages, on a fresh machine that bounds how many calls are under way. -/
def run (source : String) (maxCallDepth : Nat) : Run :=
  match check source with
  | ⟨events, .error failure⟩ => ⟨events, "", some failure⟩
  | ⟨events, .ok p⟩ =>
    let (failure, m) := (Machine.initial maxCallDepth none).execute p
    ⟨events ++ m.events.reverse, m.output.text, failure⟩

end ScopedScript
