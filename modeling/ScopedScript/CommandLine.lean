import ScopedScript.Session
import ScopedScript.Tree.Outline
import ScopedScript.Tree.Printer

/-!
# The command line

A command names one file, which it runs, checks, or shows in one of its forms. Options stand before
or behind the file; `--` ends them. A command that cannot be understood ends with exit code two, and
one that fails with exit code one.
-/

namespace ScopedScript

/-- The forms of a source that can be shown. -/
inductive Form where
  | tokens
  | tree
  | source
  deriving DecidableEq

/-- The form of a name. -/
def Form.ofName? : String → Option Form
  | "tokens" => some .tokens
  | "ast" => some .tree
  | "source" => some .source
  | _ => none

/-- What is asked for. -/
structure Command where
  file : String
  /-- The form to show, in place of running the program. -/
  emit : Option Form
  checkOnly : Bool
  maxCallDepth : Nat
  deriving DecidableEq

/-! ## Reading arguments -/

/-- The arguments read so far. Nothing can be given twice. -/
structure Given where
  file : Option String
  emit : Option Form
  checkOnly : Bool
  maxCallDepth : Option Nat

namespace Given

/-- No argument read yet. -/
def nothing : Given := ⟨none, none, false, none⟩

/-- An option that takes a value. -/
inductive Setting where
  | emit
  | maxCallDepth

/-- A file, unless there is one already. Its name is not empty. -/
def addFile (given : Given) (name : String) : Option Given :=
  if given.file.isNone && name ≠ "" then some { given with file := some name } else none

/-- The wish to stop after the check, unless it was given already. -/
def addCheck (given : Given) : Option Given :=
  if given.checkOnly then none else some { given with checkOnly := true }

/-- A count: an optional plus sign and digits, of a value below `2 ^ 64`. -/
def count? (text : String) : Option Nat :=
  let digits := match text.toList with
    | '+' :: rest => rest
    | cs => cs
  if digits ≠ [] && digits.all Char.isDigit then
    let n := Decimal.natUpTo (Nat.pow 2 64) digits
    if n < Nat.pow 2 64 then some n else none
  else none

/-- The value of an option, unless it was given already. -/
def addSetting (given : Given) (setting : Setting) (value : String) : Option Given :=
  match setting with
  | .emit =>
    if given.emit.isNone then
      (Form.ofName? value).map fun form => { given with emit := some form }
    else none
  | .maxCallDepth =>
    if given.maxCallDepth.isNone then
      (count? value).map fun n => { given with maxCallDepth := some n }
    else none

/-- Whether an argument cannot be the value of the option before it. -/
def isOption (argument : List Char) : Bool :=
  match argument with
  | '-' :: _ :: _ => true
  | _ => false

/-- What an argument of options means: the arguments with it, and an option that still needs a
value. -/
abbrev Reading := Option (Given × Option Setting)

/-- An option with a long name, the dashes left out; a value follows `=`. -/
def addLong (given : Given) (text : List Char) : Reading :=
  let name := String.ofList (text.takeWhile (· ≠ '='))
  let value? := match text.dropWhile (· ≠ '=') with
    | [] => none
    | _ :: value => some (String.ofList value)
  let set (setting : Setting) : Reading :=
    match value? with
    | some value => (given.addSetting setting value).map (·, none)
    | none => some (given, some setting)
  match name, value? with
  | "emit", _ => set .emit
  | "max-call-depth", _ => set .maxCallDepth
  | "check", none => given.addCheck.map (·, none)
  | _, _ => none

/-- Options of one letter, the dash left out. What follows the letter of an option with a value is
that value, with or without `=` before it. -/
def addShort (given : Given) : List Char → Reading
  | [] => some (given, none)
  | 'c' :: rest => do addShort (← given.addCheck) rest
  | ['e'] => some (given, some .emit)
  | 'e' :: '=' :: value => (given.addSetting .emit (String.ofList value)).map (·, none)
  | 'e' :: value => (given.addSetting .emit (String.ofList value)).map (·, none)
  | _ => none

/-- The arguments behind those read so far. `pending` is the option that the next argument is the
value of. -/
def add (given : Given) (pending : Option Setting) : List String → Option Given
  | [] => if pending.isNone then some given else none
  | argument :: rest =>
    match pending with
    | some setting =>
      if isOption argument.toList then none
      else do add (← given.addSetting setting argument) none rest
    | none =>
      match argument.toList with
      | ['-', '-'] => rest.foldlM addFile given
      | '-' :: '-' :: long => do
        let (given, pending) ← given.addLong long
        add given pending rest
      | '-' :: c :: short => do
        let (given, pending) ← given.addShort (c :: short)
        add given pending rest
      | _ => do add (← given.addFile argument) none rest

end Given

/-- The command of a list of arguments. -/
def Command.parse? (arguments : List String) : Option Command := do
  let given ← Given.nothing.add none arguments
  let file ← given.file
  return ⟨file, given.emit, given.checkOnly, given.maxCallDepth.getD defaultMaxCallDepth⟩

/-! ## Carrying a command out -/

/-- Why a file cannot be read. -/
inductive Unreadable where
  | missing
  | directory
  | notText
  | other (reason : String)
  deriving DecidableEq

/-- The reason in words. -/
def Unreadable.reason : Unreadable → String
  | missing => "No such file or directory (os error 2)"
  | directory => "Is a directory (os error 21)"
  | notText => "stream did not contain valid UTF-8"
  | other reason => reason

/-- The bytes of a file as text. -/
def textOfBytes (bytes : ByteArray) : Except Unreadable String :=
  match String.fromUTF8? bytes with
  | some text => .ok text
  | none => .error .notText

/-- What a command prints, and how it ends. -/
structure Response where
  exitCode : Nat
  output : String
  errors : String
  deriving DecidableEq

namespace Response

/-- A success. -/
def success (output : String) : Response := ⟨0, output, ""⟩

/-- A failure, reported on a line of its own. -/
def failure (output message : String) : Response := ⟨1, output, message ++ "\n"⟩

/-- The response to a command that cannot be understood. -/
def misuse : Response :=
  ⟨2, "", "usage: [--emit tokens|ast|source] [--check] [--max-call-depth N] FILE\n"⟩

/-- A success with what a stage yields, or the failure of that stage. -/
def ofStage {α : Type} (text : α → String) : Except Failure α → Response
  | .ok a => success (text a)
  | .error f => failure "" f.report

end Response

/-- A token on a line, behind its position. -/
def Token.listing (t : Token) : String :=
  s!"{t.position.line}:{t.position.column} " ++ t.kind.describe ++ "\n"

namespace Command

/-- What a command does with the text of its file. -/
def execute (command : Command) (source : String) : Response :=
  match command.emit, command.checkOnly with
  | some .tokens, _ =>
    .ofStage (fun tokens => String.join (tokens.map (·.listing))) (readTokens source)
  | some .tree, _ => .ofStage (fun p => (Program.outline p).text ++ "\n") (read source)
  | some .source, _ => .ofStage Program.text (read source)
  | none, true => .ofStage (fun _ => "") (check source).result
  | none, false =>
    let result := run source command.maxCallDepth
    match result.failure with
    | none => .success result.output
    | some f => .failure result.output f.report

/-- What a command does with what is found under the name of its file. -/
def respond (command : Command) (contents : Except Unreadable ByteArray) : Response :=
  match contents.bind textOfBytes with
  | .ok source => command.execute source
  | .error why =>
    .failure "" ("Failed to read the input file '" ++ command.file ++ "': " ++ why.reason)

end Command

end ScopedScript
