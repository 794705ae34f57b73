import ScopedScript.CommandLine

/-!
# The program

Reads the file that the command line names, and prints what the command yields.
-/

namespace ScopedScript

/-- The bytes of a file, or why there are none. -/
def readFile (name : String) : IO (Except Unreadable ByteArray) := do
  try
    return .ok (← IO.FS.readBinFile name)
  catch e =>
    match e with
    | .noFileOrDirectory .. => return .error .missing
    | .inappropriateType .. => return .error .directory
    | e => return .error (.other (toString e))

/-- Prints a response and gives its exit code. -/
def Response.print (response : Response) : IO UInt32 := do
  IO.print response.output
  (← IO.getStdout).flush
  IO.eprint response.errors
  return response.exitCode.toUInt32

end ScopedScript

/-- Runs the command of the arguments. -/
def main (arguments : List String) : IO UInt32 :=
  match ScopedScript.Command.parse? arguments with
  | none => ScopedScript.Response.misuse.print
  | some command => do
    (command.respond (← ScopedScript.readFile command.file)).print
