import MockExplorer.Console.Session

/-!
# The program

Reads the command line, lets the session work on the files of the machine, and prints its transcript.
-/

namespace MockExplorer.Console

/-- The number of a cause, which the machine gives as it is or as its negative. -/
def causeNumber (code : UInt32) : UInt32 := min code (0 - code)

/-- The cause that the machine reports for a file. -/
def fileErrorOf : IO.Error → FileError
  | .noFileOrDirectory .. => .notFound
  | .inappropriateType _ code _ => if causeNumber code = 21 then .isDirectory else .notDirectory
  | e@(.invalidArgument _ code _) => if causeNumber code = 36 then .nameTooLong else .other (toString e)
  | e => .other (toString e)

/-- The files of the machine. -/
def FileSystem.ofMachine : FileSystem IO where
  read path := do
    try
      match String.fromUTF8? (← IO.FS.readBinFile path) with
      | some text => return .ok text
      | none => return .error .notText
    catch e => return .error (fileErrorOf e)
  write path text := do
    try
      IO.FS.writeFile path text
      return .ok ()
    catch e => return .error (fileErrorOf e)

end MockExplorer.Console

open MockExplorer.Console

def main (args : List String) : IO UInt32 := do
  let stdout ← IO.getStdout
  let stderr ← IO.getStderr
  match Invocation.parse args with
  | .error stop =>
    match stop with
    | .helpAsked => stdout.putStr helpText
    | .versionAsked l => stdout.putStr (versionText l)
    | .nothingGiven => stderr.putStr helpText
    | _ => stderr.putStr (lines ["error: " ++ stop.text, "", "For more information, try '--help'."])
    return stop.exitCode.toUInt32
  | .ok i =>
    let isTerminal ← stdout.isTty
    let t ← i.perform FileSystem.ofMachine { isTerminal, styled := isTerminal }
    stdout.putStr t.stdout
    stderr.putStr (lines t.stderr)
    return t.exitCode.toUInt32
