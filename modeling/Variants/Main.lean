import Variants.CommandLine.Run

/-!
# The command line
-/

open Variants.CommandLine

/-- Why a file could not be read.  Some codes are reported with a minus sign. -/
def readFailure (error : IO.Error) : ReadFailure :=
  let isCode (code number : UInt32) : Bool := code == number || code == 0 - number
  match error with
  | .noFileOrDirectory _ _ _ => .missing
  | .inappropriateType _ code _ => if isCode code 21 then .directory else .notDirectory
  | .invalidArgument _ code _ => if isCode code 36 then .longName else .other (toString error)
  | _ => .other (toString error)

def readInput : Input → IO (Except ReadFailure String)
  | .nothing => return .ok ""
  | .standard => do
      let text ← (← IO.getStdin).readToEnd
      return .ok text
  | .file path => do
      try
        return .ok (← IO.FS.readFile path)
      catch error => return .error (readFailure error)

def main (arguments : List String) : IO UInt32 := do
  let invocation := Invocation.ofArguments arguments
  let outcome := run invocation (← readInput invocation.input)
  (← IO.getStdout).putStr outcome.output
  (← IO.getStderr).putStr outcome.errors
  return outcome.code.toUInt32
