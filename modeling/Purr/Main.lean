import Purr.CommandLine
import Purr.Files

/-!
# The program

Reads the script that the command line names, runs it and writes what it wrote.
-/

namespace Purr

set_option autoImplicit false

/-- The number of an error of the system, which may be given with a negative sign. -/
def systemError (code : UInt32) : UInt32 := if code < 0x80000000 then code else 0 - code

def readFailure (error : IO.Error) : ReadFailure :=
  match error with
  | .noFileOrDirectory .. => .notFound
  | .inappropriateType _ code _ =>
      if systemError code = 20 then .notDirectory else .isDirectory
  | .invalidArgument _ code _ =>
      if systemError code = 36 then .nameTooLong else .other error.toString.toList
  | _ => .other error.toString.toList

def readFile (path : Text) : IO (Except ReadFailure Text) := do
  try
    return Files.decode (← IO.FS.readBinFile (String.ofList path))
  catch error =>
    return .error (readFailure error)

def scriptContents : CommandLine.Request → IO (Except ReadFailure Text)
  | .script path => if Path.isScript path then readFile path else return .error .notFound
  | _ => return .error .notFound

end Purr

def main (arguments : List String) : IO UInt32 := do
  let arguments := arguments.map String.toList
  let contents ← Purr.scriptContents (Purr.CommandLine.request arguments)
  let exit := Purr.CommandLine.run Purr.Script.defaultDepth (fun _ => contents) arguments
  IO.print (String.ofList exit.output)
  IO.eprint (String.ofList exit.errors)
  return UInt32.ofNat exit.code
