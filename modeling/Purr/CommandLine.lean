import Purr.Path
import Purr.Script

/-!
# The command line

A script is given as the only positional argument. Arguments are looked at from left to right and
the first one that decides ends the search, so a version asked for before a fault is shown.
-/

namespace Purr

set_option autoImplicit false

namespace Script

def runFile (depth : Nat) (streams : Streams) (read : Text → Except ReadFailure Text)
    (path : Text) : Transcript :=
  if Path.isScript path then
    match read path with
    | .ok source => run depth streams source
    | .error failure => .refused (.unreadableScript path failure)
  else
    .refused (.invalidExtension path)

end Script

namespace CommandLine

inductive Request where
  | version
  | help
  | script (path : Text)
  | misused
deriving DecidableEq

def isOption : Text → Bool
  | '-' :: _ :: _ => true
  | _ => false

/-- What an option asks for. Short options may stand together; the first one decides. -/
def option (argument : Text) : Request :=
  if argument = "--version".toList then .version
  else if argument = "--help".toList then .help
  else
    match argument with
    | '-' :: 'V' :: _ => .version
    | '-' :: 'h' :: _ => .help
    | _ => .misused

def scriptRequest : Option Text → Request
  | some (c :: rest) => .script (c :: rest)
  | _ => .misused

def positional (given : Option Text) : List Text → Request
  | [] => scriptRequest given
  | argument :: rest =>
      match given with
      | some _ => .misused
      | none => positional (some argument) rest

def requestFrom (given : Option Text) : List Text → Request
  | [] => scriptRequest given
  | argument :: rest =>
      if argument = "--".toList then positional given rest
      else if isOption argument then
        if given = some [] then .misused else option argument
      else
        match given with
        | some _ => .misused
        | none => requestFrom (some argument) rest

def request (arguments : List Text) : Request := requestFrom none arguments

/-- How the program ends: its exit code and what it writes. -/
structure Exit where
  code : Nat
  output : Text
  errors : Text
deriving DecidableEq

def usage : Text := "Usage: catlang <SCRIPT>\n".toList

def haltMessage : Halt → Text
  | .fatal error => error.message
  | .tooDeep => "Error: calls are nested too deep.".toList
  | .outOfRange => "Error: a position is out of range.".toList

def exitOf (transcript : Transcript) : Exit :=
  match transcript.halt with
  | none => ⟨0, transcript.output, transcript.diagnostics⟩
  | some halt => ⟨1, transcript.output, transcript.diagnostics ++ haltMessage halt ++ ['\n']⟩

/-- What the program does with its arguments, where files are read in some way. -/
def run (depth : Nat) (read : Text → Except ReadFailure Text) (arguments : List Text) : Exit :=
  match request arguments with
  | .version => ⟨0, "catlang 0.1.0\n".toList, []⟩
  | .help => ⟨0, usage, []⟩
  | .misused => ⟨2, [], usage⟩
  | .script path => exitOf (Script.runFile depth .unlimited read path)

end CommandLine

end Purr
