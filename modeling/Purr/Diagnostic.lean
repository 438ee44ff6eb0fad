import Purr.SyntaxError

/-!
# Diagnostics and fatal errors

A diagnostic is reported and execution goes on. A fatal error ends the run. The wording of each is
in one place here; everything else handles causes.
-/

namespace Purr

set_option autoImplicit false

inductive Fault where
  | unknownVariable (name : Text)
  | unknownFunction (name : Text)
  | invalidNumber (name : Text)
  | invalidBoolean (name : Text)
  | typeMismatch (name : Text) (expected : Kind) (found : ReturnKind)
  | invalidCondition (condition : Text)
  | unknownCommand (command : Text)
  | returnOutsideFunction
  | elseWithoutIf
  | malformed (fault : SyntaxFault)
deriving DecidableEq

def Fault.description : Fault → Text
  | .unknownVariable name => "Undefined variable: ".toList ++ name
  | .unknownFunction name => "Undefined function: ".toList ++ name
  | .invalidNumber name => "Invalid numeric value for variable: ".toList ++ name
  | .invalidBoolean name => "Invalid boolean value for variable: ".toList ++ name
  | .typeMismatch name expected found =>
      "Type mismatch for variable ".toList ++ name ++ ": expected ".toList ++ expected.word ++
        ", found ".toList ++ found.word
  | .invalidCondition condition => "Invalid condition: ".toList ++ condition
  | .unknownCommand command => "Unknown command: ".toList ++ command
  | .returnOutsideFunction => "'return' outside of a function.".toList
  | .elseWithoutIf => "'else' without a matching 'if'.".toList
  | .malformed fault => fault.description

/-- A fault and the number of the line it is reported for. -/
structure Diagnostic where
  line : Nat
  fault : Fault
deriving DecidableEq

def Diagnostic.message (diagnostic : Diagnostic) : Text :=
  onLine diagnostic.line diagnostic.fault.description

inductive Construct where
  | function
  | branch
  | otherwise
deriving DecidableEq, Repr

def Construct.word : Construct → Text
  | .function => "function".toList
  | .branch => "if".toList
  | .otherwise => "else".toList

inductive StreamFailure where
  | full
  | notFlushed
deriving DecidableEq, Repr

def StreamFailure.description : StreamFailure → Text
  | .full => "sink full".toList
  | .notFlushed => "flush failed".toList

inductive ReadFailure where
  | notFound
  | isDirectory
  | notDirectory
  | notUtf8
  | nameTooLong
  | nulInName
  | other (description : Text)
deriving DecidableEq

def ReadFailure.description : ReadFailure → Text
  | .notFound => "No such file or directory (os error 2)".toList
  | .isDirectory => "Is a directory (os error 21)".toList
  | .notDirectory => "Not a directory (os error 20)".toList
  | .notUtf8 => "stream did not contain valid UTF-8".toList
  | .nameTooLong => "File name too long (os error 36)".toList
  | .nulInName => "file name contained an unexpected NUL byte".toList
  | .other description => description

inductive FatalError where
  | unterminatedBlock (construct : Construct) (line : Nat)
  | invalidExtension (path : Text)
  | unreadableScript (path : Text) (failure : ReadFailure)
  | output (failure : StreamFailure)
deriving DecidableEq

def FatalError.message : FatalError → Text
  | .unterminatedBlock construct line =>
      onLine line (construct.word ++ " block is missing its closing '\x7d'.".toList)
  | .invalidExtension path =>
      "Error: Only .cat or .catlang files can be interpreted by CatLang (got '".toList ++ path ++
        "').".toList
  | .unreadableScript path failure =>
      "Could not open file: ".toList ++ path ++ " (".toList ++ failure.description ++ [')']
  | .output failure => "Failed to write output: ".toList ++ failure.description

inductive Halt where
  | fatal (error : FatalError)
  /-- A call nested deeper than the limit of the run. -/
  | tooDeep
  /-- A cut outside of its text or list, or inside a character. -/
  | outOfRange
deriving DecidableEq

end Purr
