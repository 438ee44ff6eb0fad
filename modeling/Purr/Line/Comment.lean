import Purr.Line

/-!
# Comments

A comment starts with two slashes and takes the rest of its line, or stands between a slash with a
star and a star with a slash, over any number of lines. Inside a text literal neither starts. A line
begins outside of every literal, but inside a comment that the line before it left open.
-/

namespace Purr

set_option autoImplicit false

namespace Comment

inductive Place where
  | code
  | literal
  | comment
deriving DecidableEq, Repr

/-- The code of a line from a place on, and whether a comment is still open at its end. -/
def stripFrom : Place → Text → Text × Bool
  | .comment, [] => ([], true)
  | _, [] => ([], false)
  | .comment, '*' :: '/' :: rest => stripFrom .code rest
  | .comment, _ :: rest => stripFrom .comment rest
  | .code, '/' :: '/' :: _ => ([], false)
  | .code, '/' :: '*' :: rest => stripFrom .comment rest
  | .code, '"' :: rest => keep '"' (stripFrom .literal rest)
  | .code, c :: rest => keep c (stripFrom .code rest)
  | .literal, '"' :: rest => keep '"' (stripFrom .code rest)
  | .literal, c :: rest => keep c (stripFrom .literal rest)
where
  keep (c : Char) (stripped : Text × Bool) : Text × Bool := (c :: stripped.1, stripped.2)

def strip (inComment : Bool) (line : Text) : Text × Bool :=
  stripFrom (if inComment then .comment else .code) line

def stripLines (inComment : Bool) : List Text → List Text
  | [] => []
  | line :: rest =>
      let (code, stillOpen) := strip inComment line
      code :: stripLines stillOpen rest

end Comment

def numbered (number : Nat) : List Text → List Line
  | [] => []
  | text :: rest =>
      match Line.trimmed? number text with
      | some line => line :: numbered (number + 1) rest
      | none => numbered (number + 1) rest

/-- The lines of code of a script, numbered from one by their places among its physical lines. -/
def codeLines (source : Text) : List Line := numbered 1 (Comment.stripLines false source.lines)

end Purr
