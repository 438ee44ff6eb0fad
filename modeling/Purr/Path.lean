import Purr.Text.Basic

/-!
# Paths

The segments of a path, and the extension that tells whether a path names a script. Empty segments
and single dots do not count, so neither a slash nor `/.` at the end hides the name before it.
-/

namespace Purr

set_option autoImplicit false

namespace Path

def segments : Text → List Text
  | [] => [[]]
  | '/' :: rest => [] :: segments rest
  | c :: rest =>
      match segments rest with
      | [] => [[c]]
      | first :: others => (c :: first) :: others

def stays (segment : Text) : Bool := segment = [] || segment = ['.']

def parent : Text := ['.', '.']

/-- The name that a path ends in. A path to a directory above has none. -/
def fileName? (path : Text) : Option Text :=
  ((segments path).filter fun segment => !stays segment).getLast?.filter (· ≠ parent)

/-- The part of a name after its last dot. A dot at the beginning starts no extension. -/
def extensionOf? (name : Text) : Option Text :=
  let extension := (name.reverse.takeWhile (· ≠ '.')).reverse
  if extension.length + 1 < name.length then some extension else none

def scriptExtensions : List Text := ["cat".toList, "catlang".toList]

def isScript (path : Text) : Bool :=
  match (fileName? path).bind extensionOf? with
  | some extension => scriptExtensions.contains extension
  | none => false

end Path

end Purr
