import Purr.Diagnostic
import Purr.Path

/-!
# Files

A working directory with the files in it, and reading the file that a path names. Outside of the
working directory there are directories but nothing that a name would find.
-/

namespace Purr

set_option autoImplicit false

inductive Entry where
  | file (bytes : ByteArray)
  | directory

/-- A working directory: entries by the names that lead to them. The directories on the way to an
entry are there too. -/
structure Files where
  entries : List (List Text × Entry)

namespace Files

def ofList (entries : List (Text × Entry)) : Files :=
  ⟨entries.map fun (path, entry) =>
    ((Path.segments path).filter fun segment => !Path.stays segment, entry)⟩

def find? (files : Files) (names : List Text) : Option Entry :=
  match files.entries.lookup names with
  | some entry => some entry
  | none =>
      if files.entries.any fun entry => names.isPrefixOf entry.1 then some .directory else none

def longestName : Nat := 255

def pathLimit : Nat := 4096

/-- Follows segments from outside of the working directory. -/
def followOutside : List Text → Except ReadFailure ByteArray
  | [] => .error .isDirectory
  | segment :: rest =>
      if Path.stays segment || segment = Path.parent then followOutside rest
      else if longestName < segment.byteLength then .error .nameTooLong
      else .error .notFound

/-- Follows segments from a directory, which is given by the names that lead to it, the last name
first. -/
def followFrom (files : Files) (directory : List Text) :
    List Text → Except ReadFailure ByteArray
  | [] => .error .isDirectory
  | segment :: rest =>
      if Path.stays segment then followFrom files directory rest
      else if segment = Path.parent then
        match directory with
        | [] => followOutside rest
        | _ :: above => followFrom files above rest
      else if longestName < segment.byteLength then .error .nameTooLong
      else
        match files.find? (segment :: directory).reverse with
        | none => .error .notFound
        | some .directory => followFrom files (segment :: directory) rest
        | some (.file bytes) => if rest.isEmpty then .ok bytes else .error .notDirectory

def bytes (files : Files) (path : Text) : Except ReadFailure ByteArray :=
  if path.contains '\x00' then .error .nulInName
  else if pathLimit ≤ path.byteLength then .error .nameTooLong
  else
    match path with
    | [] => .error .notFound
    | '/' :: rest => followOutside (Path.segments rest)
    | _ => followFrom files [] (Path.segments path)

def decode (bytes : ByteArray) : Except ReadFailure Text :=
  match String.fromUTF8? bytes with
  | some text => .ok text.toList
  | none => .error .notUtf8

def read (files : Files) (path : Text) : Except ReadFailure Text := do
  decode (← files.bytes path)

end Files

end Purr
