import Purr.Lexeme

/-!
# Fragments

A fragment is a run of lexemes kept with the text it was cut from. A line keeps its expressions as
fragments, since what an expression means depends on where it stands: as a text, as a number or as a
condition. The spans of a fragment count from its own beginning.
-/

namespace Purr

set_option autoImplicit false

def Lexeme.moveBack? (offset : Nat) (lexeme : Lexeme) : Option Lexeme :=
  if within : offset ≤ lexeme.span.start then
    some ⟨lexeme.token, lexeme.span.start - offset, lexeme.span.stop - offset, by
      have := lexeme.span.nonempty
      omega⟩
  else
    none

structure Fragment where
  source : Text
  lexemes : List Lexeme
  line : Nat
deriving DecidableEq

namespace Fragment

def tokens (fragment : Fragment) : List Token := fragment.lexemes.map Lexeme.token

def empty (line : Nat) : Fragment := ⟨[], [], line⟩

/-- The fragment of a run of the lexemes of a text, from the first lexeme to the last. -/
def ofLexemes? (text : Text) (lexemes : List Lexeme) (line : Nat) : Option Fragment :=
  match lexemes.head?, lexemes.getLast? with
  | some first, some last =>
      match text.slice? first.span.start last.span.stop,
        lexemes.mapM (Lexeme.moveBack? first.span.start) with
      | some source, some moved => some ⟨source, moved, line⟩
      | _, _ => none
  | _, _ => some (empty line)

end Fragment

end Purr
