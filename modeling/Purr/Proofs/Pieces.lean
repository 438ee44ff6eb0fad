import Mathlib
import Purr.Proofs.Number.Patterns
import Purr.Proofs.TopLevel

/-!
# Pieces

Lexemes can be taken apart at the top level in only one way. A token separates if the program takes
it to be equal to the separator. So a zero is cut out by the other zero, which is then put in its
place when the pieces are joined, and a NaN cuts out nothing. Any other separator cuts out itself
alone, and joining gives the tokens exactly.
-/

namespace Purr

set_option autoImplicit false

namespace Joins

variable {separator : Token} {separates : Token → Bool} {pieces : List (List Lexeme)}
  {lexemes : List Lexeme}

end Joins

-- A zero cuts out the other zero, and a NaN does not even cut out itself.
example : let lexemes := singles [.name ['a'], .number (-zero), .number (zero / zero)]
    splitTopLevel (.number zero) lexemes = [lexemes.take 1, lexemes.drop 2] ∧
      splitTopLevel (.number (zero / zero)) lexemes = [lexemes] := by
  decide +kernel

end Purr
