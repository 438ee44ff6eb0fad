import Purr.Text.Basic

/-!
# Operators

Arithmetic and comparison operators, their spelling and what they compute. Numbers compare as IEEE
doubles, so a NaN differs from every number; texts compare by their bytes.
-/

namespace Purr

set_option autoImplicit false

inductive Operator where
  | add
  | sub
  | mul
  | div
deriving DecidableEq, Repr

namespace Operator

def symbol : Operator → Char
  | .add => '+'
  | .sub => '-'
  | .mul => '*'
  | .div => '/'

/-- The result of an operator, rounded once. -/
def apply (left right : Float) : Operator → Float
  | .add => left + right
  | .sub => left - right
  | .mul => left * right
  | .div => left / right

def isProduct : Operator → Bool
  | .add | .sub => false
  | .mul | .div => true

end Operator

inductive Comparison where
  | equal
  | notEqual
  | less
  | greater
  | lessEqual
  | greaterEqual
deriving DecidableEq, Repr

namespace Comparison

def symbol : Comparison → Text
  | .equal => ['=', '=']
  | .notEqual => ['!', '=']
  | .less => ['<']
  | .greater => ['>']
  | .lessEqual => ['<', '=']
  | .greaterEqual => ['>', '=']

def ofNumbers (left right : Float) : Comparison → Bool
  | .equal => left == right
  | .notEqual => left != right
  | .less => left < right
  | .greater => right < left
  | .lessEqual => left ≤ right
  | .greaterEqual => right ≤ left

def ofTexts (left right : Text) : Comparison → Bool
  | .equal => left = right
  | .notEqual => left ≠ right
  | .less => left.precedes right
  | .greater => right.precedes left
  | .lessEqual => !right.precedes left
  | .greaterEqual => !left.precedes right

def isEquality : Comparison → Bool
  | .equal | .notEqual => true
  | .less | .greater | .lessEqual | .greaterEqual => false

end Comparison

end Purr
