import Purr.Operator
import Purr.Value

/-!
# Tokens

The words and marks a line is made of. `true`, `false` and `endl` are names; what they mean depends
on where they stand.
-/

namespace Purr

set_option autoImplicit false

inductive Keyword where
  | str
  | num
  | bool
  | void
  | purr
  | ifWord
  | elseWord
  | returnWord
deriving DecidableEq, Repr

namespace Keyword

def word : Keyword → Text
  | .str => "str".toList
  | .num => "num".toList
  | .bool => "bool".toList
  | .void => "void".toList
  | .purr => "purr".toList
  | .ifWord => "if".toList
  | .elseWord => "else".toList
  | .returnWord => "return".toList

def all : List Keyword :=
  [.str, .num, .bool, .void, .purr, .ifWord, .elseWord, .returnWord]

def ofWord? (text : Text) : Option Keyword := all.find? fun keyword => keyword.word = text

theorem ofWord?_eq_some_iff {text : Text} {keyword : Keyword} :
    ofWord? text = some keyword ↔ text = keyword.word := by
  constructor
  · intro found
    simpa [eq_comm] using List.find?_some found
  · rintro rfl
    cases keyword <;> rfl

end Keyword

inductive Token where
  | number (value : Float)
  | text (content : Text)
  | name (word : Text)
  | keyword (word : Keyword)
  | operator (op : Operator)
  | comparison (op : Comparison)
  | arrow
  | semicolon
  | comma
  | leftParen
  | rightParen
  | leftBrace
  | rightBrace
deriving DecidableEq

namespace Token

/-- Whether tokens are equal to the program, which compares numbers as IEEE doubles: the two zeros
are equal and a NaN is not even equal to itself. -/
def equals : Token → Token → Bool
  | .number value, .number other => value == other
  | token, other => token = other

theorem equals_iff {token other : Token} (noNumber : ∀ value, other ≠ .number value) :
    token.equals other = true ↔ token = other := by
  unfold equals
  split
  next _ value => exact absurd rfl (noNumber value)
  next => exact decide_eq_true_iff

@[simp]
theorem equals_comma (token : Token) : token.equals .comma = decide (token = .comma) := by
  rw [Bool.eq_iff_iff, equals_iff (by simp), decide_eq_true_iff]

@[simp]
theorem equals_operator (token : Token) (op : Operator) :
    token.equals (.operator op) = decide (token = .operator op) := by
  rw [Bool.eq_iff_iff, equals_iff (by simp), decide_eq_true_iff]

/-- The text by which a message shows a token: a number by its shortest text, all else as it is
written. -/
def shown : Token → Text
  | .number value => numberText value
  | .text content => '"' :: content ++ ['"']
  | .name word => word
  | .keyword word => word.word
  | .operator op => [op.symbol]
  | .comparison op => op.symbol
  | .arrow => ['~', '>']
  | .semicolon => [';']
  | .comma => [',']
  | .leftParen => ['(']
  | .rightParen => [')']
  | .leftBrace => ['\x7b']
  | .rightBrace => ['\x7d']

def isComparison : Token → Bool
  | .comparison _ => true
  | _ => false

def operator? : Token → Option Operator
  | .operator op => some op
  | _ => none

def comparison? : Token → Option Comparison
  | .comparison op => some op
  | _ => none

def kind? : Token → Option Kind
  | .keyword .str => some .text
  | .keyword .num => some .number
  | .keyword .bool => some .boolean
  | _ => none

def returnKind? : Token → Option ReturnKind
  | .keyword .void => some .nothing
  | token => token.kind?.map .value

end Token

end Purr
