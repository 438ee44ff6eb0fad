import Purr.Operator

/-!
# Expressions

The trees of expressions. Parentheses leave no trace in a tree.
-/

namespace Purr

set_option autoImplicit false

inductive Expr where
  | number (value : Float)
  | text (content : Text)
  | variable (name : Text)
  | negate (operand : Expr)
  | binary (op : Operator) (left right : Expr)
  | call (name : Text) (arguments : List Expr)

end Purr
