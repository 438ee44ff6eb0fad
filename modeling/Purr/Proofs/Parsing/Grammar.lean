import Purr.Expr.Parser

/-!
# The grammar of expressions

The lists of tokens that are expressions, with their trees. A sum or a product of several parts is
derived from the left, so both group to the left; the parentheses of a group leave nothing behind.
Everything that the grammar derives is read by the machine, whatever follows it.
-/

namespace Purr

set_option autoImplicit false

namespace Grammar

mutual

/-- One product, or products between `+` and `-`. -/
inductive Sum : List Token → Expr → Prop
  | one {tokens : List Token} {tree : Expr} : Product tokens tree → Sum tokens tree
  | more {before after : List Token} {left right : Expr} {op : Operator} : Sum before left →
      op.isProduct = false → Product after right →
      Sum (before ++ .operator op :: after) (.binary op left right)

/-- One unary expression, or unary expressions between `*` and `/`. -/
inductive Product : List Token → Expr → Prop
  | one {tokens : List Token} {tree : Expr} : Unary tokens tree → Product tokens tree
  | more {before after : List Token} {left right : Expr} {op : Operator} : Product before left →
      op.isProduct = true → Unary after right →
      Product (before ++ .operator op :: after) (.binary op left right)

inductive Unary : List Token → Expr → Prop
  | negate {tokens : List Token} {tree : Expr} : Unary tokens tree →
      Unary (.operator .sub :: tokens) (.negate tree)
  | primary {tokens : List Token} {tree : Expr} : Primary tokens tree → Unary tokens tree

inductive Primary : List Token → Expr → Prop
  | number (value : Float) : Primary [.number value] (.number value)
  | text (content : Text) : Primary [.text content] (.text content)
  | variable (name : Text) : Primary [.name name] (.variable name)
  | call {tokens : List Token} {arguments : List Expr} (name : Text) : Arguments tokens arguments →
      Primary (.name name :: .leftParen :: (tokens ++ [.rightParen])) (.call name arguments)
  | group {tokens : List Token} {tree : Expr} : Sum tokens tree →
      Primary (.leftParen :: (tokens ++ [.rightParen])) tree

/-- What stands between the parentheses of a call. -/
inductive Arguments : List Token → List Expr → Prop
  | none : Arguments [] []
  | some {tokens : List Token} {trees : List Expr} : ArgumentList tokens trees →
      Arguments tokens trees

inductive ArgumentList : List Token → List Expr → Prop
  | one {tokens : List Token} {tree : Expr} : Sum tokens tree → ArgumentList tokens [tree]
  | more {before after : List Token} {tree : Expr} {trees : List Expr} : Sum before tree →
      ArgumentList after trees → ArgumentList (before ++ .comma :: after) (tree :: trees)

end

def NotFirst (token : Token) (tokens : List Token) : Prop := tokens.head? ≠ some token

/-- Tokens that are not empty and begin with no closing parenthesis. -/
def Begins (tokens : List Token) : Prop :=
  ∃ first rest, tokens = first :: rest ∧ first ≠ .rightParen

theorem Begins.append {tokens : List Token} (begins : Begins tokens) (after : List Token) :
    Begins (tokens ++ after) := by
  obtain ⟨first, rest, rfl, other⟩ := begins
  exact ⟨first, rest ++ after, rfl, other⟩

theorem Primary.begins {tokens : List Token} {tree : Expr} (derived : Primary tokens tree) :
    Begins tokens := by
  cases derived with
  | number value => exact ⟨_, _, rfl, by simp⟩
  | text content => exact ⟨_, _, rfl, by simp⟩
  | «variable» name => exact ⟨_, _, rfl, by simp⟩
  | call name _ => exact ⟨_, _, rfl, by simp⟩
  | group _ => exact ⟨_, _, rfl, by simp⟩

theorem Unary.begins {tokens : List Token} {tree : Expr} (derived : Unary tokens tree) :
    Begins tokens := by
  cases derived with
  | negate _ => exact ⟨_, _, rfl, by simp⟩
  | primary inner => exact inner.begins

theorem Product.begins {tokens : List Token} {tree : Expr} :
    Product tokens tree → Begins tokens
  | .one inner => inner.begins
  | .more left _ _ => left.begins.append _

theorem Sum.begins {tokens : List Token} {tree : Expr} : Sum tokens tree → Begins tokens
  | .one inner => inner.begins
  | .more left _ _ => left.begins.append _

theorem ArgumentList.begins {tokens : List Token} {trees : List Expr}
    (derived : ArgumentList tokens trees) : Begins tokens := by
  cases derived with
  | one inner => exact inner.begins
  | more first _ => exact first.begins.append _

end Grammar

end Purr
