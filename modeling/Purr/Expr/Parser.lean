import Purr.Expr
import Purr.SyntaxError

/-!
# Reading expressions

A machine reads an expression token by token. Its state holds what has been read and is not yet
part of a finished operand: for each open parenthesis one level, and on each level the left part of
a sum, the left part of a product and the signs before the operand that follows. Sums and
products group to the left, products before sums, and a sign belongs to the operand right after it.

In every state it is plain which tokens can follow, so a token is refused at the first place where
no expression goes on with it.
-/

namespace Purr

set_option autoImplicit false

namespace Parser

/-- The unfinished parts of one level: what waits for the operand that follows. -/
structure Pending where
  sum : Option (Expr × Operator)
  product : Option (Expr × Operator)
  signs : Nat

namespace Pending

def empty : Pending := ⟨none, none, 0⟩

def signed : Nat → Expr → Expr
  | 0, operand => operand
  | signs + 1, operand => .negate (signed signs operand)

def join : Option (Expr × Operator) → Expr → Expr
  | none, right => right
  | some (left, op), right => .binary op left right

def factor (pending : Pending) (operand : Expr) : Expr :=
  join pending.product (signed pending.signs operand)

def total (pending : Pending) (operand : Expr) : Expr :=
  join pending.sum (pending.factor operand)

def after (pending : Pending) (operand : Expr) (op : Operator) : Pending :=
  if op.isProduct then ⟨pending.sum, some (pending.factor operand, op), 0⟩
  else ⟨some (pending.total operand, op), none, 0⟩

end Pending

/-- What opened a parenthesis: a group, or a call with the arguments read so far. -/
inductive Opening where
  | group
  | call (name : Text) (arguments : List Expr)

structure Level where
  outer : Pending
  opening : Opening

inductive Expecting where
  | operand
  /-- After a name, which a parenthesis makes a call. -/
  | afterName (name : Text)
  /-- After the parenthesis of a call: an argument, or the closing parenthesis. -/
  | argument (name : Text)
  | operator (operand : Expr)

structure State where
  expecting : Expecting
  pending : Pending
  levels : List Level

def start : State := ⟨.operand, .empty, []⟩

/-- A token where an operand has to start. -/
def stepOperand (pending : Pending) (levels : List Level) :
    Token → Except SyntaxFault State
  | .number value => .ok ⟨.operator (.number value), pending, levels⟩
  | .text content => .ok ⟨.operator (.text content), pending, levels⟩
  | .name name => .ok ⟨.afterName name, pending, levels⟩
  | .leftParen => .ok ⟨.operand, .empty, ⟨pending, .group⟩ :: levels⟩
  | .operator .sub => .ok ⟨.operand, { pending with signs := pending.signs + 1 }, levels⟩
  | token => .error (.unexpected token)

def stepOperator (operand : Expr) (pending : Pending) (levels : List Level) (token : Token) :
    Except SyntaxFault State :=
  match token, levels with
  | .operator op, _ => .ok ⟨.operand, pending.after operand op, levels⟩
  | .rightParen, ⟨outer, .group⟩ :: levels =>
      .ok ⟨.operator (pending.total operand), outer, levels⟩
  | .rightParen, ⟨outer, .call name arguments⟩ :: levels =>
      .ok ⟨.operator (.call name (arguments ++ [pending.total operand])), outer, levels⟩
  | .comma, ⟨outer, .call name arguments⟩ :: levels =>
      .ok ⟨.operand, .empty,
        ⟨outer, .call name (arguments ++ [pending.total operand])⟩ :: levels⟩
  | token, [] => .error (.afterEnd token)
  | _, ⟨_, .group⟩ :: _ => .error .unclosed
  | token, ⟨_, .call _ _⟩ :: _ => .error (.inArguments token)

def step (state : State) (token : Token) : Except SyntaxFault State :=
  match state.expecting, token with
  | .operand, token => stepOperand state.pending state.levels token
  | .afterName name, .leftParen => .ok { state with expecting := .argument name }
  | .afterName name, token => stepOperator (.variable name) state.pending state.levels token
  | .argument name, .rightParen => .ok { state with expecting := .operator (.call name []) }
  | .argument name, token =>
      stepOperand .empty (⟨state.pending, .call name []⟩ :: state.levels) token
  | .operator operand, token => stepOperator operand state.pending state.levels token

def finishOperand (operand : Expr) (state : State) : Except SyntaxFault Expr :=
  match state.levels with
  | [] => .ok (state.pending.total operand)
  | _ :: _ => .error .unclosed

def finish (state : State) : Except SyntaxFault Expr :=
  match state.expecting with
  | .operand | .argument _ => .error .unexpectedEnd
  | .afterName name => finishOperand (.variable name) state
  | .operator operand => finishOperand operand state

def run (state : State) : List Token → Except SyntaxFault Expr
  | [] => finish state
  | token :: rest =>
      match step state token with
      | .ok next => run next rest
      | .error fault => .error fault

end Parser

namespace Expr

def parse (tokens : List Token) : Except SyntaxFault Expr := Parser.run Parser.start tokens

def parseCall (tokens : List Token) : Except SyntaxFault (Text × List Expr) :=
  match parse tokens with
  | .ok (.call name arguments) => .ok (name, arguments)
  | .ok _ => .error .notACall
  | .error fault => .error fault

end Expr

end Purr
