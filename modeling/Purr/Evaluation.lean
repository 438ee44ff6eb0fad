import Purr.Console
import Purr.Expr.Parser
import Purr.Scope

/-!
# Evaluation

A fragment is read in one of three ways, chosen by the statement it stands in: as a text, where `+`
joins pieces and names are replaced; as a number, where it is a tree; or as a condition. What is
missing or malformed is reported, and a fallback is taken: nothing, zero or false.

Evaluating reads a scope and never changes it. How a function is carried out is left open: `Invoke`
stands for it, and every definition here takes it as an argument.
-/

namespace Purr

set_option autoImplicit false

abbrev Invoke := Function → List Value → Scope → Run Console Value

namespace Evaluation

def fallback {α : Type} (line : Nat) (fault : Fault) (result : α) : Run Console α := do
  Console.report line fault
  return result

/-- Calls a function by its name. The arguments are evaluated only if there is such a function. -/
def callNamed (invoke : Invoke) (scope : Scope) (line : Nat) (name : Text)
    (arguments : Run Console (List Value)) : Run Console (Option Value) :=
  match scope.functions.find? name with
  | some function => do
      let values ← arguments
      return some (← invoke function values scope)
  | none => fallback line (.unknownFunction name) none

mutual

def number (invoke : Invoke) (scope : Scope) (line : Nat) : Expr → Run Console Float
  | .number value => return value
  | .text content => return (Value.text content).toNumber
  | .variable name =>
      match scope.number? name with
      | some value => return value
      | none => fallback line (.unknownVariable name) zero
  | .negate operand => do
      let value ← number invoke scope line operand
      return -value
  | .binary op left right => do
      let leftValue ← number invoke scope line left
      let rightValue ← number invoke scope line right
      return op.apply leftValue rightValue
  | .call name arguments => do
      let result ← callNamed invoke scope line name (values invoke scope line arguments)
      return (result.getD .absent).toNumber

/-- Evaluates the arguments of a call from left to right. A literal or a name keeps its kind; any
other argument is a number. -/
def values (invoke : Invoke) (scope : Scope) (line : Nat) : List Expr → Run Console (List Value)
  | [] => return []
  | .text content :: rest => do
      let others ← values invoke scope line rest
      return .text content :: others
  | .number value :: rest => do
      let others ← values invoke scope line rest
      return .number value :: others
  | .variable name :: rest => do
      let others ← values invoke scope line rest
      return scope.argument name :: others
  | argument :: rest => do
      let value ← number invoke scope line argument
      let others ← values invoke scope line rest
      return .number value :: others

end

def call (invoke : Invoke) (scope : Scope) (line : Nat) (tokens : List Token) :
    Run Console (Option Value) :=
  match Expr.parseCall tokens with
  | .ok (name, arguments) =>
      callNamed invoke scope line name (values invoke scope line arguments)
  | .error fault => fallback line (.malformed fault) none

def copied (scope : Scope) (source : Text) (line : Nat) (lexeme : Lexeme) : Run Console Text :=
  match lexeme.token with
  | .name name =>
      match scope.inserted? name with
      | some text => return text
      | none => fallback line (.unknownVariable name) []
  | .text content => return content
  | _ => Run.inRange (source.slice? lexeme.span.start lexeme.span.stop)

def copyFrom (scope : Scope) (source : Text) (line position : Nat) :
    List Lexeme → Run Console Text
  | [] => return []
  | lexeme :: rest => do
      let gap ← Run.inRange (source.slice? position lexeme.span.start)
      let word ← copied scope source line lexeme
      let others ← copyFrom scope source line lexeme.span.stop rest
      return gap ++ word ++ others

def copy (scope : Scope) (source : Text) (line : Nat) (piece : List Lexeme) : Run Console Text :=
  match piece with
  | [] => return []
  | first :: _ => copyFrom scope source line first.span.start piece

/-- Evaluates a piece of a text expression: a literal, a name, a call, or anything else, which is
copied from the source with its names replaced. -/
def piece (invoke : Invoke) (scope : Scope) (source : Text) (line : Nat) (lexemes : List Lexeme) :
    Run Console Text :=
  match lexemes with
  | [] => return []
  | [⟨.text content, _⟩] => return content
  | [⟨.name name, _⟩] =>
      match scope.text? name with
      | some text => return text
      | none => fallback line (.unknownVariable name) []
  | lexemes =>
      if isSingleCall lexemes then do
        let result ← call invoke scope line (lexemes.map Lexeme.token)
        return (result.getD .absent).toText
      else
        copy scope source line lexemes

def pieces (invoke : Invoke) (scope : Scope) (source : Text) (line : Nat) :
    List (List Lexeme) → Run Console Text
  | [] => return []
  | first :: rest => do
      let text ← piece invoke scope source line first
      let others ← pieces invoke scope source line rest
      return text ++ others

def text (invoke : Invoke) (scope : Scope) (fragment : Fragment) : Run Console Text :=
  pieces invoke scope fragment.source fragment.line
    (splitTopLevel (.operator .add) fragment.lexemes)

/-- A side of a comparison that is a text: a literal, or a text variable whose name is no number
variable. -/
def textOperand? (scope : Scope) : List Lexeme → Option Text
  | [⟨.text content, _⟩] => some content
  | [⟨.name name, _⟩] =>
      match scope.numbers.find? name with
      | some _ => none
      | none => scope.texts.find? name
  | _ => none

def textOperands? (scope : Scope) (op : Comparison) (left right : List Lexeme) :
    Option (Text × Text) :=
  match op.isEquality, textOperand? scope left, textOperand? scope right with
  | true, some leftText, some rightText => some (leftText, rightText)
  | _, _, _ => none

def numberOperands? (left right : List Lexeme) : Option (Expr × Expr) :=
  match Expr.parse (left.map Lexeme.token), Expr.parse (right.map Lexeme.token) with
  | .ok leftTree, .ok rightTree => some (leftTree, rightTree)
  | _, _ => none

def invalidCondition (condition : Fragment) : Run Console Bool :=
  fallback condition.line (.invalidCondition condition.source) false

def comparison (invoke : Invoke) (scope : Scope) (condition : Fragment) (op : Comparison)
    (left right : List Lexeme) : Run Console Bool :=
  match textOperands? scope op left right with
  | some (leftText, rightText) => return op.ofTexts leftText rightText
  | none =>
      match numberOperands? left right with
      | some (leftTree, rightTree) => do
          let leftValue ← number invoke scope condition.line leftTree
          let rightValue ← number invoke scope condition.line rightTree
          return op.ofNumbers leftValue rightValue
      | none => invalidCondition condition

/-- What a name stands for as a condition: a boolean variable, or a truth value. -/
def truth? (scope : Scope) (name : Text) : Option Bool :=
  match scope.booleans.find? name with
  | some value => some value
  | none => readBool? name

def condition (invoke : Invoke) (scope : Scope) (fragment : Fragment) : Run Console Bool :=
  match findTopLevel? Token.isComparison fragment.lexemes with
  | some index => do
      let left ← Run.inRange (between? fragment.lexemes 0 index)
      let sign ← Run.inRange fragment.lexemes[index]?
      let right ← Run.inRange (between? fragment.lexemes (index + 1) fragment.lexemes.length)
      match sign.token.comparison? with
      | some op => comparison invoke scope fragment op left right
      | none => invalidCondition fragment
  | none =>
      match fragment.lexemes with
      | [⟨.name name, _⟩] =>
          match truth? scope name with
          | some value => return value
          | none => invalidCondition fragment
      | _ => invalidCondition fragment

/-- Evaluates a fragment as a boolean value; nothing if it has not the form of one. A truth value
comes before a boolean variable of the same name. -/
def boolean (invoke : Invoke) (scope : Scope) (fragment : Fragment) : Run Console (Option Bool) :=
  match fragment.lexemes with
  | [⟨.name name, _⟩] =>
      match readBool? name with
      | some value => return some value
      | none => return scope.booleans.find? name
  | lexemes =>
      match findTopLevel? Token.isComparison lexemes with
      | some _ => do
          let value ← condition invoke scope fragment
          return some value
      | none => return none

def initializer? (tokens : List Token) : Option Expr :=
  match Expr.parse tokens with
  | .ok (.text content) => (Numeral.read? content).map fun _ => .text content
  | .ok tree => some tree
  | .error _ => none

def declared (invoke : Invoke) (scope : Scope) (kind : Kind) (name : Text) (value : Fragment) :
    Run Console (Option Value) :=
  match kind with
  | .text => do
      let content ← text invoke scope value
      return some (.text content)
  | .number =>
      match initializer? value.tokens with
      | some tree => do
          let result ← number invoke scope value.line tree
          return some (.number result)
      | none => fallback value.line (.invalidNumber name) none
  | .boolean => do
      match ← boolean invoke scope value with
      | some result => return some (.boolean result)
      | none => fallback value.line (.invalidBoolean name) none

def returned (invoke : Invoke) (scope : Scope) (header : Header) (value : Option Fragment) :
    Run Console Value :=
  match header.returnKind, value with
  | .nothing, _ | _, none => return .absent
  | .value .text, some value => do
      let content ← text invoke scope value
      return .text content
  | .value .number, some value =>
      match Expr.parse value.tokens with
      | .ok tree => do
          let result ← number invoke scope value.line tree
          return .number result
      | .error fault => fallback value.line (.malformed fault) .absent
  | .value .boolean, some value => do
      match ← boolean invoke scope value with
      | some result => return .boolean result
      | none => fallback value.line (.invalidBoolean header.name) .absent

end Evaluation

end Purr
