import Purr.Token

/-!
# Syntax errors

Why a line is not cut into tokens, or tokens do not form an expression. Reading works with checked
cuts; a cut that fails is a refusal of its own, apart from every syntax error.
-/

namespace Purr

set_option autoImplicit false

inductive SyntaxFault where
  /-- No token starts here; the text is one character or an unclosed literal. -/
  | invalid (text : Text)
  | unexpected (token : Token)
  /-- A token after an argument that neither separates nor closes. -/
  | inArguments (token : Token)
  | afterEnd (token : Token)
  | notACall
  | unexpectedEnd
  | unclosed
deriving DecidableEq

namespace SyntaxFault

def description : SyntaxFault → Text
  | .invalid text => "Invalid token: ".toList ++ text
  | .unexpected token => unexpectedToken (quoted token)
  | .inArguments token => unexpectedToken ("expected ',' or ')', found ".toList ++ quoted token)
  | .afterEnd token => unexpectedToken (quoted token ++ " after end of expression".toList)
  | .notACall => unexpectedToken "expected a function call".toList
  | .unexpectedEnd => "Unexpected end of expression.".toList
  | .unclosed => "Expected closing parenthesis ')' but none found.".toList
where
  quoted (token : Token) : Text := '\'' :: token.shown ++ ['\'']
  unexpectedToken (what : Text) : Text := "Unexpected token: ".toList ++ what ++ ['.']

end SyntaxFault

/-- How every message about a line begins. -/
def onLine (line : Nat) (description : Text) : Text :=
  "Error on line ".toList ++ Text.ofNat line ++ ": ".toList ++ description

structure SyntaxError where
  line : Nat
  fault : SyntaxFault
deriving DecidableEq

def SyntaxError.message (error : SyntaxError) : Text := onLine error.line error.fault.description

inductive Refusal where
  | malformed (fault : SyntaxFault)
  | outOfRange
deriving DecidableEq

def inRange {α : Type} (result : Option α) : Except Refusal α :=
  match result with
  | some value => .ok value
  | none => .error .outOfRange

theorem inRange_some {α : Type} (value : α) : inRange (some value) = pure value := rfl

theorem inRange_eq_ok_iff {α : Type} {result : Option α} {value : α} :
    inRange result = .ok value ↔ result = some value := by
  cases result <;> simp [inRange]

theorem bind_eq_ok_iff {ε α β : Type} {first : Except ε α} {next : α → Except ε β} {result : β} :
    (first >>= next) = .ok result ↔ ∃ value, first = .ok value ∧ next value = .ok result := by
  cases first <;> simp [bind, Except.bind]

theorem pure_eq_ok_iff {ε α : Type} {value result : α} :
    (pure value : Except ε α) = .ok result ↔ value = result := by
  simp [pure, Except.pure]

end Purr
