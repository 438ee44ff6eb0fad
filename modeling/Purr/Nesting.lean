import Purr.Lexeme

/-!
# Nesting

What parentheses enclose in a list of lexemes. The partner of a parenthesis is found by counting.
Searching and splitting at the top level count too, but there a closing parenthesis that nothing
opens is passed over, so that every list has a top level.
-/

namespace Purr

set_option autoImplicit false

/-- The index of the parenthesis that closes the first one opened, where some are open already;
nothing if one closes that none opens, or if none closes. -/
def closing? : Nat → List Lexeme → Option Nat
  | _, [] => none
  | depth, lexeme :: rest =>
      match lexeme.token with
      | .leftParen => (closing? (depth + 1) rest).map (· + 1)
      | .rightParen =>
          match depth with
          | 0 => none
          | 1 => some 0
          | depth + 2 => (closing? (depth + 1) rest).map (· + 1)
      | _ => (closing? depth rest).map (· + 1)

def matchingParen? (lexemes : List Lexeme) (start : Nat) : Option Nat :=
  (closing? 0 (lexemes.drop start)).map (· + start)

/-- The depth after a token. A closing parenthesis that nothing opens leaves the depth at zero. -/
def depthAfter (depth : Nat) : Token → Nat
  | .leftParen => depth + 1
  | .rightParen => depth - 1
  | _ => depth

def isParen : Token → Bool
  | .leftParen | .rightParen => true
  | _ => false

def findFrom (wanted : Token → Bool) : Nat → List Lexeme → Option Nat
  | _, [] => none
  | depth, lexeme :: rest =>
      if depth = 0 && !isParen lexeme.token && wanted lexeme.token then some 0
      else (findFrom wanted (depthAfter depth lexeme.token) rest).map (· + 1)

def findTopLevel? (wanted : Token → Bool) (lexemes : List Lexeme) : Option Nat :=
  findFrom wanted 0 lexemes

def extendFirst (lexeme : Lexeme) : List (List Lexeme) → List (List Lexeme)
  | [] => [[lexeme]]
  | piece :: pieces => (lexeme :: piece) :: pieces

/-- The pieces between the separators at the top level, where some parentheses are open
already. -/
def splitFrom (separator : Token) : Nat → List Lexeme → List (List Lexeme)
  | _, [] => [[]]
  | depth, lexeme :: rest =>
      if depth = 0 && !isParen lexeme.token && lexeme.token.equals separator then
        [] :: splitFrom separator depth rest
      else
        extendFirst lexeme (splitFrom separator (depthAfter depth lexeme.token) rest)

def splitTopLevel (separator : Token) (lexemes : List Lexeme) : List (List Lexeme) :=
  splitFrom separator 0 lexemes

def lastIndex? {α : Type} : List α → Option Nat
  | [] => none
  | _ :: rest => some rest.length

def isSingleCall (lexemes : List Lexeme) : Bool :=
  match lexemes with
  | ⟨.name _, _⟩ :: ⟨.leftParen, _⟩ :: _ =>
      match matchingParen? lexemes 1, lastIndex? lexemes with
      | some close, some last => close = last
      | _, _ => false
  | _ => false

def between? {α : Type} (items : List α) (start stop : Nat) : Option (List α) :=
  if start ≤ stop ∧ stop ≤ items.length then
    some ((items.take stop).drop start)
  else
    none

end Purr
