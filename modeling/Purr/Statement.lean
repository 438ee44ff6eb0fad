import Purr.Fragment
import Purr.Line
import Purr.Nesting

/-!
# Statements

The forms a line can have. A form is recognized by the shape of the lexemes alone; the forms are
tried in a fixed order and the first that fits is taken. A line of no form is an unknown command,
which is not a syntax error. A header carries the text after its opening brace, where its block
begins.
-/

namespace Purr

set_option autoImplicit false

structure Parameter where
  kind : Kind
  name : Text
deriving DecidableEq

structure Header where
  name : Text
  returnKind : ReturnKind
  parameters : List Parameter
deriving DecidableEq

inductive Statement where
  /-- `kind name(parameters)` and an opening brace. -/
  | function (header : Header) (bodyStart : Text)
  /-- `kind name ~> callee(arguments);` -/
  | callDeclaration (kind : Kind) (name : Text) (call : Fragment)
  /-- `purr ~> expression;` -/
  | print (expression : Fragment)
  /-- `kind name ~> expression;` -/
  | declaration (kind : Kind) (name : Text) (value : Fragment)
  /-- `callee(arguments);` -/
  | call (call : Fragment)
  /-- `if (condition)` and an opening brace. -/
  | branch (condition : Fragment) (bodyStart : Text)
  /-- `else` and an opening brace. -/
  | otherwise (bodyStart : Text)
  /-- `return expression;` with the expression and the semicolon optional. -/
  | result (value : Option Fragment)
  | unknown
deriving DecidableEq

namespace Statement

abbrev Form := Except Refusal (Option Statement)

def hasSemicolon (lexemes : List Lexeme) : Bool :=
  lexemes.any fun lexeme => lexeme.token = .semicolon

def beforeSemicolon? (lexemes : List Lexeme) : Option (List Lexeme) :=
  match lexemes.getLast? with
  | some ⟨.semicolon, _⟩ => some lexemes.dropLast
  | _ => none

def beforeOnlySemicolon? (lexemes : List Lexeme) : Option (List Lexeme) :=
  (beforeSemicolon? lexemes).filter fun before => !hasSemicolon before

def parameter? : List Lexeme → Option Parameter
  | [⟨word, _⟩, ⟨.name name, _⟩] => word.kind?.map (⟨·, name⟩)
  | _ => none

/-- The parameters of a header. A piece that declares none is passed over. -/
def parameters (lexemes : List Lexeme) : List Parameter :=
  (splitTopLevel .comma lexemes).filterMap parameter?

def closingBrace? (lexemes : List Lexeme) (opening : Nat) : Option (Nat × Span) :=
  match matchingParen? lexemes opening with
  | some close =>
      match lexemes[close + 1]? with
      | some ⟨.leftBrace, brace⟩ => some (close, brace)
      | _ => none
  | none => none

def functionParts? (lexemes : List Lexeme) : Option (Text × ReturnKind × Nat × Span) :=
  match lexemes with
  | ⟨word, _⟩ :: ⟨.name name, _⟩ :: ⟨.leftParen, _⟩ :: _ =>
      match word.returnKind?, closingBrace? lexemes 2 with
      | some returnKind, some (close, brace) => some (name, returnKind, close, brace)
      | _, _ => none
  | _ => none

def functionForm (text : Text) (lexemes : List Lexeme) : Form :=
  match functionParts? lexemes with
  | some (name, returnKind, close, brace) => do
      let inner ← inRange (between? lexemes 3 close)
      let bodyStart ← inRange (text.dropBytes? brace.stop)
      return some (.function ⟨name, returnKind, parameters inner⟩ bodyStart)
  | none => .ok none

def declared? : List Lexeme → Option (Kind × Text × List Lexeme)
  | ⟨word, _⟩ :: ⟨.name name, _⟩ :: ⟨.arrow, _⟩ :: rest =>
      match word.kind?, beforeOnlySemicolon? rest with
      | some kind, some value => some (kind, name, value)
      | _, _ => none
  | _ => none

def withFragment (text : Text) (line : Nat) (lexemes : List Lexeme)
    (make : Fragment → Option Statement) : Form := do
  let fragment ← inRange (Fragment.ofLexemes? text lexemes line)
  return make fragment

def callDeclarationForm (text : Text) (line : Nat) (lexemes : List Lexeme) : Form :=
  match declared? lexemes with
  | some (kind, name, value) =>
      withFragment text line value fun call =>
        if isSingleCall call.lexemes then some (.callDeclaration kind name call) else none
  | none => .ok none

def declarationForm (text : Text) (line : Nat) (lexemes : List Lexeme) : Form :=
  match declared? lexemes with
  | some (kind, name, value) =>
      withFragment text line value fun value => some (.declaration kind name value)
  | none => .ok none

def printed? : List Lexeme → Option (List Lexeme)
  | ⟨.keyword .purr, _⟩ :: ⟨.arrow, _⟩ :: rest => beforeOnlySemicolon? rest
  | _ => none

def printForm (text : Text) (line : Nat) (lexemes : List Lexeme) : Form :=
  match printed? lexemes with
  | some expression => withFragment text line expression fun expression => some (.print expression)
  | none => .ok none

def called? (lexemes : List Lexeme) : Option (List Lexeme) :=
  (beforeSemicolon? lexemes).filter isSingleCall

def callForm (text : Text) (line : Nat) (lexemes : List Lexeme) : Form :=
  match called? lexemes with
  | some value => withFragment text line value fun value => some (.call value)
  | none => .ok none

def branchParts? (lexemes : List Lexeme) : Option (Nat × Span) :=
  match lexemes with
  | ⟨.keyword .ifWord, _⟩ :: ⟨.leftParen, _⟩ :: _ => closingBrace? lexemes 1
  | _ => none

def branchForm (text : Text) (line : Nat) (lexemes : List Lexeme) : Form :=
  match branchParts? lexemes with
  | some (close, brace) => do
      let inner ← inRange (between? lexemes 2 close)
      let condition ← inRange (Fragment.ofLexemes? text inner line)
      let bodyStart ← inRange (text.dropBytes? brace.stop)
      return some (.branch condition bodyStart)
  | none => .ok none

def otherwiseBrace? : List Lexeme → Option Span
  | ⟨.keyword .elseWord, _⟩ :: ⟨.leftBrace, brace⟩ :: _ => some brace
  | _ => none

def otherwiseForm (text : Text) (lexemes : List Lexeme) : Form :=
  match otherwiseBrace? lexemes with
  | some brace => do
      let bodyStart ← inRange (text.dropBytes? brace.stop)
      return some (.otherwise bodyStart)
  | none => .ok none

def returned? : List Lexeme → Option (List Lexeme)
  | ⟨.keyword .returnWord, _⟩ :: rest =>
      let value := (beforeSemicolon? rest).getD rest
      if hasSemicolon value then none else some value
  | _ => none

def resultForm (text : Text) (line : Nat) (lexemes : List Lexeme) : Form :=
  match returned? lexemes with
  | some [] => .ok (some (.result none))
  | some value => withFragment text line value fun value => some (.result (some value))
  | none => .ok none

def firstOf : List Form → Except Refusal Statement
  | [] => .ok .unknown
  | .error refusal :: _ => .error refusal
  | .ok (some statement) :: _ => .ok statement
  | .ok none :: rest => firstOf rest

def ofLexemes (text : Text) (line : Nat) (lexemes : List Lexeme) : Except Refusal Statement :=
  firstOf [
    functionForm text lexemes,
    callDeclarationForm text line lexemes,
    printForm text line lexemes,
    declarationForm text line lexemes,
    callForm text line lexemes,
    branchForm text line lexemes,
    otherwiseForm text lexemes,
    resultForm text line lexemes]

def ofLine (line : Line) : Except Refusal Statement := do
  ofLexemes line.text line.number (← lexemes line.text)

def blockStart? : Statement → Option Text
  | .function _ bodyStart => some bodyStart
  | .branch _ bodyStart => some bodyStart
  | .otherwise bodyStart => some bodyStart
  | _ => none

end Statement

end Purr
