import Purr.SyntaxError

/-!
# Lexemes

Cutting a text into tokens. At each place the longest lexeme is taken; its first character tells
which rule applies, so the length of the lexeme is found by the rule alone. A word is a keyword only
if the whole word is one. Spaces, tabs, carriage returns, line feeds and form feeds separate lexemes
and are skipped.
-/

namespace Purr

set_option autoImplicit false

structure Span where
  start : Nat
  stop : Nat
  nonempty : start < stop
deriving DecidableEq

structure Lexeme where
  token : Token
  span : Span
deriving DecidableEq

namespace Lexer

def isSkipped (c : Char) : Bool :=
  c = ' ' || c = '\t' || c = '\r' || c = '\n' || c = '\x0c'

def isWordStart (c : Char) : Bool :=
  ('a' ≤ c && c ≤ 'z') || ('A' ≤ c && c ≤ 'Z') || c = '_'

def isWordPart (c : Char) : Bool := isWordStart c || isDigit c

def digitCount (text : Text) : Nat := (text.takeWhile isDigit).length

def fractionLength : Text → Nat
  | '.' :: rest => if digitCount rest = 0 then 0 else digitCount rest + 1
  | _ => 0

def signedLength : Text → Nat
  | '+' :: rest => if digitCount rest = 0 then 0 else digitCount rest + 1
  | '-' :: rest => if digitCount rest = 0 then 0 else digitCount rest + 1
  | rest => digitCount rest

def exponentLength : Text → Nat
  | 'e' :: rest => if signedLength rest = 0 then 0 else signedLength rest + 1
  | 'E' :: rest => if signedLength rest = 0 then 0 else signedLength rest + 1
  | _ => 0

/-- The length of the longest number at the beginning of a text. A point or an exponent letter that
no digit follows is left out. -/
def numberLength (text : Text) : Nat :=
  let whole := digitCount text
  let mantissa := whole + fractionLength (text.drop whole)
  if mantissa = 0 then 0 else mantissa + exponentLength (text.drop mantissa)

/-- The length of a literal whose opening quote stands before the given text; zero if it is not
closed. -/
def literalLength (afterQuote : Text) : Nat :=
  let content := afterQuote.takeWhile (· ≠ '"')
  if content.length < afterQuote.length then content.length + 2 else 0

def mark? : Text → Option Token
  | ['~', '>'] => some .arrow
  | [';'] => some .semicolon
  | [','] => some .comma
  | ['('] => some .leftParen
  | [')'] => some .rightParen
  | ['\x7b'] => some .leftBrace
  | ['\x7d'] => some .rightBrace
  | ['+'] => some (.operator .add)
  | ['-'] => some (.operator .sub)
  | ['*'] => some (.operator .mul)
  | ['/'] => some (.operator .div)
  | ['=', '='] => some (.comparison .equal)
  | ['!', '='] => some (.comparison .notEqual)
  | ['<', '='] => some (.comparison .lessEqual)
  | ['>', '='] => some (.comparison .greaterEqual)
  | ['<'] => some (.comparison .less)
  | ['>'] => some (.comparison .greater)
  | _ => none

def markLength (text : Text) : Nat :=
  if (mark? (text.take 2)).isSome then (text.take 2).length
  else if (mark? (text.take 1)).isSome then 1
  else 0

def lexemeLength : Text → Nat
  | [] => 0
  | c :: rest =>
      if isDigit c || c = '.' then numberLength (c :: rest)
      else if c = '"' then literalLength rest
      else if isWordStart c then (rest.takeWhile isWordPart).length + 1
      else markLength (c :: rest)

def wordToken (word : Text) : Token :=
  match Keyword.ofWord? word with
  | some keyword => .keyword keyword
  | none => .name word

def unquote? (literal : Text) : Option Text :=
  if 1 ≤ literal.byteLength then literal.slice? 1 (literal.byteLength - 1) else none

def tokenOf (lexeme : Text) : Except Refusal Token :=
  match lexeme with
  | [] => .error .outOfRange
  | c :: _ =>
      if isDigit c || c = '.' then
        match Numeral.readUnsigned? lexeme with
        | some value => .ok (.number value.toFloat)
        | none => .error (.malformed (.invalid lexeme))
      else if c = '"' then
        (inRange (unquote? lexeme)).map .text
      else if isWordStart c then
        .ok (wordToken lexeme)
      else
        match mark? lexeme with
        | some token => .ok token
        | none => .error (.malformed (.invalid lexeme))

/-- Where no lexeme starts, an unclosed literal is at fault up to the end, and otherwise one
character. -/
def invalidPart (c : Char) (rest : Text) : Text := if c = '"' then c :: rest else [c]

/-- The lexemes of a text that starts at a byte position, after passing over the first characters,
which belong to a lexeme already read. -/
def lexemesFrom (start passed : Nat) : Text → Except Refusal (List Lexeme)
  | [] => .ok []
  | c :: rest =>
      match passed with
      | passed + 1 => lexemesFrom (start + c.utf8Size) passed rest
      | 0 =>
          if isSkipped c then
            lexemesFrom (start + c.utf8Size) 0 rest
          else
            match lexemeLength (c :: rest) with
            | 0 => .error (.malformed (.invalid (invalidPart c rest)))
            | more + 1 => do
                let token ← tokenOf (c :: rest.take more)
                let lexemes ← lexemesFrom (start + c.utf8Size) more rest
                return ⟨token, start, start + Text.byteLength (c :: rest.take more), by
                  have := c.utf8Size_pos
                  rw [Text.byteLength_cons]
                  omega⟩ :: lexemes

end Lexer

def lexemes (text : Text) : Except Refusal (List Lexeme) := Lexer.lexemesFrom 0 0 text

end Purr
