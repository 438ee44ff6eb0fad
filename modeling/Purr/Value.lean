import Purr.Number.Numeral
import Purr.Number.Shortest

/-!
# Kinds and values

Every variable, parameter and result has one of three kinds. A value is a text, a number or a
boolean, or is absent: the result of a call that returned nothing.
-/

namespace Purr

set_option autoImplicit false

inductive Kind where
  | text
  | number
  | boolean
deriving DecidableEq, Repr

def Kind.word : Kind → Text
  | .text => "str".toList
  | .number => "num".toList
  | .boolean => "bool".toList

inductive ReturnKind where
  | value (kind : Kind)
  | nothing
deriving DecidableEq, Repr

def ReturnKind.word : ReturnKind → Text
  | .value kind => kind.word
  | .nothing => "void".toList

inductive Value where
  | absent
  | text (content : Text)
  | number (value : Float)
  | boolean (value : Bool)
deriving DecidableEq

def boolText : Bool → Text
  | true => "true".toList
  | false => "false".toList

def boolNumber : Bool → Float
  | true => Float.ofBits 0x3ff0000000000000
  | false => Float.ofBits 0

def zero : Float := Float.ofBits 0

def lowerAscii (c : Char) : Char :=
  if 'A' ≤ c ∧ c ≤ 'Z' then Char.ofNat (c.toNat + 32) else c

/-- Reads a truth value, in any mixture of small and capital letters. -/
def readBool? (text : Text) : Option Bool :=
  let small := text.map lowerAscii
  if small = boolText true then some true
  else if small = boolText false then some false
  else none

namespace Value

def kind? : Value → Option Kind
  | .absent => none
  | .text _ => some .text
  | .number _ => some .number
  | .boolean _ => some .boolean

/-- The return kind under which a value appears in messages. -/
def returnKind (value : Value) : ReturnKind :=
  match value.kind? with
  | some kind => .value kind
  | none => .nothing

/-- A value as a number. A text that is not a number counts as zero, like an absent value. -/
def toNumber : Value → Float
  | .absent => zero
  | .text content => (Numeral.read? content).getD zero
  | .number value => value
  | .boolean value => boolNumber value

def toText : Value → Text
  | .absent => []
  | .text content => content
  | .number value => numberText value
  | .boolean value => boolText value

end Value

end Purr
