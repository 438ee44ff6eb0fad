import Purr.Number.Double
import Purr.Text.Blank

/-!
# Numerals

Reading decimal notation. An unsigned numeral is digits with an optional point, a digit on one side
of it at least, and an optional exponent; a written number may have blanks around it and a sign. The
value is the double nearest to the exact decimal.
-/

namespace Purr

set_option autoImplicit false

def isDigit (c : Char) : Bool := '0' ≤ c && c ≤ '9'

def digitsValue (digits : Text) : Nat :=
  digits.foldl (fun value c => 10 * value + (c.toNat - '0'.toNat)) 0

/-- The decimal number `mantissa * 10 ^ exponent`. -/
structure Decimal where
  mantissa : Nat
  exponent : Int
deriving DecidableEq, Repr

namespace Decimal

/-- The pattern of the double nearest to a decimal number. Powers of ten beyond `10 ^ 400`, and
those that leave less than `10 ^ -399` of the mantissa, are not computed. -/
def nearest (decimal : Decimal) : Nat :=
  match decimal.mantissa, decimal.exponent with
  | 0, _ => 0
  | mantissa, .ofNat power =>
      if 400 < power then Double.infinity else Double.nearest (mantissa * Nat.pow 10 power) 1
  | mantissa, .negSucc power =>
      if 400 + mantissa.log2 < power then 0 else Double.nearest mantissa (Nat.pow 10 (power + 1))

def toFloat (decimal : Decimal) : Float := Double.ofPattern decimal.nearest

end Decimal

namespace Numeral

/-- Reads an optional sign and at least one digit, up to the end. -/
def readExponent? : Text → Option Int
  | '+' :: digits => natural? digits
  | '-' :: digits => (natural? digits).map (- ·)
  | digits => natural? digits
where
  natural? (digits : Text) : Option Int :=
    if digits.isEmpty || !digits.all isDigit then none else some (digitsValue digits)

def readScale? : Text → Option Int
  | [] => some 0
  | 'e' :: rest => readExponent? rest
  | 'E' :: rest => readExponent? rest
  | _ :: _ => none

def splitFraction : Text → Text × Text
  | '.' :: rest => rest.span isDigit
  | rest => ([], rest)

def readUnsigned? (text : Text) : Option Decimal :=
  let (whole, afterWhole) := text.span isDigit
  let (fraction, afterFraction) := splitFraction afterWhole
  if whole.isEmpty && fraction.isEmpty then
    none
  else
    (readScale? afterFraction).map fun scale =>
      ⟨digitsValue (whole ++ fraction), scale - fraction.length⟩

def readSigned? : Text → Option Float
  | '+' :: rest => (readUnsigned? rest).map Decimal.toFloat
  | '-' :: rest => (readUnsigned? rest).map (- ·.toFloat)
  | text => (readUnsigned? text).map Decimal.toFloat

def read? (text : Text) : Option Float := readSigned? text.trim

end Numeral

end Purr
