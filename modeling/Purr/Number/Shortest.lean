import Purr.Number.Double
import Purr.Text.Basic

/-!
# Shortest number text

The text of a double has the fewest significant digits that read back as the same double. It is
always positional: no exponent, no zeros at the end of a fraction, no point without a fraction.

A decimal number is held as a whole number of units of `10 ^ -1074`; every finite double is one
exactly. Of the decimal numbers with a given count of significant digits only the two neighbours of
the double matter. The nearer one wins when both read back, and of two equally near ones the larger.
-/

namespace Purr

namespace Shortest

set_option autoImplicit false

/-- The number of decimal units in one. -/
def scale : Nat := Nat.pow 10 Double.places

/-- The decimal units in one binary unit. -/
def unit : Nat := Nat.pow 5 Double.places

def exact (bits : Nat) : Nat := Double.units bits * unit

def readsAs (bits decimal : Nat) : Bool := Double.nearest decimal scale == bits

/-- The multiple of a grid step next to a decimal number that is accepted. -/
def neighbour? (accepts : Nat → Bool) (decimal step : Nat) : Option Nat :=
  let below := decimal / step * step
  let above := below + step
  if accepts below && (!accepts above || 2 * (decimal - below) < step) then some below
  else if accepts above then some above
  else none

/-- The accepted number next to a decimal number that has the fewest significant digits, up to
seventeen. -/
def fewestDigits? (accepts : Nat → Bool) (decimal : Nat) : Option Nat :=
  let count := (Text.ofNat decimal).length
  (List.range 17).findSome? fun significant =>
    neighbour? accepts decimal (Nat.pow 10 (count - (significant + 1)))

def digits (bits : Nat) : Nat :=
  (fewestDigits? (readsAs bits) (exact bits)).getD (exact bits)

theorem scale_eq : scale = unit * Double.one := by
  unfold scale unit Double.one
  generalize Double.places = places
  rw [Nat.shiftLeft_eq, Nat.one_mul]
  exact Nat.mul_pow 5 2 places

theorem scale_pos : 0 < scale := by
  unfold scale
  generalize Double.places = places
  exact Nat.pow_pos (show 0 < 10 by decide)

theorem exact_reads {bits : Nat} (finite : bits < Double.infinity) :
    readsAs bits (exact bits) = true := by
  have same : exact bits * Double.one = Double.units bits * scale :=
    (Nat.mul_assoc (Double.units bits) unit Double.one).trans
      (congrArg (Double.units bits * ·) scale_eq.symm)
  exact beq_iff_eq.2 (Double.nearest_exact finite scale_pos same)

theorem neighbour?_accepted {accepts : Nat → Bool} {decimal step found : Nat}
    (chosen : neighbour? accepts decimal step = some found) : accepts found = true := by
  simp only [neighbour?] at chosen
  split at chosen
  case isTrue accepted => cases chosen; exact (Bool.and_eq_true_iff.1 accepted).1
  case isFalse =>
    split at chosen
    case isTrue accepted => cases chosen; exact accepted
    case isFalse => cases chosen

theorem fewestDigits?_accepted {accepts : Nat → Bool} {decimal found : Nat}
    (chosen : fewestDigits? accepts decimal = some found) : accepts found = true := by
  obtain ⟨_, _, nearby⟩ := List.exists_of_findSome?_eq_some chosen
  exact neighbour?_accepted nearby

theorem digits_reads {bits : Nat} (finite : bits < Double.infinity) :
    readsAs bits (digits bits) = true := by
  unfold digits
  cases chosen : fewestDigits? (readsAs bits) (exact bits) with
  | none => exact exact_reads finite
  | some found => exact fewestDigits?_accepted chosen

/-- The digits of a fraction of `scale`, without the zeros at the end. -/
def fractionDigits (fraction : Nat) : Text :=
  let written := Text.ofNat fraction
  let padded := List.replicate (Double.places - written.length) '0' ++ written
  (padded.reverse.dropWhile (· == '0')).reverse

def layout (decimal : Nat) : Text :=
  let whole := Text.ofNat (decimal / scale)
  match fractionDigits (decimal % scale) with
  | [] => whole
  | fraction => whole ++ '.' :: fraction

def magnitudeText (bits : Nat) : Text :=
  if bits = Double.infinity then "inf".toList else layout (digits bits)

end Shortest

def numberText (value : Float) : Text :=
  if value.isNaN then "nan".toList
  else
    let magnitude := Shortest.magnitudeText (Double.pattern value)
    if Double.isNegative value then '-' :: magnitude else magnitude

end Purr
