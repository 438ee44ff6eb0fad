/-!
# Doubles as exact numbers

Without its sign, a double is a bit pattern below `2 ^ 63`. A finite one stands for a whole number
of units of `2 ^ -1074`, the least positive double; the patterns grow with the numbers they stand
for. `nearest` goes the other way: it rounds a quotient to a pattern, a half to the even one.
`nearest_exact` says that a quotient which a double stands for is rounded to that double.
-/

namespace Purr.Double

set_option autoImplicit false

/-- The pattern of infinity; the patterns below it are the finite ones. -/
def infinity : Nat := 0x7ff0000000000000

/-- The number of binary places, and of decimal places, that every finite double fits in. -/
def places : Nat := 1074

def one : Nat := 1 <<< places

def binade : Nat := 0x10000000000000

def magnitudes : Nat := 0x8000000000000000

def significand (bits : Nat) : Nat :=
  if bits < binade then bits else binade + bits % binade

def shift (bits : Nat) : Nat := bits / binade - 1

def units (bits : Nat) : Nat := significand bits <<< shift bits

def roundQuotient (num den : Nat) : Nat :=
  let quotient := num / den
  let rest := num % den
  if 2 * rest < den then quotient
  else if den < 2 * rest then quotient + 1
  else quotient + quotient % 2

/-- The pattern nearest to the quotient of two numbers. The quotient is measured in units; its
length in bits gives the shift, and a significand that rounds up to `2 ^ 53` carries into the next
shift by itself. -/
def nearest (num den : Nat) : Nat :=
  let scaled := num * one
  let shift := (scaled / den).log2 - 52
  let bits := shift * binade + roundQuotient scaled (den <<< shift)
  if bits < infinity then bits else infinity

theorem roundQuotient_mul (quotient den : Nat) (positive : 0 < den) :
    roundQuotient (quotient * den) den = quotient := by
  simp [roundQuotient, Nat.mul_div_cancel _ positive, positive]

theorem shift_eq_log2_units (bits : Nat) : (units bits).log2 - 52 = shift bits := by
  rw [units, Nat.shiftLeft_eq]
  unfold significand shift
  rw [show binade = 2 ^ 52 from rfl]
  split
  case isTrue small =>
    have : bits / 2 ^ 52 = 0 := Nat.div_eq_of_lt small
    rw [this]
    rcases Nat.eq_zero_or_pos bits with rfl | positive
    · decide
    · have : bits.log2 < 52 := (Nat.log2_lt (by omega)).2 small
      simp
      omega
  case isFalse large =>
    have low : 0 < bits / 2 ^ 52 := Nat.div_pos (by omega) (by decide)
    have residue : bits % 2 ^ 52 < 2 ^ 52 := Nat.mod_lt _ (by decide)
    have lower := Nat.mul_le_mul_right (2 ^ (bits / 2 ^ 52 - 1))
      (show 2 ^ 52 ≤ 2 ^ 52 + bits % 2 ^ 52 by omega)
    have upper := Nat.mul_lt_mul_of_pos_right
      (show 2 ^ 52 + bits % 2 ^ 52 < 2 ^ 53 by omega) (Nat.two_pow_pos (bits / 2 ^ 52 - 1))
    rw [← Nat.pow_add] at lower upper
    have log : ((2 ^ 52 + bits % 2 ^ 52) * 2 ^ (bits / 2 ^ 52 - 1)).log2 =
        52 + (bits / 2 ^ 52 - 1) :=
      (Nat.log2_eq_iff (by have := Nat.two_pow_pos (52 + (bits / 2 ^ 52 - 1)); omega)).2
        ⟨lower, by rw [Nat.add_right_comm]; exact upper⟩
    omega

/-- Rounding finds again the finite double that a quotient stands for exactly. -/
theorem nearest_exact {bits num den : Nat} (finite : bits < infinity) (positive : 0 < den)
    (exact : num * one = units bits * den) : nearest num den = bits := by
  have scaled : num * one / den = units bits := by
    rw [exact, Nat.mul_div_cancel _ positive]
  have rounded : roundQuotient (num * one) (den <<< shift bits) = significand bits := by
    have : num * one = significand bits * (den <<< shift bits) := by
      rw [exact, units, Nat.shiftLeft_eq, Nat.shiftLeft_eq, Nat.mul_assoc,
        Nat.mul_comm (2 ^ shift bits)]
    rw [this]
    refine roundQuotient_mul _ _ ?_
    rw [Nat.shiftLeft_eq]
    exact Nat.mul_pos positive (Nat.two_pow_pos _)
  have pattern : shift bits * binade + significand bits = bits := by
    unfold shift significand binade
    split <;> omega
  simp only [nearest, scaled, shift_eq_log2_units, rounded, pattern, finite, if_true]

def ofPattern (bits : Nat) : Float := Float.ofBits (UInt64.ofNat bits)

def pattern (value : Float) : Nat := value.toBits.toNat % magnitudes

def isNegative (value : Float) : Bool := magnitudes ≤ value.toBits.toNat

end Purr.Double
