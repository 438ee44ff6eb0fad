import Mathlib.Algebra.Ring.Nat
import Purr.Number.Numeral

/-!
# Rounding

The double nearest to a quotient depends on the quotient alone, not on how it is written, and what
is less than half a unit is rounded to zero. So a decimal number with some places is rounded as the
quotient that it stands for, also where its power of ten is not computed.
-/

namespace Purr

set_option autoImplicit false

namespace Double

theorem roundQuotient_mul_right (num den : Nat) {factor : Nat} (positive : 0 < factor) :
    roundQuotient (num * factor) (den * factor) = roundQuotient num den := by
  have quotient : num * factor / (den * factor) = num / den :=
    Nat.mul_div_mul_right num den positive
  have rest : num * factor % (den * factor) = num % den * factor :=
    Nat.mul_mod_mul_right factor num den
  have below : 2 * (num % den * factor) < den * factor ↔ 2 * (num % den) < den := by
    rw [← Nat.mul_assoc, Nat.mul_lt_mul_right positive]
  have above : den * factor < 2 * (num % den * factor) ↔ den < 2 * (num % den) := by
    rw [← Nat.mul_assoc, Nat.mul_lt_mul_right positive]
  simp only [roundQuotient, quotient, rest, below, above]

theorem nearest_mul_right (num den : Nat) {factor : Nat} (positive : 0 < factor) :
    nearest (num * factor) (den * factor) = nearest num den := by
  have scaled : num * factor * one = num * one * factor := Nat.mul_right_comm num factor one
  have quotient : num * one * factor / (den * factor) = num * one / den :=
    Nat.mul_div_mul_right (num * one) den positive
  have shifted (places : Nat) : (den * factor) <<< places = den <<< places * factor := by
    rw [Nat.shiftLeft_eq, Nat.shiftLeft_eq, Nat.mul_right_comm]
  simp only [nearest, scaled, quotient, shifted, roundQuotient_mul_right _ _ positive]

theorem nearest_of_small {num den : Nat} (small : 2 * (num * one) < den) : nearest num den = 0 := by
  have quotient : num * one / den = 0 := Nat.div_eq_of_lt (by omega)
  have rest : num * one % den = num * one := Nat.mod_eq_of_lt (by omega)
  have rounded : roundQuotient (num * one) den = 0 := by
    rw [roundQuotient, quotient, rest, if_pos small]
  have shift : (0 : Nat).log2 - 52 = 0 := rfl
  simp only [nearest, quotient, shift, Nat.shiftLeft_zero, rounded, Nat.zero_mul]
  rfl

end Double

namespace Decimal

theorem small_of_places {mantissa places : Nat} (many : 400 + mantissa.log2 < places) :
    2 * (mantissa * Double.one) < 10 ^ (places + 1) := by
  have unit : Double.one = 2 ^ Double.places := Nat.one_shiftLeft Double.places
  have width : Double.places = 1074 := rfl
  calc 2 * (mantissa * Double.one)
      < 2 * (2 ^ (mantissa.log2 + 1) * 2 ^ Double.places) := by
        rw [unit]
        exact Nat.mul_lt_mul_of_pos_left (Nat.mul_lt_mul_of_pos_right Nat.lt_log2_self
          (Nat.two_pow_pos _)) Nat.two_pos
    _ = 2 ^ (mantissa.log2 + 1 + Double.places + 1) := by
        rw [← Nat.pow_add, ← Nat.pow_succ']
    _ ≤ 2 ^ (3 * (places + 1)) := Nat.pow_le_pow_right Nat.two_pos (by omega)
    _ = 8 ^ (places + 1) := Nat.pow_mul 2 3 (places + 1)
    _ ≤ 10 ^ (places + 1) := Nat.pow_le_pow_left (by decide) (places + 1)

theorem nearest_ofNat (less power : Nat) : nearest ⟨less + 1, .ofNat power⟩ =
    if 400 < power then Double.infinity
    else Double.nearest ((less + 1) * Nat.pow 10 power) 1 := rfl

theorem nearest_negSucc (less power : Nat) : nearest ⟨less + 1, .negSucc power⟩ =
    if 400 + (less + 1).log2 < power then 0
    else Double.nearest (less + 1) (Nat.pow 10 (power + 1)) := rfl

/-- A decimal number with some places is rounded as a quotient by a power of ten. -/
theorem nearest_of_places (mantissa places : Nat) :
    nearest ⟨mantissa, 0 - places⟩ = Double.nearest mantissa (Nat.pow 10 places) := by
  cases mantissa with
  | zero =>
      have small : 2 * (0 * Double.one) < Nat.pow 10 places := by
        rw [Nat.zero_mul]
        exact Nat.pow_pos (by decide)
      rw [Double.nearest_of_small small]
      rfl
  | succ less =>
      cases places with
      | zero =>
          have exponent : 0 - ((0 : Nat) : Int) = .ofNat 0 := rfl
          rw [exponent, nearest_ofNat, if_neg (Nat.not_lt_zero 400)]
          exact congrArg (Double.nearest · 1) (Nat.mul_one (less + 1))
      | succ power =>
          have exponent : 0 - ((power + 1 : Nat) : Int) = .negSucc power := by omega
          rw [exponent, nearest_negSucc]
          split
          next many => exact (Double.nearest_of_small (small_of_places many)).symm
          next => rfl

end Decimal

end Purr
