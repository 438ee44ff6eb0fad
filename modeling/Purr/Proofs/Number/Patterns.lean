import Mathlib
import Purr.Number.Double

/-!
# Signs and patterns of doubles

A double is its pattern and its sign. The pattern of a finite double is below that of infinity, and
the double is found again from it: as the nonnegative double with this pattern, or as the opposite of
that one.
-/

namespace Purr.Double

set_option autoImplicit false

open Float.Model (Format)
open Float.Model.UnpackedFloat

theorem exponent_toNat (word : BitVec 64) :
    (@unpackExponent Format.binary64 word).toNat = word.toNat / 2 ^ 52 % 2 ^ 11 := by
  rw [unpackExponent_def, BitVec.extractLsb'_toNat, Nat.shiftRight_eq_div_pow]

theorem mantissa_toNat (word : BitVec 64) :
    (@unpackMantissa Format.binary64 word).toNat = word.toNat % 2 ^ 52 := by
  rw [unpackMantissa_def, BitVec.extractLsb'_toNat, Nat.shiftRight_zero]

theorem sign_toNat (word : BitVec 64) :
    (@unpackSign Format.binary64 word).toNat = word.toNat / 2 ^ 63 % 2 ^ 1 := by
  rw [unpackSign_def, BitVec.extractLsb'_toNat, Nat.shiftRight_eq_div_pow]
  rfl

theorem exponent_full_iff (word : BitVec 64) :
    @unpackExponent Format.binary64 word = -1#11 ↔ infinity ≤ word.toNat % magnitudes := by
  have bound := word.isLt
  rw [← BitVec.toNat_inj, exponent_toNat, show (-1#11).toNat = 2047 from rfl, infinity, magnitudes]
  omega

theorem isFinite_unpack (word : BitVec 64) : (unpack Format.binary64 word).isFinite = true ↔
    @unpackExponent Format.binary64 word ≠ -1#11 := by
  unfold unpack
  dsimp only
  split
  next full =>
    split
    next => exact iff_of_false nofun (not_not_intro full)
    next => exact iff_of_false nofun (not_not_intro full)
  next other =>
    split
    next =>
      split
      next => exact iff_of_true rfl other
      next => exact iff_of_true rfl other
    next => exact iff_of_true rfl other

theorem isFinite_iff (value : Float) : value.isFinite = true ↔ pattern value < infinity := by
  have fields := isFinite_unpack value.toBits.toBitVec
  rw [ne_eq, exponent_full_iff, Nat.not_le] at fields
  exact fields

theorem isInf_unpack (word : BitVec 64) : (unpack Format.binary64 word).isInf = true ↔
    @unpackExponent Format.binary64 word = -1#11 ∧ @unpackMantissa Format.binary64 word = 0#52 := by
  unfold unpack
  dsimp only
  split
  next full =>
    split
    next zero => exact iff_of_true rfl ⟨full, zero⟩
    next more => exact iff_of_false nofun fun fields => more fields.2
  next other =>
    split
    next =>
      split
      next => exact iff_of_false nofun (not_and_of_not_left _ other)
      next => exact iff_of_false nofun (not_and_of_not_left _ other)
    next => exact iff_of_false nofun (not_and_of_not_left _ other)

theorem isInf_iff (value : Float) : value.isInf = true ↔ pattern value = infinity := by
  have fields := isInf_unpack value.toBits.toBitVec
  have zero : (0#52).toNat = 0 := rfl
  rw [exponent_full_iff, ← BitVec.toNat_inj, mantissa_toNat, zero] at fields
  refine fields.trans ?_
  change infinity ≤ value.toBits.toNat % magnitudes ∧ value.toBits.toNat % 2 ^ 52 = 0 ↔
    value.toBits.toNat % magnitudes = infinity
  rw [infinity, magnitudes]
  omega

theorem isNaN_of_isFinite {value : Float} (finite : value.isFinite = true) :
    value.isNaN = false := by
  change value.toModel.unpack.isNaN = false
  change value.toModel.unpack.isFinite = true at finite
  generalize value.toModel.unpack = parts at *
  cases parts with
  | notANumber => cases finite
  | infinity | zero | finite => rfl

theorem isNaN_of_isInf {value : Float} (infinite : value.isInf = true) : value.isNaN = false := by
  change value.toModel.unpack.isNaN = false
  change value.toModel.unpack.isInf = true at infinite
  generalize value.toModel.unpack = parts at *
  cases parts with
  | notANumber => cases infinite
  | infinity | zero | finite => rfl

theorem neg_unpack {word other : BitVec 64}
    (exponent : @unpackExponent Format.binary64 word = @unpackExponent Format.binary64 other)
    (mantissa : @unpackMantissa Format.binary64 word = @unpackMantissa Format.binary64 other)
    (sign : -Sign.ofBitVec (@unpackSign Format.binary64 word) =
      Sign.ofBitVec (@unpackSign Format.binary64 other)) :
    (unpack Format.binary64 word).neg = unpack Format.binary64 other := by
  simp only [unpack, exponent, mantissa, ← sign]
  split
  next => split <;> rfl
  next =>
    split
    next => split <;> rfl
    next => rfl

theorem ofPattern_pattern {value : Float} (positive : isNegative value = false) :
    ofPattern (pattern value) = value := by
  have small : value.toBits.toNat < magnitudes := by simpa [isNegative] using positive
  rw [ofPattern, pattern, Nat.mod_eq_of_lt small, UInt64.ofNat_toNat, Float.ofBits_toBits]

theorem valid_of_exponent {word : BitVec 64}
    (part : @unpackExponent Format.binary64 word ≠ -1#11) : Format.binary64.Valid word :=
  ⟨fun full => absurd full part⟩

/-- A finite negative double is the opposite of the double with its pattern. -/
theorem neg_ofPattern_pattern {value : Float} (finite : value.isFinite = true)
    (negative : isNegative value = true) : -ofPattern (pattern value) = value := by
  let word := value.toBits.toBitVec
  let cleared := (UInt64.ofNat (pattern value)).toBitVec
  have bound : word.toNat < 2 ^ 64 := word.isLt
  have large : magnitudes ≤ word.toNat := of_decide_eq_true negative
  have less : cleared.toNat = word.toNat % magnitudes := by
    refine UInt64.toNat_ofNat_of_lt' (Nat.lt_trans (Nat.mod_lt _ (by decide)) ?_)
    decide
  rw [magnitudes] at large less
  have exponent :
      @unpackExponent Format.binary64 cleared = @unpackExponent Format.binary64 word := by
    rw [← BitVec.toNat_inj, exponent_toNat, exponent_toNat, less]
    omega
  have mantissa :
      @unpackMantissa Format.binary64 cleared = @unpackMantissa Format.binary64 word := by
    rw [← BitVec.toNat_inj, mantissa_toNat, mantissa_toNat, less]
    omega
  have clearedSign : @unpackSign Format.binary64 cleared = 0#1 := by
    rw [← BitVec.toNat_inj, sign_toNat, less, BitVec.toNat_zero]
    omega
  have wordSign : @unpackSign Format.binary64 word = 1#1 := by
    rw [← BitVec.toNat_inj, sign_toNat, BitVec.toNat_one (by decide)]
    omega
  have sign : -Sign.ofBitVec (@unpackSign Format.binary64 cleared) =
      Sign.ofBitVec (@unpackSign Format.binary64 word) := by
    rw [clearedSign, wordSign]
    rfl
  have part := (isFinite_unpack word).1 finite
  have packed : pack Format.binary64 (unpack Format.binary64
      (pack Format.binary64 (unpack Format.binary64 cleared))).neg = word := by
    rw [pack_unpack_of_valid (valid_of_exponent (exponent ▸ part)),
      neg_unpack exponent mantissa sign, pack_unpack_of_valid (valid_of_exponent part)]
  exact Float.toBits_inj.1 (UInt64.toBitVec_inj.1 packed)

end Purr.Double
