import Purr.Number.Shortest
import Purr.Proofs.Lexing.NumberRule
import Purr.Proofs.Number.Rounding

/-!
# The layout of numbers

A decimal number is laid out as its digits, with a point before the places that it needs and no
further. Taking away the zeros at the end of a fraction takes away a power of ten from the digits
and from the scale alike, so the text still stands for the same quotient and is rounded as that.
-/

namespace Purr

set_option autoImplicit false

open Lexer

theorem digits_ofNat (n : Nat) : Digits (Text.ofNat n) :=
  ⟨Nat.toDigits_ne_nil, fun _ member => Nat.isDigit_of_mem_toDigits (by decide) (by decide) member⟩

theorem digitsValue_ofNat (n : Nat) : digitsValue (Text.ofNat n) = n :=
  Nat.ofDigitChars_ten_toDigits

theorem digitsValue_append (before after : Text) :
    digitsValue (before ++ after) = digitsValue before * 10 ^ after.length + digitsValue after := by
  have parts : digitsValue (before ++ after) = Nat.ofDigitChars 10 after (digitsValue before) :=
    Nat.ofDigitChars_append 0
  rw [parts, Nat.ofDigitChars_eq_ofDigitChars_zero, Nat.mul_comm]
  rfl

theorem digitsValue_zeros (count : Nat) : digitsValue (List.replicate count '0') = 0 :=
  Nat.ofDigitChars_replicate_zero

theorem exists_zeros (text : Text) : ∃ kept zeros, text = kept ++ List.replicate zeros '0' ∧
    (text.reverse.dropWhile (· == '0')).reverse = kept ∧ kept.getLast? ≠ some '0' := by
  have zeros : text.reverse.takeWhile (· == '0') =
      List.replicate (text.reverse.takeWhile (· == '0')).length '0' := by
    refine List.eq_replicate_of_mem fun c member => ?_
    exact beq_iff_eq.1 (List.all_eq_true.1 List.all_takeWhile c member)
  refine ⟨_, (text.reverse.takeWhile (· == '0')).length, ?_, rfl, ?_⟩
  · rw [← List.reverse_replicate, ← zeros, ← List.reverse_append,
      List.takeWhile_append_dropWhile, List.reverse_reverse]
  · rw [List.getLast?_reverse]
    intro last
    have other := List.head?_dropWhile_not (· == '0') text.reverse
    rw [last] at other
    cases other

/-- Digits, and a point with the digits of a fraction that does not end in a zero, if there is one.
So there is no exponent, and no point without a fraction. -/
structure Plain (text whole fraction : Text) : Prop where
  digits : Digits whole
  point : ∃ point, text = whole ++ point ∧ Fraction point fraction
  last : fraction.getLast? ≠ some '0'

def plainDecimal (whole fraction : Text) : Decimal :=
  ⟨digitsValue (whole ++ fraction), 0 - fraction.length⟩

theorem Plain.number {text whole fraction : Text} (plain : Plain text whole fraction) :
    Number text (plainDecimal whole fraction) := by
  obtain ⟨point, rfl, part⟩ := plain.point
  rw [← List.append_nil (whole ++ point)]
  exact .whole plain.digits part .none

namespace Shortest

theorem scale_eq_pow : scale = 10 ^ Double.places := by
  unfold scale
  generalize Double.places = places
  rfl

theorem fractionDigits_spec {fraction : Nat} (proper : fraction < scale) :
    (∀ c ∈ fractionDigits fraction, isDigit c = true) ∧
    (fractionDigits fraction).getLast? ≠ some '0' ∧
    ∃ zeros, (fractionDigits fraction).length + zeros = Double.places ∧
      digitsValue (fractionDigits fraction) * 10 ^ zeros = fraction := by
  have short : (Text.ofNat fraction).length ≤ Double.places :=
    (Nat.length_toDigits_le_iff (by decide) (by decide)).2 (scale_eq_pow ▸ proper)
  obtain ⟨kept, zeros, padded, same, last⟩ := exists_zeros
    (List.replicate (Double.places - (Text.ofNat fraction).length) '0' ++ Text.ofNat fraction)
  have value := digitsValue_append
    (List.replicate (Double.places - (Text.ofNat fraction).length) '0') (Text.ofNat fraction)
  have width := congrArg List.length padded
  have digit := (digits_ofNat fraction).2
  have all : ∀ c ∈ List.replicate (Double.places - (Text.ofNat fraction).length) '0' ++
      Text.ofNat fraction, isDigit c = true := by
    intro c member
    rcases List.mem_append.1 member with padding | member
    · rw [List.eq_of_mem_replicate padding]
      rfl
    · exact digit c member
  rw [padded, digitsValue_append, digitsValue_zeros, digitsValue_zeros, digitsValue_ofNat,
    List.length_replicate] at value
  rw [padded] at all
  rw [List.length_append, List.length_append, List.length_replicate, List.length_replicate] at width
  have found : fractionDigits fraction = kept := same
  rw [found]
  exact ⟨fun c member => all c (List.mem_append_left _ member), last, zeros, by omega, by omega⟩

theorem layout_eq (decimal : Nat) : ∃ point,
    layout decimal = Text.ofNat (decimal / scale) ++ point ∧
      (fractionDigits (decimal % scale) = [] ∧ point = [] ∨
        fractionDigits (decimal % scale) ≠ [] ∧
          point = '.' :: fractionDigits (decimal % scale)) := by
  unfold layout
  split
  next none => exact ⟨[], (List.append_nil _).symm, .inl ⟨none, rfl⟩⟩
  next some => exact ⟨_, rfl, .inr ⟨some, rfl⟩⟩

/-- The text of a decimal number is in plain notation and stands for this number. -/
theorem layout_plain (decimal : Nat) : ∃ whole fraction, Plain (layout decimal) whole fraction ∧
    (plainDecimal whole fraction).nearest = Double.nearest decimal scale := by
  obtain ⟨all, last, zeros, width, value⟩ := fractionDigits_spec (Nat.mod_lt decimal scale_pos)
  obtain ⟨point, same, shape⟩ := layout_eq decimal
  refine ⟨Text.ofNat (decimal / scale), fractionDigits (decimal % scale),
    ⟨digits_ofNat _, ⟨point, same, ?_⟩, last⟩, ?_⟩
  · rcases shape with ⟨none, rfl⟩ | ⟨some, rfl⟩
    · rw [none]
      exact .none
    · exact .point ⟨some, all⟩
  · generalize fractionDigits (decimal % scale) = fraction at *
    have positive : 0 < 10 ^ zeros := Nat.pow_pos (by decide)
    have den : 10 ^ fraction.length * 10 ^ zeros = scale := by
      rw [← Nat.pow_add, width, scale_eq_pow]
    have num : digitsValue (Text.ofNat (decimal / scale) ++ fraction) * 10 ^ zeros = decimal := by
      rw [digitsValue_append, digitsValue_ofNat, Nat.add_mul, Nat.mul_assoc, den, value,
        Nat.div_add_mod']
    rw [plainDecimal, Decimal.nearest_of_places]
    calc Double.nearest (digitsValue (Text.ofNat (decimal / scale) ++ fraction))
          (10 ^ fraction.length)
        = Double.nearest
            (digitsValue (Text.ofNat (decimal / scale) ++ fraction) * 10 ^ zeros)
            (10 ^ fraction.length * 10 ^ zeros) := (Double.nearest_mul_right _ _ positive).symm
      _ = Double.nearest decimal scale := by rw [num, den]

end Shortest

end Purr
