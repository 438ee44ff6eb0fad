import Mathlib.Data.List.TakeDrop
import Purr.Lexeme

/-!
# The number rules

Which words are numbers, and of which value, said without a text that goes on after the word.
`numberLength` looks for the longest number from the left instead. `Number.length_le` and
`exists_number` join the two: no number at the beginning of a text is longer than the length found,
and that many characters are a number.
-/

namespace Purr.Lexer

set_option autoImplicit false

def Digits (text : Text) : Prop := text ≠ [] ∧ ∀ c ∈ text, isDigit c = true

/-- A point with digits after it, or nothing. The second text is the digits. -/
inductive Fraction : Text → Text → Prop
  | none : Fraction [] []
  | point {digits : Text} : Digits digits → Fraction ('.' :: digits) digits

/-- Digits with an optional sign, and the integer that they spell. -/
inductive Signed : Text → Int → Prop
  | plain {digits : Text} : Digits digits → Signed digits (digitsValue digits)
  | plus {digits : Text} : Digits digits → Signed ('+' :: digits) (digitsValue digits)
  | minus {digits : Text} : Digits digits → Signed ('-' :: digits) (-(digitsValue digits : Int))

inductive Exponent : Text → Int → Prop
  | none : Exponent [] 0
  | letter {letter : Char} {signed : Text} {scale : Int} : letter = 'e' ∨ letter = 'E' →
      Signed signed scale → Exponent (letter :: signed) scale

/-- A number and its exact decimal value. Digits stand before the point, or after it, or both. -/
inductive Number : Text → Decimal → Prop
  | whole {digits point fraction power : Text} {scale : Int} :
      Digits digits → Fraction point fraction → Exponent power scale →
      Number (digits ++ point ++ power)
        ⟨digitsValue (digits ++ fraction), scale - fraction.length⟩
  | fraction {digits power : Text} {scale : Int} : Digits digits → Exponent power scale →
      Number ('.' :: digits ++ power) ⟨digitsValue digits, scale - digits.length⟩

theorem digitCount_append {digits : Text} (rest : Text)
    (all : ∀ c ∈ digits, isDigit c = true) :
    digitCount (digits ++ rest) = digits.length + digitCount rest := by
  rw [digitCount, List.takeWhile_append_of_pos all, List.length_append, digitCount]

theorem digitCount_cons_of_not_digit {c : Char} (rest : Text) (other : isDigit c = false) :
    digitCount (c :: rest) = 0 := by
  rw [digitCount, List.takeWhile_cons_of_neg (by simp [other]), List.length_nil]

theorem Digits.length_pos {digits : Text} (some : Digits digits) : 0 < digits.length :=
  List.length_pos_iff.2 some.1

theorem Digits.digitCount_append {digits : Text} (some : Digits digits) (rest : Text) :
    digitCount (digits ++ rest) = digits.length + digitCount rest :=
  Lexer.digitCount_append rest some.2

theorem exists_digits (text : Text) :
    ∃ digits rest, text = digits ++ rest ∧ (∀ c ∈ digits, isDigit c = true) ∧
      digits.length = digitCount text ∧ digitCount rest = 0 := by
  refine ⟨text.takeWhile isDigit, text.dropWhile isDigit, ?_, ?_, rfl, ?_⟩
  · exact List.takeWhile_append_dropWhile.symm
  · intro c member
    exact List.all_eq_true.1 List.all_takeWhile c member
  · have total := digitCount_append (text.dropWhile isDigit)
      (List.all_eq_true.1 (List.all_takeWhile (l := text)))
    rw [List.takeWhile_append_dropWhile] at total
    have same : digitCount text = (text.takeWhile isDigit).length := rfl
    omega

theorem isDigit_letter {letter : Char} (exponent : letter = 'e' ∨ letter = 'E') :
    isDigit letter = false := by
  rcases exponent with rfl | rfl <;> rfl

theorem Exponent.eq_nil_or {power : Text} {scale : Int} (part : Exponent power scale)
    (rest : Text) :
    power = [] ∨ digitCount (power ++ rest) = 0 ∧ fractionLength (power ++ rest) = 0 := by
  cases part with
  | none => exact .inl rfl
  | letter exponent _ =>
      refine .inr ⟨digitCount_cons_of_not_digit _ (isDigit_letter exponent), ?_⟩
      rcases exponent with rfl | rfl <;> rfl

theorem fractionLength_point {digits : Text} (some : Digits digits) (rest : Text) :
    fractionLength ('.' :: digits ++ rest) = digits.length + digitCount rest + 1 := by
  have count := some.digitCount_append rest
  have positive := some.length_pos
  rw [List.cons_append, fractionLength, if_neg (by omega), count]

theorem signedLength_of_sign {sign : Char} (signs : sign = '+' ∨ sign = '-') (rest : Text) :
    signedLength (sign :: rest) = if digitCount rest = 0 then 0 else digitCount rest + 1 := by
  rcases signs with rfl | rfl <;> rfl

theorem signedLength_of_not_sign {text : Text}
    (plain : ∀ sign rest, text = sign :: rest → sign ≠ '+' ∧ sign ≠ '-') :
    signedLength text = digitCount text := by
  unfold signedLength
  split
  next => exact absurd rfl (plain _ _ rfl).1
  next => exact absurd rfl (plain _ _ rfl).2
  next => rfl

theorem Digits.not_sign {digits : Text} (some : Digits digits) (rest : Text) :
    ∀ sign more, digits ++ rest = sign :: more → sign ≠ '+' ∧ sign ≠ '-' := by
  intro sign more same
  obtain ⟨nonempty, all⟩ := some
  cases digits with
  | nil => exact absurd rfl nonempty
  | cons first others =>
      have digit := all first List.mem_cons_self
      rw [List.cons_append] at same
      obtain rfl : first = sign := (List.cons.inj same).1
      constructor <;> rintro rfl <;> cases digit

theorem Signed.length_le {signed : Text} {scale : Int} (part : Signed signed scale) (rest : Text) :
    0 < signed.length ∧ signed.length ≤ signedLength (signed ++ rest) := by
  have long {digits : Text} (some : Digits digits) := some.digitCount_append rest
  cases part with
  | plain some =>
      rw [signedLength_of_not_sign (some.not_sign rest), long some]
      have positive := some.length_pos
      omega
  | plus some =>
      have positive := some.length_pos
      rw [List.cons_append, signedLength_of_sign (.inl rfl), if_neg (by rw [long some]; omega),
        long some, List.length_cons]
      omega
  | minus some =>
      have positive := some.length_pos
      rw [List.cons_append, signedLength_of_sign (.inr rfl), if_neg (by rw [long some]; omega),
        long some, List.length_cons]
      omega

theorem exponentLength_of_letter {letter : Char} (exponent : letter = 'e' ∨ letter = 'E')
    (rest : Text) :
    exponentLength (letter :: rest) = if signedLength rest = 0 then 0 else signedLength rest + 1 := by
  rcases exponent with rfl | rfl <;> rfl

theorem Exponent.length_le {power : Text} {scale : Int} (part : Exponent power scale)
    (rest : Text) : power.length ≤ exponentLength (power ++ rest) := by
  cases part with
  | none => exact Nat.zero_le _
  | letter exponent signed =>
      obtain ⟨positive, long⟩ := signed.length_le rest
      rw [List.cons_append, exponentLength_of_letter exponent, if_neg (by omega), List.length_cons]
      omega

theorem exists_digits_of_count {text : Text} (positive : digitCount text ≠ 0) :
    ∃ digits rest, text = digits ++ rest ∧ Digits digits ∧ digits.length = digitCount text := by
  obtain ⟨digits, rest, same, all, length, _⟩ := exists_digits text
  refine ⟨digits, rest, same, ⟨?_, all⟩, length⟩
  rintro rfl
  exact positive length.symm

theorem exists_signed {text : Text} (positive : signedLength text ≠ 0) :
    ∃ signed scale rest, text = signed ++ rest ∧ Signed signed scale ∧
      signed.length = signedLength text := by
  unfold signedLength at positive ⊢
  split at positive
  next rest =>
    split at positive
    next => exact absurd rfl positive
    next some =>
      obtain ⟨digits, after, same, digit, length⟩ := exists_digits_of_count some
      exact ⟨'+' :: digits, _, after, by rw [same]; rfl, .plus digit, by simp [some, length]⟩
  next rest =>
    split at positive
    next => exact absurd rfl positive
    next some =>
      obtain ⟨digits, after, same, digit, length⟩ := exists_digits_of_count some
      exact ⟨'-' :: digits, _, after, by rw [same]; rfl, .minus digit, by simp [some, length]⟩
  next =>
    obtain ⟨digits, after, same, digit, length⟩ := exists_digits_of_count positive
    exact ⟨digits, _, after, same, .plain digit, length⟩

theorem exists_exponent (text : Text) :
    ∃ power scale rest, text = power ++ rest ∧ Exponent power scale ∧
      power.length = exponentLength text := by
  by_cases empty : exponentLength text = 0
  · exact ⟨[], 0, text, rfl, .none, empty.symm⟩
  · obtain ⟨letter, rest, rfl, exponent⟩ :
        ∃ letter rest, text = letter :: rest ∧ (letter = 'e' ∨ letter = 'E') := by
      unfold exponentLength at empty
      split at empty
      next rest => exact ⟨_, rest, rfl, .inl rfl⟩
      next rest => exact ⟨_, rest, rfl, .inr rfl⟩
      next => exact absurd rfl empty
    rw [exponentLength_of_letter exponent] at empty ⊢
    have positive : signedLength rest ≠ 0 := by
      intro zero
      exact empty (if_pos zero)
    obtain ⟨signed, scale, after, rfl, part, length⟩ := exists_signed positive
    refine ⟨letter :: signed, scale, after, rfl, .letter exponent part, ?_⟩
    rw [if_neg positive, List.length_cons, length]

theorem exists_fraction (text : Text) :
    ∃ point digits rest, text = point ++ rest ∧ Fraction point digits ∧
      point.length = fractionLength text := by
  by_cases empty : fractionLength text = 0
  · exact ⟨[], [], text, rfl, .none, empty.symm⟩
  · unfold fractionLength at empty ⊢
    split at empty
    next rest =>
      split at empty
      next => exact absurd rfl empty
      next some =>
        obtain ⟨digits, after, same, digit, length⟩ := exists_digits_of_count some
        exact ⟨'.' :: digits, digits, after, by rw [same]; rfl, .point digit, by simp [some, length]⟩
    next => exact absurd rfl empty

/-! The two number rules have one shape: digits, a fraction and an exponent, with a digit
somewhere before the exponent. -/

theorem Number.parts {word : Text} {value : Decimal} (number : Number word value) :
    ∃ digits point fraction power scale, word = digits ++ point ++ power ∧
      (∀ c ∈ digits, isDigit c = true) ∧ Fraction point fraction ∧ Exponent power scale ∧
      digits ++ point ≠ [] ∧ value = ⟨digitsValue (digits ++ fraction), scale - fraction.length⟩ := by
  cases number with
  | whole some fraction power =>
      exact ⟨_, _, _, _, _, rfl, some.2, fraction, power, by simp [some.1], rfl⟩
  | fraction some power =>
      exact ⟨[], _, _, _, _, rfl, by simp, .point some, power, by simp, rfl⟩

theorem Number.of_parts {digits point fraction power : Text} {scale : Int}
    (all : ∀ c ∈ digits, isDigit c = true) (fractional : Fraction point fraction)
    (exponent : Exponent power scale) (some : digits ++ point ≠ []) :
    ∃ value, Number (digits ++ point ++ power) value := by
  by_cases whole : digits = []
  · subst whole
    cases fractional with
    | none => exact absurd rfl some
    | point fraction => exact ⟨_, .fraction fraction exponent⟩
  · exact ⟨_, .whole ⟨whole, all⟩ fractional exponent⟩

theorem numberLength_append {digits point rest : Text} (all : ∀ c ∈ digits, isDigit c = true)
    (whole : digitCount (point ++ rest) = 0) (length : point.length = fractionLength (point ++ rest))
    (some : digits ++ point ≠ []) :
    numberLength (digits ++ point ++ rest) = (digits ++ point).length + exponentLength rest := by
  have count : digitCount (digits ++ point ++ rest) = digits.length := by
    rw [List.append_assoc, digitCount_append _ all, whole, Nat.add_zero]
  have fraction : fractionLength ((digits ++ point ++ rest).drop digits.length) = point.length := by
    rw [List.append_assoc, List.drop_left, length]
  have mantissa : digits.length + point.length = (digits ++ point).length :=
    List.length_append.symm
  have positive : (digits ++ point).length ≠ 0 := by
    intro zero
    exact some (List.length_eq_zero_iff.1 zero)
  simp only [numberLength, count, fraction, mantissa]
  rw [if_neg positive, List.drop_left]

theorem mantissa_le_numberLength (text : Text) :
    digitCount text + fractionLength (text.drop (digitCount text)) ≤ numberLength text := by
  simp only [numberLength]
  split <;> omega

theorem Fraction.point_or_nil {point digits : Text} (part : Fraction point digits) (rest : Text) :
    point = [] ∨ digitCount (point ++ rest) = 0 ∧
      fractionLength (point ++ rest) = point.length + digitCount rest := by
  cases part with
  | none => exact .inl rfl
  | point some =>
      refine .inr ⟨digitCount_cons_of_not_digit _ rfl, ?_⟩
      rw [fractionLength_point some, List.length_cons]
      omega

theorem Number.length_le {word : Text} {value : Decimal} (number : Number word value)
    (rest : Text) : word.length ≤ numberLength (word ++ rest) := by
  obtain ⟨digits, point, fraction, power, scale, rfl, all, part, exponent, some, _⟩ := number.parts
  rcases exponent.eq_nil_or rest with rfl | ⟨noDigits, noFraction⟩
  · -- Without an exponent the digits and the fraction may still go on in the rest.
    have mantissa := mantissa_le_numberLength (digits ++ (point ++ rest))
    have count := digitCount_append (point ++ rest) all
    have longer : point.length ≤ digitCount (point ++ rest) +
        fractionLength ((digits ++ (point ++ rest)).drop
          (digits.length + digitCount (point ++ rest))) := by
      rcases part.point_or_nil rest with rfl | ⟨whole, length⟩
      · exact Nat.zero_le _
      · rw [whole, Nat.add_zero, List.drop_left, length]
        omega
    rw [count] at mantissa
    rw [List.append_nil, List.length_append, List.append_assoc]
    omega
  · -- An exponent ends both of them.
    have ends : digitCount (point ++ (power ++ rest)) = 0 ∧
        point.length = fractionLength (point ++ (power ++ rest)) := by
      rcases part.point_or_nil (power ++ rest) with rfl | ⟨whole, length⟩
      · exact ⟨noDigits, noFraction.symm⟩
      · exact ⟨whole, by rw [length, noDigits, Nat.add_zero]⟩
    rw [List.append_assoc (digits ++ point) power rest,
      numberLength_append all ends.1 ends.2 some, List.length_append]
    have := exponent.length_le rest
    omega

theorem exists_number {text : Text} (positive : numberLength text ≠ 0) :
    ∃ word value rest, text = word ++ rest ∧ Number word value ∧
      word.length = numberLength text := by
  obtain ⟨digits, afterDigits, rfl, all, count, stop⟩ := exists_digits text
  obtain ⟨point, fraction, afterPoint, rfl, part, length⟩ := exists_fraction afterDigits
  obtain ⟨power, scale, rest, rfl, exponent, powerLength⟩ := exists_exponent afterPoint
  have some : digits ++ point ≠ [] := by
    intro empty
    obtain ⟨rfl, rfl⟩ := List.append_eq_nil_iff.1 empty
    refine positive ?_
    simp only [List.nil_append] at stop length
    simp [numberLength, stop, ← length]
  obtain ⟨value, number⟩ := Number.of_parts all part exponent some
  refine ⟨digits ++ point ++ power, value, rest, by simp, number, ?_⟩
  rw [← List.append_assoc, numberLength_append all stop length some, List.length_append,
    powerLength]

theorem digits_span {digits rest : Text} (all : ∀ c ∈ digits, isDigit c = true)
    (stop : digitCount rest = 0) : (digits ++ rest).span isDigit = (digits, rest) := by
  have first : rest.takeWhile isDigit = [] := List.length_eq_zero_iff.1 stop
  have same : rest.dropWhile isDigit = rest := by
    have whole := List.takeWhile_append_dropWhile (p := isDigit) (l := rest)
    rw [first, List.nil_append] at whole
    exact whole
  rw [List.span_eq_takeWhile_dropWhile, List.takeWhile_append_of_pos all,
    List.dropWhile_append_of_pos all, first, same, List.append_nil]

theorem Digits.natural? {digits : Text} (some : Digits digits) :
    Numeral.readExponent?.natural? digits = .some (digitsValue digits : Int) := by
  have nonempty : digits.isEmpty = false := by simpa using some.1
  have all : digits.all isDigit = true := List.all_eq_true.2 some.2
  simp [Numeral.readExponent?.natural?, nonempty, all]

theorem Signed.readExponent? {signed : Text} {scale : Int} (part : Signed signed scale) :
    Numeral.readExponent? signed = .some scale := by
  cases part with
  | plain some =>
      have first := some.not_sign []
      unfold Numeral.readExponent?
      split
      next => exact absurd rfl (first '+' _ (List.append_nil _)).1
      next => exact absurd rfl (first '-' _ (List.append_nil _)).2
      next => exact some.natural?
  | plus some => exact some.natural?
  | minus some =>
      rw [Numeral.readExponent?, some.natural?]
      rfl

theorem Exponent.readScale? {power : Text} {scale : Int} (part : Exponent power scale) :
    Numeral.readScale? power = some scale := by
  cases part with
  | none => rfl
  | letter exponent signed =>
      rcases exponent with rfl | rfl
      · exact signed.readExponent?
      · exact signed.readExponent?

theorem Fraction.splitFraction {point fraction power : Text} {scale : Int}
    (part : Fraction point fraction) (exponent : Exponent power scale) :
    Numeral.splitFraction (point ++ power) = (fraction, power) := by
  cases part with
  | none =>
      cases exponent with
      | none => rfl
      | letter exponent _ => rcases exponent with rfl | rfl <;> rfl
  | point some =>
      have stop : digitCount power = 0 := by
        rcases exponent.eq_nil_or [] with rfl | ⟨noDigits, _⟩
        · rfl
        · rwa [List.append_nil] at noDigits
      exact digits_span some.2 stop

/-- The reader takes every word of the number rules whole and finds its value. -/
theorem Number.readUnsigned? {word : Text} {value : Decimal} (number : Number word value) :
    Numeral.readUnsigned? word = some value := by
  obtain ⟨digits, point, fraction, power, scale, rfl, all, part, exponent, some, rfl⟩ :=
    number.parts
  have stop : digitCount (point ++ power) = 0 := by
    rcases part.point_or_nil power with rfl | ⟨noDigits, _⟩
    · rcases exponent.eq_nil_or [] with rfl | ⟨noDigits, _⟩
      · rfl
      · rwa [List.append_nil] at noDigits
    · exact noDigits
  have nonempty : (digits.isEmpty && fraction.isEmpty) = false := by
    cases part with
    | none => simpa using some
    | point fraction => simp [fraction.1]
  rw [Numeral.readUnsigned?, List.append_assoc, digits_span all stop]
  simp only [part.splitFraction exponent, nonempty, exponent.readScale?]
  rfl

end Purr.Lexer
