import Purr.Evaluation
import Purr.Proofs.Lexing.Seams
import Purr.Proofs.Number.Layout
import Purr.Proofs.Number.Patterns

/-!
# Numbers that are read back

The text of a finite double is plain notation with a sign before it if the double is negative, also
if it is a zero. Two readers find the double again: the one of written numbers, which knows the sign,
and that of expressions, for which the sign is an operator. The texts of all other doubles are words,
which are no written numbers.
-/

namespace Purr

set_option autoImplicit false

open Lexer

theorem isBlank_of_isDigit {c : Char} (digit : isDigit c = true) : isBlank c = false := by
  have bounds : '0'.toNat ≤ c.toNat ∧ c.toNat ≤ '9'.toNat := by
    simpa [isDigit, Char.le_def, UInt32.le_iff_toNat_le] using digit
  have zero : '0'.toNat = 48 := rfl
  have nine : '9'.toNat = 57 := rfl
  simp only [isBlank, blankRanges, List.any_cons, List.any_nil, Bool.or_false, Bool.or_eq_false_iff,
    Bool.and_eq_false_iff, decide_eq_false_iff_not]
  omega

theorem Text.trim_of_not_blank {text : Text} (plain : ∀ c ∈ text, isBlank c = false) :
    text.trim = text := by
  have start {text : Text} (plain : ∀ c ∈ text, isBlank c = false) : text.trimStart = text := by
    cases text with
    | nil => rfl
    | cons first rest =>
        exact List.dropWhile_cons_of_neg (by simp [plain first List.mem_cons_self])
  rw [trim, start plain, trimEnd, start (fun c member => plain c (List.mem_reverse.1 member)),
    List.reverse_reverse]

namespace Plain

variable {text whole fraction : Text}

theorem not_blank (plain : Plain text whole fraction) : ∀ c ∈ text, isBlank c = false := by
  intro c member
  obtain ⟨point, rfl, part⟩ := plain.point
  rcases List.mem_append.1 member with digit | later
  · exact isBlank_of_isDigit (plain.digits.2 c digit)
  · cases part with
    | none => cases later
    | point some =>
        rcases List.mem_cons.1 later with rfl | digit
        · decide
        · exact isBlank_of_isDigit (some.2 c digit)

theorem begins (plain : Plain text whole fraction) :
    ∃ first rest, text = first :: rest ∧ isDigit first = true := by
  obtain ⟨point, rfl, _⟩ := plain.point
  obtain ⟨first, rest, rfl⟩ := List.exists_cons_of_ne_nil plain.digits.1
  exact ⟨first, rest ++ point, rfl, plain.digits.2 first List.mem_cons_self⟩

theorem readSigned? (plain : Plain text whole fraction) :
    Numeral.readSigned? text = some (plainDecimal whole fraction).toFloat := by
  have unsigned := plain.number.readUnsigned?
  obtain ⟨point, rfl, _⟩ := plain.point
  have first := plain.digits.not_sign point
  unfold Numeral.readSigned?
  split
  next same => exact absurd rfl (first _ _ same).1
  next same => exact absurd rfl (first _ _ same).2
  next => rw [unsigned, Option.map_some]

theorem read? (plain : Plain text whole fraction) :
    Numeral.read? text = some (plainDecimal whole fraction).toFloat := by
  rw [Numeral.read?, Text.trim_of_not_blank plain.not_blank]
  exact plain.readSigned?

theorem read?_negative (plain : Plain text whole fraction) :
    Numeral.read? ('-' :: text) = some (-(plainDecimal whole fraction).toFloat) := by
  have bare : ∀ c ∈ '-' :: text, isBlank c = false :=
    List.forall_mem_cons.2 ⟨by decide, plain.not_blank⟩
  rw [Numeral.read?, Text.trim_of_not_blank bare, Numeral.readSigned?, plain.number.readUnsigned?]
  rfl

theorem chosen (plain : Plain text whole fraction) :
    Chosen text (.number (plainDecimal whole fraction).toFloat) := by
  refine ⟨.number plain.number, ?_⟩
  intro keyword same
  obtain ⟨first, rest, rfl, digit⟩ := plain.begins
  obtain ⟨first', rest', word, start⟩ := keyword_word_cons keyword
  obtain ⟨rfl, _⟩ := List.cons.inj (same.trans word)
  rw [(isWordStart_disjoint start).1] at digit
  cases digit

theorem cut (plain : Plain text whole fraction) (start : Nat) : ∃ span,
    Cut start text [⟨.number (plainDecimal whole fraction).toFloat, span⟩] := by
  have longest : Longest text text [] :=
    ⟨(List.append_nil text).symm, ⟨_, plain.chosen.1⟩, by rintro longer more _ rfl _; simp⟩
  exact ⟨⟨start, start + text.byteLength, Nat.lt_add_of_pos_right longest.byteLength_pos⟩,
    .lexeme longest plain.chosen rfl rfl .done⟩

theorem cut_negative (plain : Plain text whole fraction) (start : Nat) : ∃ sign span,
    Cut start ('-' :: text)
      [⟨.operator .sub, sign⟩, ⟨.number (plainDecimal whole fraction).toFloat, span⟩] := by
  have chosen : Chosen ['-'] (.operator .sub) := @chosen_mark (.operator .sub) rfl
  have one : lexemeLength (['-'] ++ text) = 1 := by cases text <;> rfl
  obtain ⟨span, rest⟩ := plain.cut (start + 1)
  exact ⟨⟨start, start + 1, Nat.lt_succ_self start⟩, span,
    .lexeme (.of_length chosen.1 one) chosen rfl rfl rest⟩

end Plain

theorem Shortest.magnitudeText_plain {bits : Nat} (finite : bits < Double.infinity) :
    ∃ whole fraction, Plain (magnitudeText bits) whole fraction ∧
      (plainDecimal whole fraction).toFloat = Double.ofPattern bits := by
  obtain ⟨whole, fraction, plain, nearest⟩ := layout_plain (digits bits)
  have reads : Double.nearest (digits bits) scale = bits := beq_iff_eq.1 (digits_reads finite)
  rw [magnitudeText, if_neg (Nat.ne_of_lt finite)]
  exact ⟨whole, fraction, plain, by rw [Decimal.toFloat, nearest, reads]⟩

theorem numberText_of_number {value : Float} (number : value.isNaN = false) :
    numberText value =
      if Double.isNegative value then '-' :: Shortest.magnitudeText (Double.pattern value)
      else Shortest.magnitudeText (Double.pattern value) := by
  rw [numberText, if_neg (Bool.eq_false_iff.1 number)]

open Double in
theorem exists_plain {value : Float} (finite : value.isFinite = true) :
    ∃ magnitude whole fraction, Plain magnitude whole fraction ∧
      (isNegative value = false ∧ numberText value = magnitude ∧
          (plainDecimal whole fraction).toFloat = value ∨
        isNegative value = true ∧ numberText value = '-' :: magnitude ∧
          -(plainDecimal whole fraction).toFloat = value) := by
  obtain ⟨whole, fraction, plain, same⟩ :=
    Shortest.magnitudeText_plain ((isFinite_iff value).1 finite)
  refine ⟨_, whole, fraction, plain, ?_⟩
  have text := numberText_of_number (isNaN_of_isFinite finite)
  rw [text, same]
  cases sign : isNegative value with
  | false => exact .inl ⟨rfl, if_neg Bool.false_ne_true, ofPattern_pattern sign⟩
  | true => exact .inr ⟨rfl, if_pos rfl, neg_ofPattern_pattern finite sign⟩

theorem numberText_of_isInf {value : Float} (infinite : value.isInf = true) :
    numberText value = if Double.isNegative value then "-inf".toList else "inf".toList := by
  have full := (Double.isInf_iff value).1 infinite
  have magnitude : Shortest.magnitudeText Double.infinity = "inf".toList := if_pos rfl
  rw [numberText_of_number (Double.isNaN_of_isInf infinite), full, magnitude]
  rfl

theorem numberText_of_isNaN {value : Float} (none : value.isNaN = true) :
    numberText value = "nan".toList := by
  rw [numberText, if_pos none]

/-- The text of every finite double is an optional sign and plain notation. It is read back as the
same double, bit for bit, as a written number and as an expression. The texts of the infinite
doubles and of no number are words, which are no written numbers. -/
theorem numbers_read_back :
    (∀ value : Float, value.isFinite = true →
      (∃ sign magnitude whole fraction, numberText value = sign ++ magnitude ∧
        (sign = [] ∨ sign = ['-']) ∧ Plain magnitude whole fraction) ∧
      Numeral.read? (numberText value) = some value ∧
      ∃ found tree, lexemes (numberText value) = .ok found ∧
        Expr.parse (found.map Lexeme.token) = .ok tree ∧
        ∀ invoke scope line, Evaluation.number invoke scope line tree = pure value) ∧
    (∀ value : Float, value.isInf = true →
      numberText value = (if Double.isNegative value then "-inf".toList else "inf".toList) ∧
      Numeral.read? (numberText value) = none) ∧
    ∀ value : Float, value.isNaN = true →
      numberText value = "nan".toList ∧ Numeral.read? (numberText value) = none := by
  refine ⟨?_, ?_, ?_⟩
  · intro value finite
    obtain ⟨magnitude, whole, fraction, plain, ⟨_, text, same⟩ | ⟨_, text, same⟩⟩ :=
      exists_plain finite
    · rw [text]
      obtain ⟨span, cut⟩ := plain.cut 0
      rw [same] at cut
      refine ⟨⟨[], magnitude, whole, fraction, rfl, .inl rfl, plain⟩, same ▸ plain.read?, _,
        .number value, lexemes_eq_ok_iff.2 cut, rfl, ?_⟩
      intro invoke scope line
      rw [Evaluation.number]
    · rw [text]
      obtain ⟨sign, span, cut⟩ := plain.cut_negative 0
      refine ⟨⟨['-'], magnitude, whole, fraction, rfl, .inr rfl, plain⟩,
        same ▸ plain.read?_negative, _, .negate (.number (plainDecimal whole fraction).toFloat),
        lexemes_eq_ok_iff.2 cut, rfl, ?_⟩
      intro invoke scope line
      rw [Evaluation.number, Evaluation.number, pure_bind, same]
  · intro value infinite
    have text := numberText_of_isInf infinite
    refine ⟨text, ?_⟩
    rw [text]
    split
    next => rfl
    next => rfl
  · intro value none
    have text := numberText_of_isNaN none
    exact ⟨text, text ▸ rfl⟩

/-- A tenth with a sign, the negative zero, the negative infinity and no number. -/
theorem negative_tenth_reads_back :
    let tenth := Float.ofBits 0xbfb999999999999a
    let zero := Float.ofBits 0x8000000000000000
    let infinite := Float.ofBits 0xfff0000000000000
    let none := Float.ofBits 0x7ff8000000000000
    tenth.isFinite = true ∧ numberText tenth = "-0.1".toList ∧
      Numeral.read? "-0.1".toList = some tenth ∧
    zero.isFinite = true ∧ numberText zero = "-0".toList ∧ Numeral.read? "-0".toList = some zero ∧
    infinite.isInf = true ∧ numberText infinite = "-inf".toList ∧
      Numeral.read? "-inf".toList = .none ∧
    none.isNaN = true ∧ numberText none = "nan".toList ∧ Numeral.read? "nan".toList = .none := by
  intro tenth zero infinite none
  obtain ⟨finite, infinity, word⟩ := numbers_read_back
  have reads {value : Float} {text : Text} (one : value.isFinite = true)
      (written : numberText value = text) : Numeral.read? text = some value := by
    rw [← written]
    exact (finite value one).2.1
  have refused {value : Float} {text : Text} (one : value.isInf = true)
      (written : numberText value = text) : Numeral.read? text = .none := by
    rw [← written]
    exact (infinity value one).2
  have tenthFinite : tenth.isFinite = true := by decide +kernel
  have tenthText : numberText tenth = "-0.1".toList := by decide +kernel
  have zeroFinite : zero.isFinite = true := by decide +kernel
  have zeroText : numberText zero = "-0".toList := by decide +kernel
  have infiniteIsInf : infinite.isInf = true := by decide +kernel
  have infiniteText : numberText infinite = "-inf".toList := by decide +kernel
  have noneIsNaN : none.isNaN = true := by decide +kernel
  obtain ⟨noneText, noneRead⟩ := word none noneIsNaN
  exact ⟨tenthFinite, tenthText, reads tenthFinite tenthText, zeroFinite, zeroText,
    reads zeroFinite zeroText, infiniteIsInf, infiniteText, refused infiniteIsInf infiniteText,
    noneIsNaN, noneText, noneText ▸ noneRead⟩

end Purr
