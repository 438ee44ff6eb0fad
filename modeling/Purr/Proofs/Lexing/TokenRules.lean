import Purr.Proofs.Lexing.NumberRule

/-!
# The token rules

Which words are lexemes, and of which tokens. `length_le_lexemeLength` and `exists_lexeme` say that
`lexemeLength` finds the longest word that any rule allows at the beginning of a text, and
`tokenOf_of_chosen` that its token is the one that the rules choose.
-/

namespace Purr.Lexer

set_option autoImplicit false

def isMark : Token → Bool
  | .number _ | .text _ | .name _ | .keyword _ => false
  | _ => true

/-- The token rules: which word spells which token. A keyword is spelled like a name too. -/
inductive Spells : Text → Token → Prop
  | number {word : Text} {value : Decimal} : Number word value →
      Spells word (.number value.toFloat)
  | text {content : Text} : '"' ∉ content → Spells ('"' :: content ++ ['"']) (.text content)
  | keyword (keyword : Keyword) : Spells keyword.word (.keyword keyword)
  | name {first : Char} {rest : Text} : isWordStart first = true →
      (∀ c ∈ rest, isWordPart c = true) → Spells (first :: rest) (.name (first :: rest))
  | mark {token : Token} : isMark token = true → Spells token.shown token

/-- The token that a word is read as: of a keyword and a name the keyword. -/
def Chosen (word : Text) (token : Token) : Prop :=
  Spells word token ∧ ∀ keyword : Keyword, word = keyword.word → token = .keyword keyword

theorem isWordStart_disjoint {c : Char} (start : isWordStart c = true) :
    isDigit c = false ∧ c ≠ '.' ∧ c ≠ '"' := by
  refine ⟨?_, ?_, ?_⟩
  · simp only [isWordStart, Bool.or_eq_true, Bool.and_eq_true, decide_eq_true_eq, Char.le_def,
      UInt32.le_iff_toNat_le] at start
    simp only [isDigit, Bool.and_eq_false_iff, decide_eq_false_iff_not, Char.le_def,
      UInt32.le_iff_toNat_le]
    have nine : '9'.val.toNat = 57 := rfl
    rcases start with (⟨small, _⟩ | ⟨large, _⟩) | rfl
    · have first : 'a'.val.toNat = 97 := rfl
      omega
    · have first : 'A'.val.toNat = 65 := rfl
      omega
    · exact .inr (by decide)
  · rintro rfl
    cases start
  · rintro rfl
    cases start

theorem keyword_word_cons (keyword : Keyword) :
    ∃ first rest, keyword.word = first :: rest ∧ isWordStart first = true := by
  cases keyword <;> exact ⟨_, _, rfl, rfl⟩

theorem keyword_word_parts (keyword : Keyword) : ∀ c ∈ keyword.word, isWordPart c = true := by
  have all : keyword.word.all isWordPart = true := by cases keyword <;> rfl
  exact List.all_eq_true.1 all

theorem mark_shown_cons {token : Token} (mark : isMark token = true) :
    ∃ first rest, token.shown = first :: rest ∧ isDigit first = false ∧ first ≠ '.' ∧
      first ≠ '"' ∧ isWordStart first = false := by
  cases token with
  | operator op => cases op <;> exact ⟨_, _, rfl, by decide⟩
  | comparison op => cases op <;> exact ⟨_, _, rfl, by decide⟩
  | number | text | name | keyword => cases mark
  | _ => exact ⟨_, _, rfl, by decide⟩

theorem Number.cons {word : Text} {value : Decimal} (number : Number word value) :
    ∃ first rest, word = first :: rest ∧ (isDigit first = true ∨ first = '.') := by
  cases number with
  | @whole digits point fraction power scale some _ _ =>
      cases digits with
      | nil => exact absurd rfl some.1
      | cons first rest => exact ⟨first, _, rfl, .inl (some.2 first List.mem_cons_self)⟩
  | fraction _ _ => exact ⟨'.', _, rfl, .inr rfl⟩

/-- A number holds digits, points, signs and the letters of exponents, and nothing else. -/
theorem Number.not_mem {c : Char} {word : Text} {value : Decimal} (number : Number word value)
    (digit : isDigit c = false) (other : c ∉ ['.', 'e', 'E', '+', '-']) : c ∉ word := by
  have digits {text : Text} (all : ∀ c ∈ text, isDigit c = true) : c ∉ text := by
    intro member
    rw [all c member] at digit
    cases digit
  simp only [List.mem_cons, List.not_mem_nil, or_false, not_or] at other
  obtain ⟨point, small, large, plus, minus⟩ := other
  have exponents {power : Text} {scale : Int} (part : Exponent power scale) : c ∉ power := by
    cases part with
    | none => simp
    | @letter letter signed scale exponent part =>
        have first : c ≠ letter := by rcases exponent with rfl | rfl <;> assumption
        cases part with
        | plain some => simpa [first] using digits some.2
        | plus some => simpa [first, plus] using digits some.2
        | minus some => simpa [first, minus] using digits some.2
  obtain ⟨whole, dot, fraction, power, scale, rfl, all, part, exponent, _, _⟩ := number.parts
  have points : c ∉ dot := by
    cases part with
    | none => simp
    | point some => simpa [point] using digits some.2
  simp [digits all, points, exponents exponent]

theorem Spells.length_pos {word : Text} {token : Token} (spells : Spells word token) :
    0 < word.length := by
  cases spells with
  | number number =>
      obtain ⟨first, rest, rfl, _⟩ := number.cons
      exact Nat.succ_pos _
  | text _ => exact Nat.succ_pos _
  | keyword keyword =>
      obtain ⟨first, rest, same, _⟩ := keyword_word_cons keyword
      rw [same]
      exact Nat.succ_pos _
  | name _ _ => exact Nat.succ_pos _
  | mark mark =>
      obtain ⟨first, rest, same, _⟩ := mark_shown_cons mark
      rw [same]
      exact Nat.succ_pos _

theorem literalLength_append {content : Text} (closed : '"' ∉ content) (rest : Text) :
    literalLength (content ++ '"' :: rest) = content.length + 2 := by
  have all : ∀ c ∈ content, (decide (c ≠ '"')) = true := by
    intro c member
    simp only [decide_eq_true_eq]
    rintro rfl
    exact closed member
  have taken : (content ++ '"' :: rest).takeWhile (fun c => decide (c ≠ '"')) = content := by
    rw [List.takeWhile_append_of_pos all, List.takeWhile_cons_of_neg (by simp), List.append_nil]
  simp only [literalLength, taken]
  rw [if_pos (by simp)]

theorem exists_literal {text : Text} (positive : literalLength text ≠ 0) :
    ∃ content rest, text = content ++ '"' :: rest ∧ '"' ∉ content ∧
      content.length + 2 = literalLength text := by
  have whole := List.takeWhile_append_dropWhile (p := fun c => decide (c ≠ '"')) (l := text)
  have closed : '"' ∉ text.takeWhile (fun c => decide (c ≠ '"')) := by
    intro member
    simpa using List.all_eq_true.1 List.all_takeWhile _ member
  have stops := List.head?_dropWhile_not (fun c => decide (c ≠ '"')) text
  cases after : text.dropWhile (fun c => decide (c ≠ '"')) with
  | nil =>
      rw [after, List.append_nil] at whole
      refine absurd ?_ positive
      simp only [literalLength, whole, Nat.lt_irrefl, if_false]
  | cons quote rest =>
      rw [after] at stops whole
      obtain rfl : quote = '"' := by simpa using stops
      refine ⟨_, rest, whole.symm, closed, ?_⟩
      rw [← literalLength_append closed rest, whole]

theorem wordLength_append {part : Text} (all : ∀ c ∈ part, isWordPart c = true) (rest : Text) :
    part.length ≤ ((part ++ rest).takeWhile isWordPart).length := by
  rw [List.takeWhile_append_of_pos all, List.length_append]
  omega

theorem mark?_shown {token : Token} (mark : isMark token = true) :
    mark? token.shown = some token := by
  cases token with
  | operator op => cases op <;> rfl
  | comparison op => cases op <;> rfl
  | number | text | name | keyword => cases mark
  | _ => rfl

theorem shown_of_mark? {word : Text} {token : Token} (found : mark? word = some token) :
    isMark token = true ∧ token.shown = word := by
  unfold mark? at found
  split at found <;> cases found <;> exact ⟨rfl, rfl⟩

theorem mark_length_le {token : Token} (mark : isMark token = true) (rest : Text) :
    token.shown.length ≤ markLength (token.shown ++ rest) := by
  have found := mark?_shown mark
  have short : token.shown.length ≤ 2 := by
    cases token with
    | operator op => cases op <;> decide
    | comparison op => cases op <;> decide
    | number | text | name | keyword => cases mark
    | _ => decide
  obtain ⟨first, more, same, _⟩ := mark_shown_cons mark
  rw [same] at found short ⊢
  cases more with
  | nil =>
      unfold markLength
      split
      next => simp
      next => rw [if_pos (by simp [found])]; simp
  | cons second more =>
      obtain rfl : more = [] := by
        simpa using short
      simp [markLength, found]

theorem exists_mark {text : Text} (positive : markLength text ≠ 0) :
    ∃ token rest, isMark token = true ∧ text = token.shown ++ rest ∧
      token.shown.length = markLength text := by
  unfold markLength at positive ⊢
  split at positive
  next two =>
    obtain ⟨token, found⟩ := Option.isSome_iff_exists.1 two
    obtain ⟨mark, same⟩ := shown_of_mark? found
    exact ⟨token, text.drop 2, mark, by rw [same, List.take_append_drop], by rw [same, if_pos two]⟩
  next notTwo =>
    split at positive
    next one =>
      obtain ⟨token, found⟩ := Option.isSome_iff_exists.1 one
      obtain ⟨mark, same⟩ := shown_of_mark? found
      refine ⟨token, text.drop 1, mark, by rw [same, List.take_append_drop], ?_⟩
      rw [same, if_neg notTwo, if_pos one]
      cases text with
      | nil => cases found
      | cons first rest => simp
    next => exact absurd rfl positive

theorem lexemeLength_number {first : Char} (rest : Text)
    (begins : isDigit first = true ∨ first = '.') :
    lexemeLength (first :: rest) = numberLength (first :: rest) := by
  rw [lexemeLength, if_pos (by simpa using begins)]

theorem lexemeLength_literal (rest : Text) : lexemeLength ('"' :: rest) = literalLength rest := by
  rw [lexemeLength, if_neg (by decide), if_pos rfl]

theorem lexemeLength_word {first : Char} (rest : Text) (start : isWordStart first = true) :
    lexemeLength (first :: rest) = (rest.takeWhile isWordPart).length + 1 := by
  obtain ⟨digit, point, quote⟩ := isWordStart_disjoint start
  rw [lexemeLength, if_neg (by simp [digit, point]), if_neg quote, if_pos start]

theorem lexemeLength_mark {first : Char} (rest : Text) (digit : isDigit first = false)
    (point : first ≠ '.') (quote : first ≠ '"') (start : isWordStart first = false) :
    lexemeLength (first :: rest) = markLength (first :: rest) := by
  rw [lexemeLength, if_neg (by simp [digit, point]), if_neg quote, if_neg (by simp [start])]

/-- No word of a rule at the beginning of a text is longer than the length found. -/
theorem length_le_lexemeLength {word : Text} {token : Token} (spells : Spells word token)
    (rest : Text) : word.length ≤ lexemeLength (word ++ rest) := by
  cases spells with
  | number number =>
      have longest := number.length_le rest
      obtain ⟨first, more, rfl, begins⟩ := number.cons
      rw [List.cons_append] at longest ⊢
      rw [lexemeLength_number _ begins]
      exact longest
  | @text content closed =>
      have same : '"' :: content ++ ['"'] ++ rest = '"' :: (content ++ '"' :: rest) := by simp
      rw [same, lexemeLength_literal, literalLength_append closed]
      simp
  | keyword keyword =>
      have parts := keyword_word_parts keyword
      obtain ⟨first, more, same, start⟩ := keyword_word_cons keyword
      rw [same] at parts ⊢
      have long := wordLength_append (List.forall_mem_cons.1 parts).2 rest
      rw [List.cons_append, lexemeLength_word _ start, List.length_cons]
      omega
  | @name first more start parts =>
      have long := wordLength_append parts rest
      rw [List.cons_append, lexemeLength_word _ start, List.length_cons]
      omega
  | mark mark =>
      have long := mark_length_le mark rest
      obtain ⟨first, more, same, digit, point, quote, start⟩ := mark_shown_cons mark
      rw [same, List.cons_append] at long ⊢
      rw [lexemeLength_mark _ digit point quote start]
      exact long

theorem exists_lexeme {text : Text} (positive : lexemeLength text ≠ 0) :
    ∃ word token rest, text = word ++ rest ∧ Spells word token ∧
      word.length = lexemeLength text := by
  cases text with
  | nil => exact absurd rfl positive
  | cons first rest =>
      by_cases number : isDigit first = true ∨ first = '.'
      · rw [lexemeLength_number rest number] at positive ⊢
        obtain ⟨word, value, after, same, spelled, length⟩ := exists_number positive
        exact ⟨word, _, after, same, .number spelled, length⟩
      obtain ⟨notDigit, point⟩ := not_or.1 number
      have digit : isDigit first = false := Bool.eq_false_iff.2 notDigit
      by_cases quote : first = '"'
      · subst quote
        rw [lexemeLength_literal] at positive ⊢
        obtain ⟨content, after, rfl, closed, length⟩ := exists_literal positive
        refine ⟨'"' :: content ++ ['"'], _, after, by simp, .text closed, ?_⟩
        rw [← length]
        simp
      by_cases start : isWordStart first = true
      · rw [lexemeLength_word rest start] at positive ⊢
        refine ⟨first :: rest.takeWhile isWordPart, _, rest.dropWhile isWordPart, ?_,
          .name start (List.all_eq_true.1 List.all_takeWhile), rfl⟩
        rw [List.cons_append, List.takeWhile_append_dropWhile]
      · have other : isWordStart first = false := Bool.eq_false_iff.2 start
        rw [lexemeLength_mark rest digit point quote other] at positive ⊢
        obtain ⟨token, after, mark, same, length⟩ := exists_mark positive
        exact ⟨token.shown, token, after, same, .mark mark, length⟩

theorem unquote?_literal (content : Text) : unquote? ('"' :: content ++ ['"']) = some content := by
  have width : Char.utf8Size '"' = 1 := rfl
  have length : Text.byteLength ('"' :: content ++ ['"']) = content.byteLength + 2 := by
    simp only [Text.byteLength_append, Text.byteLength_cons, Text.byteLength_nil, width]
    omega
  have first : Text.dropBytes? 1 ('"' :: content ++ ['"']) = some (content ++ ['"']) := by
    have cut := Text.cutAt?_byteLength_append ['"'] (content ++ ['"'])
    simp only [Text.byteLength_cons, Text.byteLength_nil, width] at cut
    simp only [Text.dropBytes?, List.cons_append]
    rw [show '"' :: (content ++ ['"']) = ['"'] ++ (content ++ ['"']) from rfl, cut]
    rfl
  have last : Text.takeBytes? content.byteLength (content ++ ['"']) = some content := by
    rw [Text.takeBytes?, Text.cutAt?_byteLength_append]
    rfl
  rw [unquote?, length, if_pos (by omega), Text.slice?, if_pos (by omega), first, Option.bind_some,
    show content.byteLength + 2 - 1 - 1 = content.byteLength by omega, last]

theorem wordToken_word (keyword : Keyword) : wordToken keyword.word = .keyword keyword := by
  rw [wordToken, Keyword.ofWord?_eq_some_iff.2 rfl]

theorem tokenOf_word {first : Char} (rest : Text) (start : isWordStart first = true) :
    tokenOf (first :: rest) = .ok (wordToken (first :: rest)) := by
  obtain ⟨digit, point, quote⟩ := isWordStart_disjoint start
  simp only [tokenOf]
  rw [if_neg (by simp [digit, point]), if_neg quote, if_pos start]

theorem tokenOf_of_chosen {word : Text} {token : Token} (chosen : Chosen word token) :
    tokenOf word = .ok token := by
  obtain ⟨spells, keywords⟩ := chosen
  cases spells with
  | number number =>
      have value := number.readUnsigned?
      obtain ⟨first, rest, rfl, begins⟩ := number.cons
      simp only [tokenOf]
      rw [if_pos (by simpa using begins), value]
  | @text content _ =>
      have unquoted := unquote?_literal content
      rw [List.cons_append] at unquoted ⊢
      simp only [tokenOf]
      rw [if_neg (by decide), if_pos trivial, unquoted]
      rfl
  | keyword keyword =>
      obtain ⟨first, rest, same, start⟩ := keyword_word_cons keyword
      have read := wordToken_word keyword
      rw [same] at read ⊢
      rw [tokenOf_word _ start, read]
  | @name first rest start _ =>
      rw [tokenOf_word _ start, wordToken]
      split
      next keyword found =>
        exact congrArg Except.ok (keywords keyword (Keyword.ofWord?_eq_some_iff.1 found)).symm
      next => rfl
  | mark mark =>
      have found := mark?_shown mark
      obtain ⟨first, rest, same, digit, point, quote, start⟩ := mark_shown_cons mark
      rw [same] at found ⊢
      simp only [tokenOf]
      rw [if_neg (by simp [digit, point]), if_neg quote, if_neg (by simp [start]), found]

theorem exists_chosen {word : Text} {token : Token} (spells : Spells word token) :
    ∃ chosen, Chosen word chosen := by
  by_cases reserved : ∃ keyword : Keyword, word = keyword.word
  · obtain ⟨keyword, rfl⟩ := reserved
    refine ⟨.keyword keyword, .keyword keyword, ?_⟩
    intro other same
    have read := wordToken_word keyword
    rw [same, wordToken_word other] at read
    exact read.symm
  · refine ⟨token, spells, ?_⟩
    intro keyword same
    exact absurd ⟨keyword, same⟩ reserved

end Purr.Lexer
