import Purr.Proofs.Lexing.MaximalMunch

/-!
# Seams

Where a text falls into parts whose lexemes are its own. No lexeme that begins before a separator
reaches over it, unless a quote follows. A word ends before a character that no word contains. So
what stands between the parentheses of a header, or before the semicolon of a line, is cut as if it
stood alone, only at another position.
-/

namespace Purr

set_option autoImplicit false

def Lexeme.moveOn (offset : Nat) (lexeme : Lexeme) : Lexeme :=
  ⟨lexeme.token, offset + lexeme.span.start, offset + lexeme.span.stop,
    Nat.add_lt_add_left lexeme.span.nonempty offset⟩

namespace Lexer

/-- Where a text begins makes no difference to its lexemes but their positions. -/
theorem Cut.moveOn (offset : Nat) {start : Nat} {text : Text} {lexemes : List Lexeme}
    (cut : Cut start text lexemes) :
    Cut (offset + start) text (lexemes.map (Lexeme.moveOn offset)) := by
  induction cut with
  | done => exact .done
  | skip skipped _ ih => exact .skip skipped (by rw [Nat.add_assoc]; exact ih)
  | lexeme longest chosen first stop _ ih =>
      exact .lexeme longest chosen (congrArg (offset + ·) first)
        ((congrArg (offset + ·) stop).trans (Nat.add_assoc ..).symm) ih

theorem exists_moveOn {offset start : Nat} {text : Text} {lexemes : List Lexeme}
    (cut : Cut (offset + start) text lexemes) :
    ∃ own, Cut start text own ∧ lexemes = own.map (Lexeme.moveOn offset) := by
  rcases lexemesFrom_cut_or_stuck start text with ⟨own, _, inner⟩ | ⟨part, _, stuck⟩
  · have moved := (inner.moveOn offset).lexemesFrom_eq
    exact ⟨own, inner, Except.ok.inj (cut.lexemesFrom_eq.symm.trans moved)⟩
  · have failed := stuck.lexemesFrom_eq (offset + start)
    rw [cut.lexemesFrom_eq] at failed
    cases failed

/-- Characters that no word but a literal has behind its first one. -/
def separators : Text := [')', ';']

theorem separators_plain :
    ∀ c ∈ separators, isDigit c = false ∧ isWordPart c = false ∧ isSkipped c = false ∧
      c ∉ ['.', 'e', 'E', '+', '-', '"'] := by
  rw [separators, List.forall_mem_cons, List.forall_mem_singleton]
  decide

theorem separator_not_mem_tail_shown {token : Token} (mark : isMark token = true) :
    ∀ c ∈ separators, c ∉ token.shown.tail := by
  rw [separators, List.forall_mem_cons, List.forall_mem_singleton]
  cases token with
  | operator op => cases op <;> decide
  | comparison op => cases op <;> decide
  | number | text | name | keyword => cases mark
  | _ => decide

section

variable {separator : Char} {behind : Text}

/-- A word with a separator that it does not begin with is a literal, so it ends in a quote. -/
theorem quote_mem_of_separator (separates : separator ∈ separators) {first : Char}
    {before more : Text} {token : Token}
    (spells : Spells (first :: (before ++ separator :: more)) token) : '"' ∈ more := by
  obtain ⟨digit, part, _, other⟩ := separators_plain separator separates
  have inside : separator ∈ first :: (before ++ separator :: more) := by simp
  generalize same : first :: (before ++ separator :: more) = word at spells inside
  cases spells with
  | number number =>
      have sign : separator ∉ ['.', 'e', 'E', '+', '-'] := fun member =>
        other (List.mem_append_left ['"'] member)
      exact absurd inside (number.not_mem digit sign)
  | @text content closed =>
      have backward : more.reverse ++ (separator :: (before.reverse ++ [first])) =
          '"' :: (content.reverse ++ ['"']) := by
        simpa using congrArg List.reverse same
      rw [← List.mem_reverse]
      cases ends : more.reverse with
      | nil =>
          rw [ends] at backward
          obtain rfl : separator = '"' := (List.cons.inj backward).1
          simp at other
      | cons c others =>
          rw [ends] at backward
          obtain rfl : c = '"' := (List.cons.inj backward).1
          exact List.mem_cons_self
  | keyword keyword =>
      rw [keyword_word_parts keyword _ inside] at part
      cases part
  | @name first' rest start parts =>
      obtain ⟨rfl, rfl⟩ := List.cons.inj same
      rw [parts separator (by simp)] at part
      cases part
  | @mark token mark =>
      refine absurd ?_ (separator_not_mem_tail_shown mark separator separates)
      rw [← same]
      simp

/-- No word at the beginning of a text reaches over a separator with no quote behind it. -/
theorem exists_of_spells_before (separates : separator ∈ separators) (plain : '"' ∉ behind)
    {text word rest : Text} {token : Token} (some : text ≠ []) (spells : Spells word token)
    (split : text ++ separator :: behind = word ++ rest) :
    ∃ after, rest = after ++ separator :: behind ∧ text = word ++ after := by
  rcases List.append_eq_append_iff.1 split with ⟨more, rfl, same⟩ | ⟨more, split, same⟩
  · cases more with
    | nil => exact ⟨[], same.symm, by simp⟩
    | cons c others =>
        -- The word reaches over the separator.
        obtain ⟨first, before, rfl⟩ := List.exists_cons_of_ne_nil some
        obtain ⟨rfl, rfl⟩ := List.cons.inj same
        have quote := quote_mem_of_separator separates spells
        exact absurd (List.mem_append_left rest quote) plain
  · exact ⟨more, same, split⟩

theorem Longest.before_separator (separates : separator ∈ separators) (plain : '"' ∉ behind)
    {text word rest : Text} (some : text ≠ [])
    (longest : Longest (text ++ separator :: behind) word rest) :
    ∃ after, rest = after ++ separator :: behind ∧ Longest text word after := by
  obtain ⟨token, spells⟩ := longest.spelled
  obtain ⟨after, same, split⟩ := exists_of_spells_before separates plain some spells longest.split
  refine ⟨after, same, split, ⟨token, spells⟩, ?_⟩
  intro longer others other split spelled
  apply longest.longest longer (others ++ separator :: behind) other
  · rw [split, List.append_assoc]
  · exact spelled

theorem Longest.append_separator (separates : separator ∈ separators) (plain : '"' ∉ behind)
    {text word rest : Text} (longest : Longest text word rest) :
    Longest (text ++ separator :: behind) word (rest ++ separator :: behind) := by
  refine ⟨by rw [longest.split, List.append_assoc], longest.spelled, ?_⟩
  intro longer others other split spelled
  have some : text ≠ [] := by
    obtain ⟨c, more, _, rfl, _⟩ := longest.cons
    exact List.cons_ne_nil c _
  obtain ⟨after, _, split⟩ := exists_of_spells_before separates plain some spelled split
  exact longest.longest longer after other split spelled

theorem Cut.before_separator (separates : separator ∈ separators) (plain : '"' ∉ behind)
    {start : Nat} {text : Text} {lexemes : List Lexeme}
    (cut : Cut start (text ++ separator :: behind) lexemes) :
    ∃ inner later, lexemes = inner ++ later ∧ Cut start text inner ∧
      Cut (start + text.byteLength) (separator :: behind) later := by
  obtain ⟨_, _, notSkipped, _⟩ := separators_plain separator separates
  generalize whole : text ++ separator :: behind = joined at cut
  induction cut generalizing text with
  | done => simp at whole
  | @skip start c rest lexemes skipped inner ih =>
      cases text with
      | nil =>
          obtain ⟨rfl, rfl⟩ := List.cons.inj whole
          rw [notSkipped] at skipped
          cases skipped
      | cons c' others =>
          obtain ⟨rfl, rfl⟩ := List.cons.inj whole
          obtain ⟨first, later, rfl, own, behind⟩ := ih rfl
          refine ⟨first, later, rfl, .skip skipped own, ?_⟩
          rw [Text.byteLength_cons, ← Nat.add_assoc]
          exact behind
  | @lexeme start joined word rest token span lexemes longest chosen first stop inner ih =>
      subst whole
      by_cases none : text = []
      · subst none
        exact ⟨[], _, rfl, .done, .lexeme longest chosen first stop inner⟩
      · obtain ⟨after, rfl, own⟩ := longest.before_separator separates plain none
        obtain ⟨more, later, rfl, cut, behind⟩ := ih rfl
        refine ⟨⟨token, span⟩ :: more, later, rfl, .lexeme own chosen first stop cut, ?_⟩
        rw [own.split, Text.byteLength_append, ← Nat.add_assoc, ← stop]
        exact behind

/-- The lexemes before a separator with no quote behind it, and those from the separator on, are the
lexemes of the whole text. -/
theorem Cut.append_separator (separates : separator ∈ separators) (plain : '"' ∉ behind)
    {start : Nat} {text : Text} {inner later : List Lexeme} (cut : Cut start text inner)
    (after : Cut (start + text.byteLength) (separator :: behind) later) :
    Cut start (text ++ separator :: behind) (inner ++ later) := by
  induction cut with
  | done => exact after
  | @skip start c rest lexemes skipped _ ih =>
      rw [Text.byteLength_cons, ← Nat.add_assoc] at after
      exact .skip skipped (ih after)
  | @lexeme start text word rest token span lexemes longest chosen first stop _ ih =>
      rw [longest.split, Text.byteLength_append, ← Nat.add_assoc, ← stop] at after
      exact .lexeme (longest.append_separator separates plain) chosen first stop (ih after)

end

theorem Cut.after_skipped {start : Nat} {c : Char} {rest : Text} {lexemes : List Lexeme}
    (skipped : isSkipped c = true) (cut : Cut start (c :: rest) lexemes) :
    Cut (start + c.utf8Size) rest lexemes := by
  cases cut with
  | skip _ inner => exact inner
  | lexeme longest =>
      obtain ⟨_, _, _, same, other⟩ := longest.cons
      obtain ⟨rfl, _⟩ := List.cons.inj same
      rw [skipped] at other
      cases other

theorem Cut.after_longest {start : Nat} {text word rest : Text} {token : Token}
    {lexemes : List Lexeme} (longest : Longest text word rest) (chosen : Chosen word token)
    (cut : Cut start text lexemes) :
    ∃ span later, lexemes = ⟨token, span⟩ :: later ∧ Cut (start + word.byteLength) rest later := by
  obtain ⟨c, more, rfl, rfl, other⟩ := longest.cons
  cases cut with
  | skip skipped _ =>
      rw [skipped] at other
      cases other
  | lexeme found choice first stop inner =>
      obtain ⟨rfl, rfl⟩ := longest.unique found
      obtain rfl := Except.ok.inj ((tokenOf_of_chosen chosen).symm.trans (tokenOf_of_chosen choice))
      exact ⟨_, _, rfl, stop ▸ inner⟩

theorem Longest.of_length {word rest : Text} {token : Token} (spells : Spells word token)
    (length : lexemeLength (word ++ rest) = word.length) : Longest (word ++ rest) word rest := by
  refine ⟨rfl, ⟨_, spells⟩, ?_⟩
  intro longer others other same spelled
  have long := length_le_lexemeLength spelled others
  rw [← same, length] at long
  exact long

theorem Longest.of_word {first c : Char} {more rest : Text} {token : Token}
    (spells : Spells (first :: more) token) (start : isWordStart first = true)
    (parts : ∀ c ∈ more, isWordPart c = true) (ends : isWordPart c = false) :
    Longest (first :: more ++ c :: rest) (first :: more) (c :: rest) := by
  apply Longest.of_length spells
  rw [List.cons_append, lexemeLength_word _ start, List.takeWhile_append_of_pos parts,
    List.takeWhile_cons_of_neg (by simp [ends]), List.append_nil, List.length_cons]

theorem chosen_keyword (keyword : Keyword) : Chosen keyword.word (.keyword keyword) := by
  refine ⟨.keyword keyword, ?_⟩
  intro other same
  rw [Option.some.inj ((Keyword.ofWord?_eq_some_iff.2 rfl).symm.trans
    (Keyword.ofWord?_eq_some_iff.2 same))]

theorem longest_keyword (keyword : Keyword) {c : Char} (rest : Text) (ends : isWordPart c = false) :
    Longest (keyword.word ++ c :: rest) keyword.word (c :: rest) := by
  have spells := (chosen_keyword keyword).1
  have parts := keyword_word_parts keyword
  obtain ⟨first, more, same, begins⟩ := keyword_word_cons keyword
  rw [same] at spells parts ⊢
  exact .of_word spells begins (List.forall_mem_cons.1 parts).2 ends

theorem longest_name {name : Text} {c : Char} (rest : Text) (chosen : Chosen name (.name name))
    (ends : isWordPart c = false) : Longest (name ++ c :: rest) name (c :: rest) := by
  have spells := chosen.1
  generalize same : Token.name name = token at spells
  cases spells with
  | @name first more begins parts => exact .of_word chosen.1 begins parts ends
  | mark mark =>
      rw [← same] at mark
      cases mark
  | number | text | keyword => cases same

theorem chosen_name {first : Char} {rest : Text} (start : isWordStart first = true)
    (parts : ∀ c ∈ rest, isWordPart c = true) (free : Keyword.ofWord? (first :: rest) = none) :
    Chosen (first :: rest) (.name (first :: rest)) := by
  refine ⟨.name start parts, ?_⟩
  intro keyword same
  rw [Keyword.ofWord?_eq_some_iff.2 same] at free
  cases free

theorem chosen_mark {token : Token} (mark : isMark token = true) : Chosen token.shown token := by
  refine ⟨.mark mark, ?_⟩
  intro keyword same
  obtain ⟨first, rest, shown, _, _, _, start⟩ := mark_shown_cons mark
  obtain ⟨first', rest', word, begins⟩ := keyword_word_cons keyword
  rw [shown, word] at same
  rw [(List.cons.inj same).1, begins] at start
  cases start

theorem Cut.after_keyword {start : Nat} {keyword : Keyword} {c : Char} {rest : Text}
    {lexemes : List Lexeme} (ends : isWordPart c = false)
    (cut : Cut start (keyword.word ++ c :: rest) lexemes) :
    ∃ span later, lexemes = ⟨.keyword keyword, span⟩ :: later ∧
      Cut (start + keyword.word.byteLength) (c :: rest) later :=
  cut.after_longest (longest_keyword keyword rest ends) (chosen_keyword keyword)

theorem Cut.after_name {start : Nat} {name : Text} {c : Char} {rest : Text}
    {lexemes : List Lexeme} (chosen : Chosen name (.name name)) (ends : isWordPart c = false)
    (cut : Cut start (name ++ c :: rest) lexemes) :
    ∃ span later, lexemes = ⟨.name name, span⟩ :: later ∧
      Cut (start + name.byteLength) (c :: rest) later :=
  cut.after_longest (longest_name rest chosen ends) chosen

theorem Cut.after_leftParen {start : Nat} {rest : Text} {lexemes : List Lexeme}
    (cut : Cut start ('(' :: rest) lexemes) :
    ∃ span later, lexemes = ⟨.leftParen, span⟩ :: later ∧ Cut (start + 1) rest later := by
  have chosen : Chosen ['('] .leftParen := @chosen_mark .leftParen rfl
  have one : lexemeLength (['('] ++ rest) = 1 := by cases rest <;> rfl
  exact cut.after_longest (.of_length chosen.1 one) chosen

end Lexer

end Purr
