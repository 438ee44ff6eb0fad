import Mathlib.Data.List.Basic
import Purr.Proofs.Lexing.Seams

/-!
# Borders

A text can be taken apart at the border of two of its lexemes, and both parts are read as before: a
word that is the longest one in a text is the longest one in any beginning of the text that holds
it. A run of the lexemes of a text is therefore what its own part of the text is made of, and that
part begins and ends with words.
-/

namespace Purr

set_option autoImplicit false

namespace Lexer

structure Tight (text : Text) : Prop where
  first : ∀ c, text.head? = some c → isSkipped c = false
  last : ∀ c, text.getLast? = some c → isSkipped c = false

theorem Tight.empty : Tight [] := ⟨nofun, nofun⟩

theorem skipped_plain {c : Char} (skipped : isSkipped c = true) :
    isDigit c = false ∧ isWordPart c = false ∧ c ∉ ['.', 'e', 'E', '+', '-'] := by
  have five : c = ' ' ∨ c = '\t' ∨ c = '\r' ∨ c = '\n' ∨ c = '\x0c' := by
    simpa [isSkipped, or_assoc] using skipped
  rcases five with rfl | rfl | rfl | rfl | rfl <;> decide

theorem not_skipped_of_word_part {c : Char} (part : isWordPart c = true) : isSkipped c = false := by
  rw [Bool.eq_false_iff]
  intro skipped
  rw [(skipped_plain skipped).2.1] at part
  cases part

/-- Inside of a literal any character may stand, but a word does not end with a skipped one. -/
theorem Spells.last_not_skipped {word : Text} {token : Token} {c : Char}
    (spells : Spells word token) (last : word.getLast? = some c) : isSkipped c = false := by
  have member : c ∈ word := List.mem_of_getLast? last
  cases spells with
  | number number =>
      rw [Bool.eq_false_iff]
      intro skipped
      obtain ⟨digit, _, other⟩ := skipped_plain skipped
      exact number.not_mem digit other member
  | text closed =>
      rw [List.getLast?_concat] at last
      cases last
      rfl
  | keyword keyword => exact not_skipped_of_word_part (keyword_word_parts keyword c member)
  | name start parts =>
      apply not_skipped_of_word_part
      rcases List.mem_cons.1 member with rfl | later
      · rw [isWordPart, start, Bool.true_or]
      · exact parts c later
  | mark mark =>
      cases token with
      | operator op => cases op <;> cases last <;> rfl
      | comparison op => cases op <;> cases last <;> rfl
      | number | text | name | keyword => cases mark
      | _ => cases last; rfl

/-- A word stays the longest one when the text behind it is cut short. -/
theorem Longest.of_append {text word rest behind : Text}
    (longest : Longest (text ++ behind) word (rest ++ behind)) : Longest text word rest := by
  have whole : text ++ behind = (word ++ rest) ++ behind := by
    rw [longest.split, List.append_assoc]
  have split : text = word ++ rest := List.append_cancel_right whole
  apply Longest.mk split longest.spelled
  intro longer more token same spells
  apply longest.longest longer (more ++ behind) token
  · rw [same, List.append_assoc]
  · exact spells

theorem Cut.ne_nil {start : Nat} {text : Text} {lexeme : Lexeme} {later : List Lexeme}
    (cut : Cut start text (lexeme :: later)) : text ≠ [] := by
  rintro rfl
  cases cut with
  | lexeme longest => exact absurd longest.length_lt (Nat.not_lt_zero _)

theorem Cut.skipped_of_nil {start : Nat} {text : Text} (cut : Cut start text []) :
    ∀ c ∈ text, isSkipped c = true := by
  generalize none : [] = lexemes at cut
  induction cut with
  | done => simp
  | skip skipped _ ih => exact List.forall_mem_cons.2 ⟨skipped, ih none⟩
  | lexeme => cases none

/-- Both parts of a text that is taken apart between two of its lexemes are read as before. What is
skipped between the two stands in the second part. -/
theorem Cut.border {start : Nat} {text : Text} {earlier later : List Lexeme}
    (cut : Cut start text (earlier ++ later)) :
    ∃ before after, text = before ++ after ∧ Cut start before earlier ∧
      Cut (start + before.byteLength) after later ∧
        ∀ c, before.getLast? = some c → isSkipped c = false := by
  generalize whole : earlier ++ later = lexemes at cut
  induction cut generalizing earlier with
  | @done start =>
      obtain ⟨rfl, rfl⟩ := List.append_eq_nil_iff.1 whole
      exact ⟨[], [], rfl, .done, .done, nofun⟩
  | @skip start c rest lexemes skipped inner ih =>
      cases earlier with
      | nil =>
          obtain rfl : later = lexemes := whole
          exact ⟨[], c :: rest, rfl, .done, .skip skipped inner, nofun⟩
      | cons lexeme more =>
          obtain ⟨before, after, rfl, own, behind, last⟩ := ih whole
          refine ⟨c :: before, after, rfl, .skip skipped own, ?_, ?_⟩
          · rw [Text.byteLength_cons, ← Nat.add_assoc]
            exact behind
          · obtain ⟨d, others, rfl⟩ := List.exists_cons_of_ne_nil own.ne_nil
            rw [List.getLast?_cons_cons]
            exact last
  | @lexeme start text word rest token span lexemes longest chosen first stop inner ih =>
      cases earlier with
      | nil =>
          obtain rfl : later = ⟨token, span⟩ :: lexemes := whole
          exact ⟨[], text, rfl, .done, .lexeme longest chosen first stop inner, nofun⟩
      | cons lexeme more =>
          obtain ⟨rfl, same⟩ := List.cons.inj whole
          obtain ⟨before, after, rfl, own, behind, last⟩ := ih same
          have split : text = word ++ before ++ after := by rw [longest.split, List.append_assoc]
          subst split
          refine ⟨word ++ before, after, rfl, ?_, ?_, ?_⟩
          · exact .lexeme longest.of_append chosen first stop own
          · rw [Text.byteLength_append, ← Nat.add_assoc, ← stop]
            exact behind
          · intro c final
            obtain ⟨_, spelled⟩ := longest.spelled
            cases before with
            | nil => exact spelled.last_not_skipped (by rwa [List.append_nil] at final)
            | cons d others =>
                rw [List.getLast?_append_of_ne_nil _ (List.cons_ne_nil d others)] at final
                exact last c final

theorem Cut.without_gap {start : Nat} {text : Text} {lexeme : Lexeme} {later : List Lexeme}
    (cut : Cut start text (lexeme :: later)) :
    ∃ gap rest, text = gap ++ rest ∧ Cut (start + gap.byteLength) rest (lexeme :: later) ∧
      ∀ c, rest.head? = some c → isSkipped c = false := by
  generalize whole : lexeme :: later = lexemes at cut
  induction cut with
  | done => cases whole
  | @skip start c rest _ _ _ ih =>
      obtain ⟨gap, rest, rfl, inner, first⟩ := ih whole
      refine ⟨c :: gap, rest, rfl, ?_, first⟩
      rw [Text.byteLength_cons, ← Nat.add_assoc]
      exact inner
  | @lexeme start text _ _ _ _ _ longest chosen first stop inner =>
      refine ⟨[], text, rfl, .lexeme longest chosen first stop inner, ?_⟩
      intro c head
      obtain ⟨d, more, _, rfl, other⟩ := longest.cons
      obtain rfl : d = c := by simpa using head
      exact other

/-- A run of the lexemes of a text is all that a part of the text is made of. -/
theorem Cut.run {start : Nat} {text : Text} {run lexemes : List Lexeme} (some : run ≠ [])
    (cut : Cut start text lexemes) (part : run <:+: lexemes) :
    ∃ before source after, text = before ++ source ++ after ∧
      Cut (start + before.byteLength) source run ∧ Tight source := by
  obtain ⟨earlier, later, rfl⟩ := part
  obtain ⟨first, more, rfl⟩ := List.exists_cons_of_ne_nil some
  obtain ⟨upTo, after, rfl, inner, _, last⟩ := cut.border
  obtain ⟨before, rest, rfl, _, behind, _⟩ := inner.border
  obtain ⟨gap, source, rfl, own, head⟩ := behind.without_gap
  refine ⟨before ++ gap, source, after, by simp, ?_, head, ?_⟩
  · rw [Text.byteLength_append, ← Nat.add_assoc]
    exact own
  · intro c final
    apply last
    rw [← List.append_assoc, List.getLast?_append_of_ne_nil _ own.ne_nil]
    exact final

theorem Cut.start_of_first {start : Nat} {text : Text} {first : Lexeme} {later : List Lexeme}
    (cut : Cut start text (first :: later))
    (head : ∀ c, text.head? = some c → isSkipped c = false) : first.span.start = start := by
  obtain ⟨gap, word, after, rfl, gaps, _, begins, _⟩ := cut.first
  cases gap with
  | nil => simpa using begins
  | cons c more =>
      have other := head c rfl
      rw [gaps c List.mem_cons_self] at other
      cases other

theorem Cut.stop_of_last {start : Nat} {text : Text} {last : Lexeme} {earlier : List Lexeme}
    (cut : Cut start text (earlier ++ [last]))
    (final : ∀ c, text.getLast? = some c → isSkipped c = false) :
    last.span.stop = start + text.byteLength := by
  obtain ⟨before, rest, rfl, _, behind, _⟩ := cut.border
  obtain ⟨gap, word, after, rfl, _, _, begins, stops, none⟩ := behind.first
  have nothing : after = [] := by
    by_contra some
    obtain ⟨c, ends⟩ : ∃ c, after.getLast? = .some c :=
      ⟨_, List.getLast?_eq_some_getLast some⟩
    have other := final c (by
      rw [← List.append_assoc, List.getLast?_append_of_ne_nil _ some, ends])
    rw [none.skipped_of_nil c (List.mem_of_getLast? ends)] at other
    cases other
  subst nothing
  simp only [stops, begins, Text.byteLength_append, Text.byteLength_nil]
  omega

theorem Cut.behind_lexeme {start : Nat} {text : Text} {earlier later : List Lexeme}
    {lexeme : Lexeme} (cut : Cut start text (earlier ++ lexeme :: later)) :
    ∃ before after, text = before ++ after ∧ lexeme.span.stop = start + before.byteLength ∧
      Cut start before (earlier ++ [lexeme]) ∧ Cut lexeme.span.stop after later := by
  rw [List.append_cons] at cut
  obtain ⟨before, after, rfl, own, behind, last⟩ := cut.border
  have stop := own.stop_of_last last
  exact ⟨before, after, rfl, stop, own, stop ▸ behind⟩

end Lexer

end Purr
