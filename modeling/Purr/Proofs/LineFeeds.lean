import Purr.Diagnostic
import Purr.Line.Comment
import Purr.Proofs.Lexing.MaximalMunch

/-!
# Line feeds

A line of code holds no line feed, and neither does what a message shows of it: a name, a token, a
part that no token starts with, or the whole line. So every message is a line of its own. The only
words that a message does not copy are numbers, which are written by digits, a point and a few
letters.
-/

namespace Purr

set_option autoImplicit false

theorem Text.lineFeed_not_mem_ofNat (n : Nat) : '\n' ∉ ofNat n := by
  intro member
  have digit := Nat.isDigit_of_mem_toDigits (by decide) (by decide) member
  exact absurd digit (by decide)

namespace Shortest

theorem lineFeed_not_mem_fractionDigits (fraction : Nat) : '\n' ∉ fractionDigits fraction := by
  intro member
  have padded := (List.dropWhile_sublist _).subset (List.mem_reverse.1 member)
  rcases List.mem_append.1 (List.mem_reverse.1 padded) with zeros | written
  · exact absurd (List.eq_of_mem_replicate zeros) (by decide)
  · exact Text.lineFeed_not_mem_ofNat fraction written

theorem lineFeed_not_mem_layout (decimal : Nat) : '\n' ∉ layout decimal := by
  have whole := Text.lineFeed_not_mem_ofNat (decimal / scale)
  have fraction := lineFeed_not_mem_fractionDigits (decimal % scale)
  unfold layout
  split
  next => exact whole
  next => simpa [whole] using fraction

theorem lineFeed_not_mem_magnitudeText (bits : Nat) : '\n' ∉ magnitudeText bits := by
  unfold magnitudeText
  split
  next => decide
  next => exact lineFeed_not_mem_layout _

end Shortest

theorem lineFeed_not_mem_numberText (value : Float) : '\n' ∉ numberText value := by
  have magnitude := Shortest.lineFeed_not_mem_magnitudeText (Double.pattern value)
  unfold numberText
  split
  next => decide
  next =>
    dsimp only
    split
    next => simpa using magnitude
    next => exact magnitude

namespace Lexer

/-- A message shows a token by its word, or by the text of its number. -/
theorem Spells.lineFeed_not_mem_shown {word : Text} {token : Token} (spells : Spells word token)
    (plain : '\n' ∉ word) : '\n' ∉ token.shown := by
  cases spells with
  | number _ => exact lineFeed_not_mem_numberText _
  | text _ => exact plain
  | keyword _ => exact plain
  | name _ _ => exact plain
  | mark _ => exact plain

theorem Cut.lineFeed_not_mem_shown {text : Text} {found : List Lexeme} (cut : Cut 0 text found)
    (plain : '\n' ∉ text) : ∀ token ∈ found.map Lexeme.token, '\n' ∉ token.shown := by
  intro token member
  obtain ⟨lexeme, inside, rfl⟩ := List.mem_map.1 member
  obtain ⟨before, word, after, rfl, _, _, _, spells⟩ := cut.laidOut.words lexeme inside
  apply spells.lineFeed_not_mem_shown
  intro found
  exact plain (List.mem_append_left _ (List.mem_append_right _ found))

theorem Stuck.isInfix {text part : Text} (stuck : Stuck text part) : part <:+: text := by
  induction stuck with
  | quote _ => exact List.infix_refl _
  | character _ _ _ => exact ⟨[], _, rfl⟩
  | skip _ _ ih => exact List.infix_cons ih
  | lexeme longest _ ih =>
      rw [longest.split]
      exact ih.trans (List.suffix_append _ _).isInfix

end Lexer

def SyntaxFault.shown : SyntaxFault → Text
  | .invalid text => text
  | .unexpected token | .inArguments token | .afterEnd token => token.shown
  | .notACall | .unexpectedEnd | .unclosed => []

def Fault.shown : Fault → Text
  | .unknownVariable name | .unknownFunction name | .invalidNumber name | .invalidBoolean name
  | .typeMismatch name _ _ => name
  | .invalidCondition condition => condition
  | .unknownCommand command => command
  | .returnOutsideFunction | .elseWithoutIf => []
  | .malformed fault => fault.shown

theorem SyntaxFault.lineFeed_not_mem_description {fault : SyntaxFault}
    (plain : '\n' ∉ fault.shown) : '\n' ∉ fault.description := by
  have named {token : Token} (plain : '\n' ∉ token.shown) : '\n' ∉ description.quoted token :=
    List.not_mem_append (List.not_mem_cons_of_ne_of_not_mem (by decide) plain) (by decide)
  have unexpected {what : Text} (plain : '\n' ∉ what) : '\n' ∉ description.unexpectedToken what :=
    List.not_mem_append (List.not_mem_append (by decide) plain) (by decide)
  cases fault with
  | invalid text => exact List.not_mem_append (by decide) plain
  | unexpected token => exact unexpected (named plain)
  | inArguments token => exact unexpected (List.not_mem_append (by decide) (named plain))
  | afterEnd token => exact unexpected (List.not_mem_append (named plain) (by decide))
  | notACall | unexpectedEnd | unclosed => decide

theorem Fault.lineFeed_not_mem_description {fault : Fault} (plain : '\n' ∉ fault.shown) :
    '\n' ∉ fault.description := by
  cases fault with
  | typeMismatch name expected found =>
      have kind : '\n' ∉ expected.word := by cases expected <;> decide
      have returnKind : '\n' ∉ found.word := by
        cases found with
        | value kind => cases kind <;> decide
        | nothing => decide
      apply List.not_mem_append _ returnKind
      apply List.not_mem_append _ (by decide)
      apply List.not_mem_append _ kind
      apply List.not_mem_append _ (by decide)
      exact List.not_mem_append (by decide) plain
  | malformed fault => exact fault.lineFeed_not_mem_description plain
  | returnOutsideFunction | elseWithoutIf => decide
  | unknownVariable name | unknownFunction name | invalidNumber name | invalidBoolean name
  | invalidCondition condition | unknownCommand command =>
      exact List.not_mem_append (by decide) plain

theorem Diagnostic.lineFeed_not_mem_message {diagnostic : Diagnostic}
    (plain : '\n' ∉ diagnostic.fault.shown) : '\n' ∉ diagnostic.message := by
  apply List.not_mem_append _ (Fault.lineFeed_not_mem_description plain)
  apply List.not_mem_append _ (by decide)
  exact List.not_mem_append (by decide) (Text.lineFeed_not_mem_ofNat diagnostic.line)

theorem Text.lineFeed_not_mem_of_mem_lines (text : Text) : ∀ line ∈ text.lines, '\n' ∉ line := by
  fun_induction lines text with
  | case1 => simp
  | case2 rest ih => simpa using ih
  | case3 rest ih => simpa using ih
  | case4 c rest other _ _ ih => simpa using Ne.symm other
  | case5 c rest other _ first others same ih =>
      rw [same] at ih
      obtain ⟨plain, later⟩ := List.forall_mem_cons.1 ih
      have first : '\n' ∉ c :: first := List.not_mem_cons_of_ne_of_not_mem (Ne.symm other) plain
      exact List.forall_mem_cons.2 ⟨first, later⟩

namespace Comment

/-- Stripping comments leaves out characters of a line and adds none. -/
theorem stripFrom_sublist (place : Place) (line : Text) :
    (stripFrom place line).1.Sublist line := by
  fun_induction stripFrom place line with
  | case1 | case2 => exact List.Sublist.refl []
  | case3 rest ih => exact (ih.cons _).cons _
  | case4 c rest _ ih => exact ih.cons c
  | case5 rest => exact List.nil_sublist _
  | case6 rest ih => exact (ih.cons _).cons _
  | case7 rest ih => exact ih.cons_cons _
  | case8 c rest _ _ _ ih => exact ih.cons_cons c
  | case9 rest ih => exact ih.cons_cons _
  | case10 c rest _ ih => exact ih.cons_cons c

/-- The code of a line is what stripping leaves of the physical line in its place. -/
theorem exists_strip_of_getElem?_stripLines {inComment : Bool} {lines : List Text} {index : Nat}
    {code : Text} (found : (stripLines inComment lines)[index]? = some code) :
    ∃ line, lines[index]? = some line ∧ ∃ begins, code = (strip begins line).1 := by
  induction lines generalizing inComment index with
  | nil => cases found
  | cons line rest ih =>
      cases index with
      | zero =>
          cases found
          exact ⟨line, rfl, inComment, rfl⟩
      | succ index => exact ih found

theorem exists_strip_of_mem_stripLines {inComment : Bool} {lines : List Text} {code : Text}
    (member : code ∈ stripLines inComment lines) :
    ∃ line ∈ lines, ∃ begins, code = (strip begins line).1 := by
  obtain ⟨index, found⟩ := List.mem_iff_getElem?.1 member
  obtain ⟨line, inside, stripped⟩ := exists_strip_of_getElem?_stripLines found
  exact ⟨line, List.mem_of_getElem? inside, stripped⟩

theorem exists_of_mem_stripLines {inComment : Bool} {lines : List Text} {code : Text}
    (member : code ∈ stripLines inComment lines) : ∃ line ∈ lines, code.Sublist line := by
  obtain ⟨line, inside, begins, rfl⟩ := exists_strip_of_mem_stripLines member
  exact ⟨line, inside, stripFrom_sublist _ line⟩

end Comment

theorem Line.of_trimmed? {number : Nat} {text : Text} {line : Line}
    (kept : trimmed? number text = some line) : line = ⟨number, text.trim⟩ ∧ text.trim ≠ [] := by
  unfold trimmed? at kept
  split at kept
  next => cases kept
  next nonblank =>
    cases kept
    exact ⟨rfl, by simpa using nonblank⟩

theorem numbered_eq (number : Nat) (texts : List Text) :
    numbered number texts =
      (texts.zipIdx number).filterMap fun (text, number) => Line.trimmed? number text := by
  induction texts generalizing number with
  | nil => rfl
  | cons text rest ih =>
      simp only [numbered, List.zipIdx_cons, List.filterMap_cons, ih]
      cases Line.trimmed? number text <;> rfl

theorem exists_getElem?_of_mem_numbered {number : Nat} {texts : List Text} {line : Line}
    (member : line ∈ numbered number texts) :
    ∃ index text, texts[index]? = some text ∧
      Line.trimmed? (number + index) text = some line := by
  rw [numbered_eq] at member
  obtain ⟨⟨text, place⟩, listed, kept⟩ := List.mem_filterMap.1 member
  obtain ⟨above, found⟩ := List.mk_mem_zipIdx_iff_le_and_getElem?_sub.1 listed
  refine ⟨place - number, text, found, ?_⟩
  rwa [Nat.add_sub_cancel' above]

theorem exists_of_mem_numbered {number : Nat} {texts : List Text} {line : Line}
    (member : line ∈ numbered number texts) :
    ∃ text ∈ texts, Line.trimmed? line.number text = some line := by
  obtain ⟨index, text, found, kept⟩ := exists_getElem?_of_mem_numbered member
  obtain ⟨rfl, _⟩ := Line.of_trimmed? kept
  exact ⟨text, List.mem_of_getElem? found, kept⟩

end Purr
