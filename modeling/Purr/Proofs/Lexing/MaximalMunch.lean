import Purr.Proofs.Lexing.TokenRules

/-!
# Maximal munch

A text is cut from left to right: a skipped character is passed over, and anywhere else the longest
word that a rule allows is the next lexeme. `Cut` says what the lexemes of a text are and `Stuck`
where a text has none; neither counts characters ahead. `lexemes_maximal_munch` says that `lexemes`
finds the one or the other.
-/

namespace Purr

set_option autoImplicit false

namespace Lexer

/-- The longest beginning of a text that is a word of a rule, and the rest of the text. -/
structure Longest (text word rest : Text) : Prop where
  split : text = word ++ rest
  spelled : ∃ token, Spells word token
  longest : ∀ longer more token, text = longer ++ more → Spells longer token →
    longer.length ≤ word.length

inductive Cut : Nat → Text → List Lexeme → Prop
  | done {start : Nat} : Cut start [] []
  | skip {start : Nat} {c : Char} {rest : Text} {lexemes : List Lexeme} : isSkipped c = true →
      Cut (start + c.utf8Size) rest lexemes → Cut start (c :: rest) lexemes
  | lexeme {start : Nat} {text word rest : Text} {token : Token} {span : Span}
      {lexemes : List Lexeme} : Longest text word rest → Chosen word token → span.start = start →
      span.stop = start + word.byteLength → Cut span.stop rest lexemes →
      Cut start text (⟨token, span⟩ :: lexemes)

/-- The part of a text at which the lexemes end because no rule allows a word: the rest of the text
from a quote on, and otherwise one character. -/
inductive Stuck : Text → Text → Prop
  | quote {rest : Text} : (∀ word more token, '"' :: rest = word ++ more → ¬ Spells word token) →
      Stuck ('"' :: rest) ('"' :: rest)
  | character {c : Char} {rest : Text} : c ≠ '"' → isSkipped c = false →
      (∀ word more token, c :: rest = word ++ more → ¬ Spells word token) → Stuck (c :: rest) [c]
  | skip {c : Char} {rest part : Text} : isSkipped c = true → Stuck rest part →
      Stuck (c :: rest) part
  | lexeme {text word rest part : Text} : Longest text word rest → Stuck rest part →
      Stuck text part

theorem Spells.not_skipped {c : Char} {rest : Text} {token : Token}
    (spells : Spells (c :: rest) token) : isSkipped c = false := by
  rw [Bool.eq_false_iff]
  intro skipped
  have five : c = ' ' ∨ c = '\t' ∨ c = '\r' ∨ c = '\n' ∨ c = '\x0c' := by
    simpa [isSkipped, or_assoc] using skipped
  have zero : lexemeLength (c :: rest) = 0 := by
    have digit : isDigit c = false := by rcases five with rfl | rfl | rfl | rfl | rfl <;> rfl
    have start : isWordStart c = false := by rcases five with rfl | rfl | rfl | rfl | rfl <;> rfl
    have point : c ≠ '.' := by rcases five with rfl | rfl | rfl | rfl | rfl <;> decide
    have quote : c ≠ '"' := by rcases five with rfl | rfl | rfl | rfl | rfl <;> decide
    rw [lexemeLength_mark rest digit point quote start]
    by_cases none : markLength (c :: rest) = 0
    · exact none
    · obtain ⟨token, after, mark, same, _⟩ := exists_mark none
      obtain ⟨first, more, shown, _⟩ := mark_shown_cons mark
      have found := mark?_shown mark
      rw [shown] at found same
      obtain rfl : c = first := (List.cons.inj same).1
      unfold mark? at found
      rcases five with rfl | rfl | rfl | rfl | rfl <;> simp at found
  have long := length_le_lexemeLength spells []
  rw [List.append_nil, zero] at long
  exact absurd long (by simp)

theorem Longest.unique {text word rest word' rest' : Text} (one : Longest text word rest)
    (other : Longest text word' rest') : word = word' ∧ rest = rest' := by
  obtain ⟨token, spelled⟩ := one.spelled
  obtain ⟨token', spelled'⟩ := other.spelled
  have upper := one.longest word' rest' token' other.split spelled'
  have lower := other.longest word rest token one.split spelled
  exact List.append_inj (one.split.symm.trans other.split) (by omega)

theorem Longest.cons {text word rest : Text} (longest : Longest text word rest) :
    ∃ c more, word = c :: more ∧ text = c :: (more ++ rest) ∧ isSkipped c = false := by
  obtain ⟨token, spelled⟩ := longest.spelled
  cases word with
  | nil => exact absurd spelled.length_pos (Nat.lt_irrefl 0)
  | cons c more => exact ⟨c, more, rfl, longest.split, spelled.not_skipped⟩

theorem Longest.byteLength_pos {text word rest : Text} (longest : Longest text word rest) :
    0 < word.byteLength := by
  obtain ⟨c, more, rfl, _⟩ := longest.cons
  have := c.utf8Size_pos
  rw [Text.byteLength_cons]
  omega

theorem Longest.length_lt {text word rest : Text} (longest : Longest text word rest) :
    rest.length < text.length := by
  obtain ⟨c, more, _, rfl, _⟩ := longest.cons
  rw [List.length_cons, List.length_append]
  omega

theorem longest_or_none (text : Text) :
    (∃ word rest, Longest text word rest ∧ word.length = lexemeLength text) ∨
      lexemeLength text = 0 ∧ ∀ word more token, text = word ++ more → ¬ Spells word token := by
  by_cases zero : lexemeLength text = 0
  · refine .inr ⟨zero, ?_⟩
    rintro word more token rfl spells
    have long := length_le_lexemeLength spells more
    have positive := spells.length_pos
    omega
  · obtain ⟨word, token, rest, same, spells, length⟩ := exists_lexeme zero
    refine .inl ⟨word, rest, ⟨same, ⟨token, spells⟩, ?_⟩, length⟩
    rintro longer more other rfl spelled
    rw [length]
    exact length_le_lexemeLength spelled more

theorem lexemesFrom_passed (start : Nat) (word rest : Text) :
    lexemesFrom start word.length (word ++ rest) =
      lexemesFrom (start + word.byteLength) 0 rest := by
  induction word generalizing start with
  | nil => rfl
  | cons c more ih =>
      rw [List.length_cons, List.cons_append, lexemesFrom, ih, Text.byteLength_cons, Nat.add_assoc]

theorem lexemesFrom_skip {c : Char} (start : Nat) (rest : Text) (skipped : isSkipped c = true) :
    lexemesFrom start 0 (c :: rest) = lexemesFrom (start + c.utf8Size) 0 rest := by
  rw [lexemesFrom, if_pos skipped]

theorem lexemesFrom_longest {text word rest : Text} {token : Token} (span : Span)
    (longest : Longest text word rest) (length : word.length = lexemeLength text)
    (chosen : Chosen word token) (stop : span.stop = span.start + word.byteLength) :
    lexemesFrom span.start 0 text =
      (lexemesFrom span.stop 0 rest).map fun lexemes => ⟨token, span⟩ :: lexemes := by
  obtain ⟨c, more, rfl, rfl, other⟩ := longest.cons
  have read := lexemesFrom_passed (span.start + c.utf8Size) more rest
  have width : span.start + c.utf8Size + Text.byteLength more = span.stop := by
    rw [stop, Text.byteLength_cons, Nat.add_assoc]
  rw [width] at read
  obtain ⟨start, stopped, nonempty⟩ := span
  dsimp only at stop read ⊢
  subst stop
  rw [lexemesFrom, if_neg (by simp [other]), ← length]
  simp only [List.length_cons, List.take_left, tokenOf_of_chosen chosen, read]
  cases lexemesFrom (start + Text.byteLength (c :: more)) 0 rest <;> rfl

theorem lexemesFrom_none {c : Char} (start : Nat) (rest : Text) (other : isSkipped c = false)
    (zero : lexemeLength (c :: rest) = 0) :
    lexemesFrom start 0 (c :: rest) = .error (.malformed (.invalid (invalidPart c rest))) := by
  rw [lexemesFrom, if_neg (by simp [other]), zero]

/-- The reader either cuts the whole text or stops where no rule goes on. -/
theorem lexemesFrom_cut_or_stuck (start : Nat) (text : Text) :
    (∃ found, lexemesFrom start 0 text = .ok found ∧ Cut start text found) ∨
      ∃ part, lexemesFrom start 0 text = .error (.malformed (.invalid part)) ∧ Stuck text part := by
  generalize size : text.length = count
  induction count using Nat.strongRecOn generalizing start text with
  | ind count ih =>
      cases text with
      | nil => exact .inl ⟨[], rfl, .done⟩
      | cons c rest =>
          by_cases skipped : isSkipped c = true
          · rw [lexemesFrom_skip start rest skipped]
            have shorter : rest.length < count := by
              rw [← size, List.length_cons]
              omega
            rcases ih _ shorter (start + c.utf8Size) rest rfl with
              ⟨found, read, cut⟩ | ⟨part, read, stuck⟩
            · exact .inl ⟨found, read, .skip skipped cut⟩
            · exact .inr ⟨part, read, .skip skipped stuck⟩
          have other : isSkipped c = false := Bool.eq_false_iff.2 skipped
          rcases longest_or_none (c :: rest) with ⟨word, after, longest, length⟩ | ⟨zero, none⟩
          · obtain ⟨token, spelled⟩ := longest.spelled
            obtain ⟨chosen, choice⟩ := exists_chosen spelled
            have width := Nat.lt_add_of_pos_right (n := start) longest.byteLength_pos
            have read := lexemesFrom_longest ⟨start, _, width⟩ longest length choice rfl
            have shorter : after.length < count := size ▸ longest.length_lt
            rcases ih _ shorter (start + word.byteLength) after rfl with
              ⟨found, inner, cut⟩ | ⟨part, inner, stuck⟩
            · rw [inner] at read
              exact .inl ⟨_, read, .lexeme longest choice rfl rfl cut⟩
            · rw [inner] at read
              exact .inr ⟨part, read, .lexeme longest stuck⟩
          · refine .inr ⟨_, lexemesFrom_none start rest other zero, ?_⟩
            unfold invalidPart
            split
            next quote => exact quote ▸ .quote (quote ▸ none)
            next quote => exact .character quote other none

theorem Longest.length_eq {text word rest : Text} (longest : Longest text word rest) :
    word.length = lexemeLength text := by
  rcases longest_or_none text with ⟨word', rest', other, length⟩ | ⟨_, none⟩
  · rw [(longest.unique other).1, length]
  · obtain ⟨token, spelled⟩ := longest.spelled
    exact absurd spelled (none word rest token longest.split)

theorem lexemeLength_eq_zero {text : Text}
    (none : ∀ word more token, text = word ++ more → ¬ Spells word token) :
    lexemeLength text = 0 := by
  rcases longest_or_none text with ⟨word, rest, longest, _⟩ | ⟨zero, _⟩
  · obtain ⟨token, spelled⟩ := longest.spelled
    exact absurd spelled (none word rest token longest.split)
  · exact zero

theorem Cut.lexemesFrom_eq {start : Nat} {text : Text} {found : List Lexeme}
    (cut : Cut start text found) : lexemesFrom start 0 text = .ok found := by
  induction cut with
  | done => rfl
  | skip skipped _ ih => rw [lexemesFrom_skip _ _ skipped, ih]
  | lexeme longest chosen start stop _ ih =>
      subst start
      rw [lexemesFrom_longest _ longest longest.length_eq chosen stop, ih]
      rfl

theorem Stuck.lexemesFrom_eq {text part : Text} (stuck : Stuck text part) (start : Nat) :
    lexemesFrom start 0 text = .error (.malformed (.invalid part)) := by
  induction stuck generalizing start with
  | quote none => exact lexemesFrom_none start _ rfl (lexemeLength_eq_zero none)
  | character quote other none =>
      rw [lexemesFrom_none start _ other (lexemeLength_eq_zero none), invalidPart, if_neg quote]
  | skip skipped _ ih => rw [lexemesFrom_skip start _ skipped, ih]
  | lexeme longest _ ih =>
      obtain ⟨token, spelled⟩ := longest.spelled
      obtain ⟨chosen, choice⟩ := exists_chosen spelled
      have width := Nat.lt_add_of_pos_right (n := start) longest.byteLength_pos
      rw [lexemesFrom_longest ⟨start, _, width⟩ longest longest.length_eq choice rfl, ih]
      rfl

/-- The reader finds the lexemes of every text that can be cut. -/
theorem lexemesFrom_eq_ok_iff {start : Nat} {text : Text} {found : List Lexeme} :
    lexemesFrom start 0 text = .ok found ↔ Cut start text found := by
  constructor
  · intro read
    rcases lexemesFrom_cut_or_stuck start text with ⟨other, found, cut⟩ | ⟨part, refused, _⟩
    · obtain rfl := Except.ok.inj (found.symm.trans read)
      exact cut
    · exact absurd (refused.symm.trans read) (by simp)
  · exact Cut.lexemesFrom_eq

theorem lexemes_eq_ok_iff {text : Text} {found : List Lexeme} :
    lexemes text = .ok found ↔ Cut 0 text found :=
  lexemesFrom_eq_ok_iff

theorem lexemes_eq_error_iff {text : Text} {refusal : Refusal} :
    lexemes text = .error refusal ↔
      ∃ part, refusal = .malformed (.invalid part) ∧ Stuck text part := by
  constructor
  · intro read
    rcases lexemesFrom_cut_or_stuck 0 text with ⟨other, found, _⟩ | ⟨part, refused, stuck⟩
    · exact absurd (found.symm.trans read) (by simp)
    · exact ⟨part, Except.error.inj (read.symm.trans refused), stuck⟩
  · rintro ⟨part, rfl, stuck⟩
    exact stuck.lexemesFrom_eq 0

/-- A text made of skipped characters and of words that spell tokens. -/
inductive Tiled : Text → List Token → Prop
  | done : Tiled [] []
  | skip {c : Char} {rest : Text} {tokens : List Token} : isSkipped c = true →
      Tiled rest tokens → Tiled (c :: rest) tokens
  | word {word rest : Text} {token : Token} {tokens : List Token} : Spells word token →
      Tiled rest tokens → Tiled (word ++ rest) (token :: tokens)

theorem Cut.first {start : Nat} {text : Text} {lexeme : Lexeme} {later : List Lexeme}
    (cut : Cut start text (lexeme :: later)) :
    ∃ gap word after, text = gap ++ word ++ after ∧ (∀ c ∈ gap, isSkipped c = true) ∧
      Spells word lexeme.token ∧ lexeme.span.start = start + gap.byteLength ∧
      lexeme.span.stop = lexeme.span.start + word.byteLength ∧
      Cut lexeme.span.stop after later := by
  generalize whole : lexeme :: later = lexemes at cut
  induction cut with
  | done => cases whole
  | @skip start c rest _ skipped _ ih =>
      obtain ⟨gap, word, after, rfl, gaps, spells, first, stop, cut⟩ := ih whole
      refine ⟨c :: gap, word, after, rfl, ?_, spells, ?_, stop, cut⟩
      · exact List.forall_mem_cons.2 ⟨skipped, gaps⟩
      · rw [first, Text.byteLength_cons, Nat.add_assoc]
  | @lexeme start text word rest token span lexemes longest chosen first stop cut _ =>
      obtain ⟨rfl, rfl⟩ := List.cons.inj whole
      exact ⟨[], word, rest, longest.split, by simp, chosen.1, first, by rw [stop, first], cut⟩

theorem Tiled.skip_all {gap rest : Text} {tokens : List Token}
    (gaps : ∀ c ∈ gap, isSkipped c = true) (tiled : Tiled rest tokens) :
    Tiled (gap ++ rest) tokens := by
  induction gap with
  | nil => exact tiled
  | cons c more ih =>
      obtain ⟨skipped, others⟩ := List.forall_mem_cons.1 gaps
      exact .skip skipped (ih others)

theorem Cut.split {start : Nat} {text : Text} {earlier later : List Lexeme}
    (cut : Cut start text (earlier ++ later)) :
    ∃ before after, text = before ++ after ∧ Tiled before (earlier.map Lexeme.token) ∧
      Cut (start + before.byteLength) after later := by
  induction earlier generalizing start text with
  | nil => exact ⟨[], text, rfl, .done, cut⟩
  | cons lexeme more ih =>
      obtain ⟨gap, word, rest, rfl, gaps, spells, first, stop, cut⟩ := cut.first
      obtain ⟨before, after, rfl, tiled, inner⟩ := ih cut
      refine ⟨gap ++ (word ++ before), after, by simp, ?_, ?_⟩
      · exact .skip_all gaps (.word spells tiled)
      · rw [stop, first] at inner
        simpa only [Text.byteLength_append, Nat.add_assoc] using inner

theorem Cut.start_le {start : Nat} {text : Text} {lexemes : List Lexeme}
    (cut : Cut start text lexemes) : ∀ lexeme ∈ lexemes, start ≤ lexeme.span.start := by
  intro lexeme member
  obtain ⟨earlier, later, rfl⟩ := List.append_of_mem member
  obtain ⟨before, after, _, _, inner⟩ := cut.split
  obtain ⟨gap, word, rest, _, _, _, first, _⟩ := inner.first
  omega

/-- Where the lexemes of a text stand: each at a part of the text that spells it, one after another,
and with nothing but skipped characters outside of them. -/
structure LaidOut (text : Text) (lexemes : List Lexeme) : Prop where
  words : ∀ lexeme ∈ lexemes, ∃ before word after, text = before ++ word ++ after ∧
    lexeme.span.start = before.byteLength ∧ lexeme.span.stop = (before ++ word).byteLength ∧
    lexeme.span.start < lexeme.span.stop ∧ Spells word lexeme.token
  ordered : lexemes.Pairwise fun earlier later => earlier.span.stop ≤ later.span.start
  gaps : ∀ (before : Text) (c : Char) (after : Text), text = before ++ c :: after →
    (∃ lexeme ∈ lexemes, lexeme.span.start ≤ before.byteLength ∧
      before.byteLength < lexeme.span.stop) ∨ isSkipped c = true

theorem Cut.ordered {start : Nat} {text : Text} {lexemes : List Lexeme}
    (cut : Cut start text lexemes) :
    lexemes.Pairwise fun earlier later => earlier.span.stop ≤ later.span.start := by
  induction lexemes generalizing start text with
  | nil => exact .nil
  | cons lexeme later ih =>
      obtain ⟨gap, word, after, _, _, _, _, _, inner⟩ := cut.first
      exact .cons inner.start_le (ih inner)

theorem Cut.gaps {start : Nat} {text : Text} {lexemes : List Lexeme}
    (cut : Cut start text lexemes) (before : Text) (c : Char) (after : Text)
    (same : text = before ++ c :: after) :
    (∃ lexeme ∈ lexemes, lexeme.span.start ≤ start + before.byteLength ∧
      start + before.byteLength < lexeme.span.stop) ∨ isSkipped c = true := by
  induction cut generalizing before with
  | done => cases before <;> cases same
  | @skip start first rest lexemes skipped _ ih =>
      cases before with
      | nil =>
          obtain ⟨rfl, _⟩ := List.cons.inj same
          exact .inr skipped
      | cons d others =>
          obtain ⟨rfl, rest⟩ := List.cons.inj same
          rcases ih others rest with ⟨lexeme, member, lower, upper⟩ | blank
          · rw [Text.byteLength_cons]
            exact .inl ⟨lexeme, member, by omega, by omega⟩
          · exact .inr blank
  | @lexeme start text word rest token span lexemes longest _ first stop _ ih =>
      rw [longest.split] at same
      rcases List.append_eq_append_iff.1 same with ⟨more, rfl, behind⟩ | ⟨more, rfl, behind⟩
      · rcases ih more behind with ⟨lexeme, member, lower, upper⟩ | blank
        · rw [Text.byteLength_append]
          exact .inl ⟨lexeme, List.mem_cons_of_mem _ member, by omega, by omega⟩
        · exact .inr blank
      · cases more with
        | nil =>
            rw [List.nil_append] at behind
            rcases ih [] behind.symm with ⟨lexeme, member, lower, upper⟩ | blank
            · rw [List.append_nil, Text.byteLength_nil] at *
              exact .inl ⟨lexeme, List.mem_cons_of_mem _ member, by omega, by omega⟩
            · exact .inr blank
        | cons d others =>
            obtain ⟨rfl, _⟩ := List.cons.inj behind
            have width := c.utf8Size_pos
            rw [Text.byteLength_append, Text.byteLength_cons] at stop
            exact .inl ⟨_, List.mem_cons_self, by dsimp only; omega, by dsimp only; omega⟩

theorem Cut.laidOut {text : Text} {lexemes : List Lexeme} (cut : Cut 0 text lexemes) :
    LaidOut text lexemes := by
  refine ⟨?_, cut.ordered, ?_⟩
  · intro lexeme member
    obtain ⟨earlier, later, rfl⟩ := List.append_of_mem member
    obtain ⟨before, rest, rfl, _, inner⟩ := cut.split
    obtain ⟨gap, word, after, rfl, _, spells, first, stop, _⟩ := inner.first
    refine ⟨before ++ gap, word, after, by simp, ?_, ?_, lexeme.span.nonempty, spells⟩
    · rw [first, Text.byteLength_append, Nat.zero_add]
    · rw [stop, first, Text.byteLength_append, Text.byteLength_append, Nat.zero_add]
  · intro before c after same
    simpa using cut.gaps before c after same

/-- A text is read as its longest lexemes exactly when it can be cut into them, and then they stand
one after another with only skipped characters between them. Otherwise the reader names the part of
the text at which no rule goes on. -/
theorem lexemes_maximal_munch (text : Text) :
    (∀ found, lexemes text = .ok found ↔ Cut 0 text found) ∧
      (∀ found, lexemes text = .ok found → LaidOut text found) ∧
      ∀ refusal, lexemes text = .error refusal ↔
        ∃ part, refusal = .malformed (.invalid part) ∧ Stuck text part := by
  refine ⟨fun found => lexemes_eq_ok_iff, ?_, fun refusal => lexemes_eq_error_iff⟩
  intro found read
  exact (lexemes_eq_ok_iff.1 read).laidOut

theorem lexemes_of_word_and_open_literal :
    (∃ found, found.map Lexeme.token = [.name "iffy".toList, .comparison .lessEqual, .text ['é']] ∧
      lexemes "iffy<=\"é\"".toList = .ok found ∧ LaidOut "iffy<=\"é\"".toList found) ∧
    Stuck "x \"é".toList "\"é".toList := by
  obtain ⟨_, laidOut, _⟩ := lexemes_maximal_munch "iffy<=\"é\"".toList
  obtain ⟨_, _, stuck⟩ := lexemes_maximal_munch "x \"é".toList
  obtain ⟨part, same, found⟩ := (stuck (.malformed (.invalid "\"é".toList))).1 rfl
  cases same
  exact ⟨⟨_, rfl, rfl, laidOut _ rfl⟩, found⟩

end Lexer

end Purr
