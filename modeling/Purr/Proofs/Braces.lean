import Purr.Block
import Purr.Proofs.Positions

/-!
# Braces

Two ways to count the braces of lines. Collecting a block starts at depth one and stops at the brace
that closes it; lines are `Balanced` if that never happens and the depth is one again at their end.
`openAfter` counts without stopping and passes over a closing brace that nothing opens; lines are
`Closed` if it ends at zero, so that every opening brace has its closing one. Only the second is
kept by what is left of lines when something has been read from them.
-/

namespace Purr.Block

set_option autoImplicit false

inductive Mark where
  | quote
  | opening
  | closing
  | plain

def mark (inLiteral : Bool) (c : Char) : Mark :=
  if c = '"' then .quote
  else if inLiteral then .plain
  else if c = '\x7b' then .opening
  else if c = '\x7d' then .closing
  else .plain

def literalAfter (inLiteral : Bool) : Text → Bool
  | [] => inLiteral
  | c :: rest => literalAfter (if c = '"' then !inLiteral else inLiteral) rest

/-- The number of braces that are open after a text, from a place and a number on. A closing brace
that nothing opens is passed over. -/
def openFrom (inLiteral : Bool) (depth : Nat) : Text → Nat
  | [] => depth
  | c :: rest =>
      match mark inLiteral c with
      | .quote => openFrom (!inLiteral) depth rest
      | .opening => openFrom inLiteral (depth + 1) rest
      | .closing => openFrom inLiteral (depth - 1) rest
      | .plain => openFrom inLiteral depth rest

def openAfter (depth : Nat) : List Line → Nat
  | [] => depth
  | line :: rest => openAfter (openFrom false depth line.text) rest

def Closed (lines : List Line) : Prop := openAfter 0 lines = 0

/-- Counts the braces of lines in order, up to a brace that closes the block. -/
def scanLines? (depth : Nat) : List Line → Option Scan
  | [] => some (.inside depth)
  | line :: rest =>
      match scan? depth line.text with
      | some (.inside depth) => scanLines? depth rest
      | stopped => stopped

/-- No brace of the lines closes a block that they begin inside of, and they end as deep in it as
they began. -/
def Balanced (lines : List Line) : Prop := scanLines? 1 lines = some (.inside 1)

theorem literalAfter_append (inLiteral : Bool) (a b : Text) :
    literalAfter inLiteral (a ++ b) = literalAfter (literalAfter inLiteral a) b := by
  induction a generalizing inLiteral with
  | nil => rfl
  | cons c rest ih => rw [List.cons_append, literalAfter, literalAfter, ih]

theorem literalAfter_of_not_mem (inLiteral : Bool) {text : Text} (plain : '"' ∉ text) :
    literalAfter inLiteral text = inLiteral := by
  induction text with
  | nil => rfl
  | cons c rest ih =>
      obtain ⟨first, others⟩ := not_or.1 (mt List.mem_cons.2 plain)
      rw [literalAfter, if_neg (Ne.symm first), ih others]

theorem literalAfter_char (inLiteral : Bool) {c : Char} (plain : c ≠ '"') :
    literalAfter inLiteral [c] = inLiteral :=
  literalAfter_of_not_mem inLiteral (by simpa using plain.symm)

theorem quote_not_mem_or_literal {word : Text} {token : Token}
    (spells : Lexer.Spells word token) :
    '"' ∉ word ∨
      ∃ content, token = .text content ∧ word = '"' :: content ++ ['"'] ∧ '"' ∉ content := by
  cases spells with
  | number number => exact .inl (number.not_mem rfl (by decide))
  | @text content closed => exact .inr ⟨content, rfl, rfl, closed⟩
  | keyword keyword =>
      left
      cases keyword <;> decide
  | @name first rest start parts =>
      left
      intro member
      rcases List.mem_cons.1 member with rfl | later
      · cases start
      · cases parts _ later
  | @mark token mark =>
      left
      cases token with
      | operator op => cases op <;> decide
      | comparison op => cases op <;> decide
      | number | text | name | keyword => cases mark
      | _ => decide

theorem literalAfter_word {word : Text} {token : Token} (spells : Lexer.Spells word token) :
    literalAfter false word = false := by
  rcases quote_not_mem_or_literal spells with plain | ⟨content, rfl, rfl, closed⟩
  · exact literalAfter_of_not_mem false plain
  · rw [literalAfter_append]
    simp only [literalAfter, if_true, Bool.not_false, literalAfter_of_not_mem true closed,
      Bool.not_true]

theorem literalAfter_skipped {gap : Text} (skipped : ∀ c ∈ gap, Lexer.isSkipped c = true) :
    literalAfter false gap = false := by
  apply literalAfter_of_not_mem
  intro member
  cases skipped _ member

/-- Between two tokens no literal is open. -/
theorem literalAfter_tiled {text : Text} {tokens : List Token} (tiled : Lexer.Tiled text tokens) :
    literalAfter false text = false := by
  induction tiled with
  | done => rfl
  | @skip c rest tokens skipped _ ih =>
      have gap : literalAfter false [c] = false := literalAfter_skipped (by simpa using skipped)
      rw [← List.singleton_append, literalAfter_append, gap, ih]
  | word spells _ ih => rw [literalAfter_append, literalAfter_word spells, ih]

theorem word_of_leftBrace {word : Text} (spells : Lexer.Spells word .leftBrace) :
    word = ['\x7b'] := by
  cases spells with
  | mark _ => rfl

theorem word_of_text {word content : Text} (spells : Lexer.Spells word (.text content)) :
    word = '"' :: content ++ ['"'] ∧ '"' ∉ content := by
  cases spells with
  | text closed => exact ⟨rfl, closed⟩
  | mark mark => cases mark

theorem exists_before_lexeme {text : Text} {lexemes : List Lexeme} {lexeme : Lexeme}
    (cut : Lexer.Cut 0 text lexemes) (member : lexeme ∈ lexemes) :
    ∃ before word after, text = before ++ word ++ after ∧ literalAfter false before = false ∧
      Lexer.Spells word lexeme.token ∧ lexeme.span.stop = (before ++ word).byteLength := by
  obtain ⟨earlier, later, rfl⟩ := List.append_of_mem member
  obtain ⟨before, rest, rfl, tiled, inner⟩ := cut.split
  obtain ⟨gap, word, after, rfl, gaps, spells, first, last, _⟩ := inner.first
  refine ⟨before ++ gap, word, after, by simp, ?_, spells, ?_⟩
  · rw [literalAfter_append, literalAfter_tiled tiled, literalAfter_skipped gaps]
  · rw [last, first, Text.byteLength_append, Text.byteLength_append, Nat.zero_add]

theorem exists_before_brace {text after : Text} {lexemes : List Lexeme} {brace : Span}
    (cut : Lexer.Cut 0 text lexemes) (member : ⟨.leftBrace, brace⟩ ∈ lexemes)
    (dropped : text.dropBytes? brace.stop = some after) :
    ∃ before, text = before ++ '\x7b' :: after ∧ literalAfter false before = false := by
  obtain ⟨before, word, tail, rfl, outside, spells, stop⟩ := exists_before_lexeme cut member
  obtain rfl := word_of_leftBrace spells
  rw [stop, Text.dropBytes?_append] at dropped
  obtain rfl := Option.some.inj dropped
  exact ⟨before, by simp, outside⟩

inductive Step where
  | on (inLiteral : Bool) (depth : Nat)
  | closes
  | fails

def step (inLiteral : Bool) (depth : Nat) (c : Char) : Step :=
  match mark inLiteral c, depth with
  | .quote, depth => .on (!inLiteral) depth
  | .opening, depth => .on inLiteral (depth + 1)
  | .closing, 0 => .fails
  | .closing, 1 => .closes
  | .closing, depth + 2 => .on inLiteral (depth + 1)
  | .plain, depth => .on inLiteral depth

theorem scanFrom_cons (inLiteral : Bool) (depth position : Nat) (c : Char) (rest : Text) :
    scanFrom inLiteral depth position (c :: rest) =
      match step inLiteral depth c with
      | .on inLiteral depth => scanFrom inLiteral depth (position + c.utf8Size) rest
      | .closes => some (.closed position)
      | .fails => none := by
  unfold step mark
  conv_lhs => unfold scanFrom
  split
  next => rfl
  next =>
    split
    next => rfl
    next =>
      split
      next => rfl
      next =>
        split
        next => rcases depth with _ | _ | depth <;> rfl
        next => rfl

theorem mark_eq_quote {inLiteral : Bool} {c : Char} (marked : mark inLiteral c = .quote) :
    c = '"' := by
  by_cases quote : c = '"'
  · exact quote
  · rw [mark, if_neg quote] at marked
    repeat' split at marked
    all_goals cases marked

theorem mark_eq_closing {inLiteral : Bool} {c : Char} (marked : mark inLiteral c = .closing) :
    c = '\x7d' ∧ inLiteral = false := by
  unfold mark at marked
  split at marked
  next => cases marked
  next =>
    split at marked
    next => cases marked
    next outside =>
      split at marked
      next => cases marked
      next =>
        split at marked
        next closing => exact ⟨closing, Bool.eq_false_iff.2 outside⟩
        next => cases marked

theorem literalAfter_single (inLiteral : Bool) (c : Char) :
    literalAfter inLiteral [c] =
      match mark inLiteral c with
      | .quote => !inLiteral
      | _ => inLiteral := by
  simp only [literalAfter]
  by_cases quote : c = '"'
  · subst quote
    rfl
  · rw [if_neg quote]
    split
    next marked => exact absurd (mark_eq_quote marked) quote
    next => rfl

/-- What one character changes: the place, and the number of open braces, which the two ways to
count change alike as long as the block goes on. -/
theorem step_on {inLiteral inside : Bool} {depth deeper : Nat} {c : Char}
    (goes : step inLiteral depth c = .on inside deeper) :
    literalAfter inLiteral [c] = inside ∧
      (0 < depth → 0 < deeper ∧
        ∀ more, openFrom inLiteral (depth - 1 + more) [c] = deeper - 1 + more) := by
  rw [literalAfter_single]
  simp only [openFrom]
  unfold step at goes
  cases marked : mark inLiteral c with
  | closing =>
      rw [marked] at goes
      rcases depth with _ | _ | depth <;> cases goes
      exact ⟨rfl, fun _ => ⟨by omega, fun more => by dsimp only; omega⟩⟩
  | quote | plain =>
      rw [marked] at goes
      cases goes
      exact ⟨rfl, fun positive => ⟨positive, fun _ => rfl⟩⟩
  | opening =>
      rw [marked] at goes
      cases goes
      exact ⟨rfl, fun _ => ⟨by omega, fun more => by dsimp only; omega⟩⟩

theorem step_closes {inLiteral : Bool} {depth : Nat} {c : Char}
    (closes : step inLiteral depth c = .closes) :
    c = '\x7d' ∧ inLiteral = false ∧ depth = 1 := by
  unfold step at closes
  cases marked : mark inLiteral c with
  | closing =>
      rw [marked] at closes
      rcases depth with _ | _ | depth
      · cases closes
      · exact ⟨(mark_eq_closing marked).1, (mark_eq_closing marked).2, rfl⟩
      · cases closes
  | quote | opening | plain =>
      rw [marked] at closes
      cases closes

theorem step_fails {inLiteral : Bool} {depth : Nat} {c : Char}
    (fails : step inLiteral depth c = .fails) : depth = 0 := by
  unfold step at fails
  cases marked : mark inLiteral c with
  | closing =>
      rw [marked] at fails
      rcases depth with _ | _ | depth
      · rfl
      · cases fails
      · cases fails
  | quote | opening | plain =>
      rw [marked] at fails
      cases fails

theorem literalAfter_of_step {inLiteral inside : Bool} {depth deeper : Nat} {c : Char} (rest : Text)
    (goes : step inLiteral depth c = .on inside deeper) :
    literalAfter inLiteral (c :: rest) = literalAfter inside rest := by
  rw [← List.singleton_append, literalAfter_append, (step_on goes).1]

theorem openFrom_append (inLiteral : Bool) (depth : Nat) (a b : Text) :
    openFrom inLiteral depth (a ++ b) =
      openFrom (literalAfter inLiteral a) (openFrom inLiteral depth a) b := by
  induction a generalizing inLiteral depth with
  | nil => rfl
  | cons c rest ih =>
      have single := literalAfter_single inLiteral c
      rw [← List.singleton_append, literalAfter_append, single, List.append_assoc,
        List.singleton_append, List.singleton_append, openFrom, openFrom]
      cases mark inLiteral c <;> exact ih _ _

theorem openFrom_mono (inLiteral : Bool) {fewer more : Nat} (le : fewer ≤ more) (text : Text) :
    openFrom inLiteral fewer text ≤ openFrom inLiteral more text := by
  induction text generalizing inLiteral fewer more with
  | nil => exact le
  | cons c rest ih =>
      rw [openFrom, openFrom]
      cases mark inLiteral c with
      | quote => exact ih _ le
      | opening => exact ih _ (Nat.succ_le_succ le)
      | closing => exact ih _ (Nat.sub_le_sub_right le 1)
      | plain => exact ih _ le

theorem openAfter_mono {fewer more : Nat} (le : fewer ≤ more) (lines : List Line) :
    openAfter fewer lines ≤ openAfter more lines := by
  induction lines generalizing fewer more with
  | nil => exact le
  | cons line rest ih => exact ih (openFrom_mono false le line.text)

theorem scanFrom_append (inLiteral : Bool) (depth position : Nat) (a b : Text) :
    scanFrom inLiteral depth position (a ++ b) =
      match scanFrom inLiteral depth position a with
      | some (.inside reached) =>
          scanFrom (literalAfter inLiteral a) reached (position + a.byteLength) b
      | stopped => stopped := by
  induction a generalizing inLiteral depth position with
  | nil => rfl
  | cons c rest ih =>
      rw [List.cons_append, scanFrom_cons, scanFrom_cons]
      cases goes : step inLiteral depth c with
      | on inLiteral' depth' =>
          rw [literalAfter_of_step rest goes, Text.byteLength_cons, ← Nat.add_assoc]
          exact ih _ _ _
      | closes => rfl
      | fails => rfl

theorem inside_of_inside_append {inLiteral : Bool} {depth position reached : Nat} {a b : Text}
    (inside : scanFrom inLiteral depth position (a ++ b) = some (.inside reached)) :
    ∃ between, scanFrom inLiteral depth position a = some (.inside between) ∧
      scanFrom (literalAfter inLiteral a) between (position + a.byteLength) b =
        some (.inside reached) := by
  rw [scanFrom_append] at inside
  split at inside
  next between first => exact ⟨between, first, inside⟩
  next stopped =>
    rw [inside] at stopped
    exact absurd rfl (stopped reached)

theorem scanFrom_inside_position {inLiteral : Bool} {depth position reached : Nat} {text : Text}
    (inside : scanFrom inLiteral depth position text = some (.inside reached)) (other : Nat) :
    scanFrom inLiteral depth other text = some (.inside reached) := by
  induction text generalizing inLiteral depth position other with
  | nil => exact inside
  | cons c rest ih =>
      rw [scanFrom_cons] at inside ⊢
      cases goes : step inLiteral depth c with
      | on inLiteral' depth' =>
          rw [goes] at inside
          exact ih inside _
      | closes =>
          rw [goes] at inside
          cases inside
      | fails =>
          rw [goes] at inside
          cases inside

theorem scanFrom_ne_none (inLiteral : Bool) {depth : Nat} (positive : 0 < depth) (position : Nat)
    (text : Text) : scanFrom inLiteral depth position text ≠ none := by
  induction text generalizing inLiteral depth position with
  | nil => exact Option.some_ne_none _
  | cons c rest ih =>
      rw [scanFrom_cons]
      cases goes : step inLiteral depth c with
      | on inLiteral' depth' => exact ih inLiteral' ((step_on goes).2 positive).1 _
      | closes => exact Option.some_ne_none _
      | fails => exact absurd (step_fails goes) (by omega)

/-- As long as a block goes on, both ways to count find the same number of braces. -/
theorem openFrom_of_inside {inLiteral : Bool} {depth position reached : Nat} {text : Text}
    (positive : 0 < depth)
    (inside : scanFrom inLiteral depth position text = some (.inside reached)) :
    0 < reached ∧ ∀ more, openFrom inLiteral (depth - 1 + more) text = reached - 1 + more := by
  induction text generalizing inLiteral depth position with
  | nil =>
      cases inside
      exact ⟨positive, fun _ => rfl⟩
  | cons c rest ih =>
      rw [scanFrom_cons] at inside
      cases goes : step inLiteral depth c with
      | on inLiteral' depth' =>
          rw [goes] at inside
          obtain ⟨place, counts⟩ := step_on goes
          obtain ⟨deeper, single⟩ := counts positive
          obtain ⟨still, others⟩ := ih deeper inside
          refine ⟨still, ?_⟩
          intro more
          rw [← List.singleton_append, openFrom_append, place, single, others]
      | closes =>
          rw [goes] at inside
          cases inside
      | fails =>
          rw [goes] at inside
          cases inside

/-- The brace that closes a block stands outside of every literal, at the depth one. -/
theorem exists_of_closed {inLiteral : Bool} {depth position found : Nat} {text : Text}
    (closed : scanFrom inLiteral depth position text = some (.closed found)) :
    ∃ head tail, text = head ++ '\x7d' :: tail ∧ found = position + Text.byteLength head ∧
      scanFrom inLiteral depth position head = some (.inside 1) ∧
      literalAfter inLiteral head = false := by
  induction text generalizing inLiteral depth position with
  | nil => cases closed
  | cons c rest ih =>
      rw [scanFrom_cons] at closed
      cases goes : step inLiteral depth c with
      | on inLiteral' depth' =>
          rw [goes] at closed
          obtain ⟨head, tail, rfl, rfl, before, outside⟩ := ih closed
          refine ⟨c :: head, tail, rfl, by rw [Text.byteLength_cons, Nat.add_assoc], ?_, ?_⟩
          · rw [scanFrom_cons, goes]
            exact before
          · rw [literalAfter_of_step head goes, outside]
      | closes =>
          rw [goes] at closed
          cases closed
          obtain ⟨rfl, rfl, rfl⟩ := step_closes goes
          exact ⟨[], rest, rfl, rfl, rfl, rfl⟩
      | fails =>
          rw [goes] at closed
          cases closed

theorem mark_of_blank {c : Char} (inLiteral : Bool) (blank : isBlank c = true) :
    mark inLiteral c = .plain := by
  have other : c ≠ '"' ∧ c ≠ '\x7b' ∧ c ≠ '\x7d' := by
    refine ⟨?_, ?_, ?_⟩ <;> rintro rfl <;> cases blank
  rw [mark, if_neg other.1, if_neg other.2.1, if_neg other.2.2]
  cases inLiteral <;> rfl

theorem step_of_blank {c : Char} (inLiteral : Bool) (depth : Nat) (blank : isBlank c = true) :
    step inLiteral depth c = .on inLiteral depth := by
  unfold step
  rw [mark_of_blank inLiteral blank]

theorem scanFrom_blank {text : Text} (inLiteral : Bool) (depth position : Nat)
    (blank : ∀ c ∈ text, isBlank c = true) :
    scanFrom inLiteral depth position text = some (.inside depth) := by
  induction text generalizing position with
  | nil => rfl
  | cons c rest ih =>
      obtain ⟨first, others⟩ := List.forall_mem_cons.1 blank
      rw [scanFrom_cons, step_of_blank inLiteral depth first]
      exact ih _ others

theorem literalAfter_blank {text : Text} (inLiteral : Bool)
    (blank : ∀ c ∈ text, isBlank c = true) : literalAfter inLiteral text = inLiteral := by
  apply literalAfter_of_not_mem
  intro member
  cases blank _ member

theorem openFrom_blank {text : Text} (inLiteral : Bool) (depth : Nat)
    (blank : ∀ c ∈ text, isBlank c = true) : openFrom inLiteral depth text = depth := by
  induction text with
  | nil => rfl
  | cons c rest ih =>
      obtain ⟨first, others⟩ := List.forall_mem_cons.1 blank
      rw [openFrom, mark_of_blank inLiteral first]
      exact ih others

theorem exists_trim (text : Text) :
    ∃ before after, text = before ++ text.trim ++ after ∧ (∀ c ∈ before, isBlank c = true) ∧
      ∀ c ∈ after, isBlank c = true := by
  have start (t : Text) : t = t.takeWhile isBlank ++ t.trimStart :=
    List.takeWhile_append_dropWhile.symm
  refine ⟨text.takeWhile isBlank, (text.trimStart.reverse.takeWhile isBlank).reverse, ?_,
    List.all_eq_true.1 List.all_takeWhile, ?_⟩
  · have final := congrArg List.reverse (start text.trimStart.reverse)
    rw [List.reverse_reverse, List.reverse_append] at final
    rw [List.append_assoc]
    exact (start text).trans (congrArg _ final)
  · intro c member
    exact List.all_eq_true.1 List.all_takeWhile c (List.mem_reverse.1 member)

theorem openFrom_trim (depth : Nat) (text : Text) :
    openFrom false depth text.trim = openFrom false depth text := by
  obtain ⟨before, after, same, first, last⟩ := exists_trim text
  have whole := congrArg (openFrom false depth) same
  rw [openFrom_append, openFrom_append, openFrom_blank _ _ last, openFrom_blank _ _ first,
    literalAfter_blank _ first] at whole
  exact whole.symm

theorem scan?_trim {depth reached : Nat} {text : Text}
    (inside : scan? depth text = some (.inside reached)) :
    scan? depth text.trim = some (.inside reached) := by
  obtain ⟨before, after, same, first, last⟩ := exists_trim text
  rw [scan?, same, List.append_assoc] at inside
  obtain ⟨start, blank, rest⟩ := inside_of_inside_append inside
  obtain ⟨between, middle, final⟩ := inside_of_inside_append rest
  rw [scanFrom_blank _ _ _ first] at blank
  rw [literalAfter_blank _ first] at middle
  rw [scanFrom_blank _ _ _ last] at final
  cases blank
  cases final
  exact scanFrom_inside_position middle 0

theorem openAfter_push? (depth number : Nat) (text : Text) (lines : List Line) :
    openAfter depth (Cursor.push? (Line.trimmed? number text) lines) =
      openAfter (openFrom false depth text) lines := by
  rw [← openFrom_trim]
  unfold Line.trimmed?
  split
  next empty =>
    rw [List.isEmpty_iff.1 empty]
    rfl
  next => rfl

theorem scanLines?_trimmed? {depth reached : Nat} {text : Text} (number : Nat)
    (inside : scan? depth text = some (.inside reached)) :
    scanLines? depth (Line.trimmed? number text).toList = some (.inside reached) := by
  have trimmed := scan?_trim inside
  unfold Line.trimmed?
  split
  next empty =>
    rw [List.isEmpty_iff.1 empty] at trimmed
    exact trimmed
  next =>
    simp only [Option.toList_some, scanLines?, Line.trimmed, trimmed]

theorem openFrom_brace {before : Text} (depth : Nat) (after : Text)
    (outside : literalAfter false before = false) :
    openFrom false depth (before ++ '\x7b' :: after) =
      openFrom false (openFrom false depth before + 1) after := by
  rw [openFrom_append, outside]
  rfl

theorem openFrom_closing {before : Text} (depth : Nat) (after : Text)
    (outside : literalAfter false before = false) :
    openFrom false depth (before ++ '\x7d' :: after) =
      openFrom false (openFrom false depth before - 1) after := by
  rw [openFrom_append, outside]
  rfl

theorem parts_of_closed {depth position : Nat} {text : Text}
    (closed : scan? depth text = some (.closed position)) :
    ∃ head tail, text = head ++ '\x7d' :: tail ∧ scan? depth head = some (.inside 1) ∧
      literalAfter false head = false ∧ text.cutAt? position = some (head, '\x7d' :: tail) ∧
        text.dropBytes? (position + 1) = some tail := by
  obtain ⟨head, tail, rfl, width, before, outside⟩ := exists_of_closed closed
  rw [Nat.zero_add] at width
  refine ⟨head, tail, rfl, before, outside, ?_, ?_⟩
  · rw [width, Text.cutAt?_byteLength_append]
  · have behind := Text.dropBytes?_append (head ++ ['\x7d']) tail
    rw [Text.byteLength_append, ← width, List.append_assoc] at behind
    exact behind

/-- What collecting from a positive depth on gives. The body ends as deep as the block is, and the
cursor after it has as many open braces as the lines had beyond the block; if no brace closes the
block, braces of the lines are open at their end. -/
theorem collectFrom_cases (construct : Construct) (opened : Nat) {depth : Nat}
    (positive : 0 < depth) (lines : List Line) :
    (∃ body rest, collectFrom construct opened depth lines = .ok (body, rest) ∧
      scanLines? depth body = some (.inside 1) ∧ openAfter 0 rest = openAfter depth lines) ∨
    collectFrom construct opened depth lines =
        .error (.fatal (.unterminatedBlock construct opened)) ∧
      openAfter depth lines ≠ 0 := by
  induction lines generalizing depth with
  | nil => exact .inr ⟨rfl, by simp only [openAfter]; omega⟩
  | cons line rest ih =>
      rw [collectFrom, openAfter]
      cases scanned : scan? depth line.text with
      | none => exact absurd scanned (scanFrom_ne_none false positive 0 line.text)
      | some found =>
          cases found with
          | inside reached =>
              obtain ⟨still, counts⟩ := openFrom_of_inside positive scanned
              have count := counts 1
              rw [show depth - 1 + 1 = depth by omega, show reached - 1 + 1 = reached by omega]
                at count
              rw [count]
              rcases ih still with ⟨body, after, collected, inner, left⟩ | ⟨failed, left⟩
              · refine .inl ⟨line :: body, after, by simp only [collected]; rfl, ?_, left⟩
                simp only [scanLines?, scanned, inner]
              · exact .inr ⟨by simp only [failed]; rfl, left⟩
          | closed position =>
              obtain ⟨head, tail, same, before, outside, cut, dropped⟩ := parts_of_closed scanned
              obtain ⟨_, counts⟩ := openFrom_of_inside positive before
              have count := counts 1
              rw [show depth - 1 + 1 = depth by omega] at count
              refine .inl ⟨(Line.trimmed? line.number head).toList,
                Cursor.push? (Line.trimmed? line.number tail) rest, by simp only [cut, dropped],
                ?_, ?_⟩
              · exact scanLines?_trimmed? line.number before
              · rw [openAfter_push?, same, openFrom_closing depth tail outside, count]

end Purr.Block
