import Purr.Proofs.Comments
import Purr.Script

/-!
# Stripping a whole script

Lines are stripped one by one, and only an open comment is carried from one to the next. `sweep`
goes over the whole script at once and ends a literal and a line comment where their line ends; both
leave the same lines of code. What is left has no comments, so it can be stripped again, and run,
with the same result.
-/

namespace Purr

set_option autoImplicit false

namespace Comment

/-- Where a character of a script stands. -/
inductive Region where
  | code
  | literal
  | lineComment
  | blockComment
deriving DecidableEq

def Region.nextLine : Region → Region
  | .blockComment => .blockComment
  | .code | .literal | .lineComment => .code

/-- The characters of code and literals, cut at the line ends, in one pass over a text. A line feed
is a line end, with a carriage return just before it if there is one. -/
def sweep : Region → Text → List Text
  | _, [] => [[]]
  | region, '\n' :: rest => [] :: sweep region.nextLine rest
  | region, '\r' :: '\n' :: rest => [] :: sweep region.nextLine rest
  | .code, '"' :: rest => (sweep .literal rest).modifyHead ('"' :: ·)
  | .code, '/' :: '/' :: rest => sweep .lineComment rest
  | .code, '/' :: '*' :: rest => sweep .blockComment rest
  | .code, c :: rest => (sweep .code rest).modifyHead (c :: ·)
  | .literal, '"' :: rest => (sweep .code rest).modifyHead ('"' :: ·)
  | .literal, c :: rest => (sweep .literal rest).modifyHead (c :: ·)
  | .lineComment, _ :: rest => sweep .lineComment rest
  | .blockComment, '*' :: '/' :: rest => sweep .code rest
  | .blockComment, _ :: rest => sweep .blockComment rest

def Place.region : Place → Region
  | .code => .code
  | .literal => .literal
  | .comment => .blockComment

def Region.ofLine (inComment : Bool) : Region := if inComment then .blockComment else .code

/-- A line and what follows it: nothing, or a line end that begins there and not before. -/
structure Unbroken (line after : Text) : Prop where
  plain : '\n' ∉ line
  apart : ∀ before, line = before ++ ['\r'] → after.head? ≠ some '\n'
  ended : ∀ c ∈ after.head?, c = '\n' ∨ c = '\r'

namespace Unbroken

variable {c : Char} {rest after : Text}

theorem tail (unbroken : Unbroken (c :: rest) after) : Unbroken rest after := by
  refine ⟨List.not_mem_of_not_mem_cons unbroken.plain, ?_, unbroken.ended⟩
  rintro before rfl
  exact unbroken.apart (c :: before) rfl

theorem ne_lineFeed (unbroken : Unbroken (c :: rest) after) : c ≠ '\n' :=
  (List.ne_of_not_mem_cons unbroken.plain).symm

theorem no_lineFeed_behind (unbroken : Unbroken (c :: rest) after) (more : Text)
    (carriage : c = '\r') : rest ++ after ≠ '\n' :: more := by
  intro same
  cases rest with
  | nil =>
      rw [List.nil_append] at same
      apply unbroken.apart [] (by rw [carriage]; rfl)
      rw [same]
      rfl
  | cons d rest => exact unbroken.tail.ne_lineFeed (List.cons.inj same).1

theorem exists_of_append (unbroken : Unbroken rest after) {more : Text}
    (same : rest ++ after = c :: more) (feed : c ≠ '\n') (carriage : c ≠ '\r') :
    ∃ inner, rest = c :: inner := by
  cases rest with
  | nil =>
      rw [List.nil_append] at same
      rcases unbroken.ended c (by rw [same]; rfl) with ends | ends
      · exact absurd ends feed
      · exact absurd ends carriage
  | cons d rest =>
      obtain ⟨rfl, _⟩ := List.cons.inj same
      exact ⟨rest, rfl⟩

end Unbroken

theorem sweep_lineComment {line after : Text} (unbroken : Unbroken line after) :
    sweep .lineComment (line ++ after) = sweep .lineComment after := by
  induction line with
  | nil => rfl
  | cons c rest ih =>
      rw [List.cons_append, sweep]
      · exact ih unbroken.tail
      · exact unbroken.ne_lineFeed
      · exact unbroken.no_lineFeed_behind

theorem sweep_codeCharacter {c : Char} {rest after : Text} (unbroken : Unbroken (c :: rest) after)
    (quote : c ≠ '"') (slashes : ∀ more, c = '/' → rest ≠ '/' :: more)
    (star : ∀ more, c = '/' → rest ≠ '*' :: more) :
    sweep .code (c :: rest ++ after) = (sweep .code (rest ++ after)).modifyHead (c :: ·) := by
  rw [List.cons_append, sweep]
  · exact unbroken.ne_lineFeed
  · exact unbroken.no_lineFeed_behind
  · exact quote
  · intro more slash same
    obtain ⟨inner, same⟩ := unbroken.tail.exists_of_append same (by decide) (by decide)
    exact slashes inner slash same
  · intro more slash same
    obtain ⟨inner, same⟩ := unbroken.tail.exists_of_append same (by decide) (by decide)
    exact star inner slash same

theorem sweep_literalCharacter {c : Char} {rest after : Text}
    (unbroken : Unbroken (c :: rest) after) (quote : c ≠ '"') :
    sweep .literal (c :: rest ++ after) =
      (sweep .literal (rest ++ after)).modifyHead (c :: ·) := by
  rw [List.cons_append, sweep]
  · exact unbroken.ne_lineFeed
  · exact unbroken.no_lineFeed_behind
  · exact quote

theorem sweep_commentCharacter {c : Char} {rest after : Text}
    (unbroken : Unbroken (c :: rest) after) (closes : ∀ more, c = '*' → rest ≠ '/' :: more) :
    sweep .blockComment (c :: rest ++ after) = sweep .blockComment (rest ++ after) := by
  rw [List.cons_append, sweep]
  · exact unbroken.ne_lineFeed
  · exact unbroken.no_lineFeed_behind
  · intro more star same
    obtain ⟨inner, same⟩ := unbroken.tail.exists_of_append same (by decide) (by decide)
    exact closes inner star same

/-- Up to what comes after a line, the pass keeps what stripping keeps of the line, and the next
line begins where stripping says. -/
def SweptAs (region : Region) (text after : Text) (stripped : Text × Bool) : Prop :=
  ∃ last : Region, last.nextLine = .ofLine stripped.2 ∧
    sweep region text = (sweep last after).modifyHead (stripped.1 ++ ·)

theorem modifyHead_nil_append (pieces : List Text) :
    pieces.modifyHead (([] : Text) ++ ·) = pieces := by
  cases pieces <;> rfl

theorem sweptAs_nothing {region last : Region} {text after : Text} {stillOpen : Bool}
    (swept : sweep region text = sweep last after) (next : last.nextLine = .ofLine stillOpen) :
    SweptAs region text after ([], stillOpen) :=
  ⟨last, next, swept.trans (modifyHead_nil_append _).symm⟩

theorem SweptAs.keep {region inside : Region} {c : Char} {text rest after : Text}
    {stripped : Text × Bool} (kept : SweptAs inside rest after stripped)
    (step : sweep region text = (sweep inside rest).modifyHead (c :: ·)) :
    SweptAs region text after (stripFrom.keep c stripped) := by
  obtain ⟨last, next, swept⟩ := kept
  refine ⟨last, next, ?_⟩
  rw [step, swept]
  cases sweep last after <;> rfl

theorem sweep_line (place : Place) {line after : Text} (unbroken : Unbroken line after) :
    SweptAs place.region (line ++ after) after (stripFrom place line) := by
  -- The cases are those of the pass without its line ends, of which the line has none.
  fun_induction stripFrom place line with
  | case1 => exact sweptAs_nothing rfl rfl
  | case2 place outside =>
      cases place with
      | comment => exact absurd rfl outside
      | code | literal => exact sweptAs_nothing rfl rfl
  | case3 rest ih | case6 rest ih => exact ih unbroken.tail.tail
  | case4 c rest closes ih =>
      rw [Place.region, SweptAs, sweep_commentCharacter unbroken closes]
      exact ih unbroken.tail
  | case5 rest => exact sweptAs_nothing (sweep_lineComment unbroken.tail.tail) rfl
  | case7 rest ih | case9 rest ih => exact (ih unbroken.tail).keep rfl
  | case8 c rest slashes star quote ih =>
      exact (ih unbroken.tail).keep (sweep_codeCharacter unbroken quote slashes star)
  | case10 c rest quote ih =>
      exact (ih unbroken.tail).keep (sweep_literalCharacter unbroken quote)

end Comment

namespace Text

def withoutReturn (part : Text) : Text :=
  if part.getLast? = some '\r' then part.dropLast else part

theorem withoutReturn_concat (line : Text) : withoutReturn (line ++ ['\r']) = line := by
  simp [withoutReturn]

theorem withoutReturn_cons (c : Char) {part : Text} (more : part ≠ []) :
    withoutReturn (c :: part) = c :: withoutReturn part := by
  obtain ⟨d, rest, rfl⟩ := List.exists_cons_of_ne_nil more
  simp only [withoutReturn, List.getLast?_cons_cons, List.dropLast_cons_cons]
  split <;> rfl

theorem lines_cons {c : Char} {rest : Text} (feed : c ≠ '\n')
    (carriage : ∀ more, c = '\r' → rest ≠ '\n' :: more) {first : Text} {others : List Text}
    (same : lines rest = first :: others) : lines (c :: rest) = (c :: first) :: others := by
  rw [lines, same]
  · exact feed
  · exact carriage

theorem lines_append_lineFeed {part : Text} (plain : '\n' ∉ part) (rest : Text) :
    lines (part ++ '\n' :: rest) = withoutReturn part :: lines rest := by
  induction part with
  | nil => rfl
  | cons c more ih =>
      have later := ih (List.not_mem_of_not_mem_cons plain)
      have feed : c ≠ '\n' := (List.ne_of_not_mem_cons plain).symm
      -- Only the last character before the line feed can be part of the line end.
      by_cases lineEnd : more = [] ∧ c = '\r'
      · obtain ⟨rfl, rfl⟩ := lineEnd
        rfl
      · rw [List.cons_append, lines_cons feed _ later]
        · by_cases last : more = []
          · subst last
            simp_all [withoutReturn]
          · rw [withoutReturn_cons c last]
        · intro behind carriage same
          cases more with
          | nil => exact lineEnd ⟨rfl, carriage⟩
          | cons d more =>
              obtain ⟨rfl, _⟩ := List.cons.inj same
              exact plain (by simp)

theorem lines_of_plain {text : Text} (plain : '\n' ∉ text) (some : text ≠ []) :
    lines text = [text] := by
  induction text with
  | nil => exact absurd rfl some
  | cons c rest ih =>
      have feed : c ≠ '\n' := (List.ne_of_not_mem_cons plain).symm
      have later := List.not_mem_of_not_mem_cons plain
      cases rest with
      | nil =>
          rw [lines]
          · rfl
          · exact feed
          · simp
      | cons d rest =>
          apply lines_cons feed _ (ih later (List.cons_ne_nil d rest))
          rintro more _ same
          obtain ⟨rfl, _⟩ := List.cons.inj same
          exact later List.mem_cons_self

/-- A text is a line without a line feed, or begins with a line and its line feed. -/
@[elab_as_elim]
theorem induction_by_lines {motive : Text → Prop} (last : ∀ text, '\n' ∉ text → motive text)
    (more : ∀ part rest, '\n' ∉ part → motive rest → motive (part ++ '\n' :: rest))
    (text : Text) : motive text := by
  by_cases feed : '\n' ∈ text
  · obtain ⟨part, rest, same, plain⟩ := List.eq_append_cons_of_mem feed
    rw [same]
    exact more part rest plain (induction_by_lines last more rest)
  · exact last text feed
termination_by text.length
decreasing_by
  rw [same, List.length_append, List.length_cons]
  omega

end Text

namespace Comment

theorem unbroken_end {text : Text} (plain : '\n' ∉ text) : Unbroken text [] :=
  ⟨plain, fun _ _ => by simp, by simp⟩

theorem exists_unbroken {part : Text} (plain : '\n' ∉ part) (rest : Text) :
    ∃ after, part ++ '\n' :: rest = part.withoutReturn ++ after ∧
      Unbroken part.withoutReturn after ∧
      ∀ region, sweep region after = [] :: sweep region.nextLine rest := by
  by_cases ends : part.getLast? = some '\r'
  · obtain ⟨line, rfl⟩ := List.getLast?_eq_some_iff.1 ends
    rw [Text.withoutReturn_concat]
    refine ⟨'\r' :: '\n' :: rest, by simp, ⟨?_, ?_, ?_⟩, ?_⟩
    · exact fun member => plain (List.mem_append_left _ member)
    · simp
    · simp
    · intro region
      cases region <;> rfl
  · rw [Text.withoutReturn, if_neg ends]
    refine ⟨'\n' :: rest, rfl, ⟨plain, ?_, ?_⟩, ?_⟩
    · rintro before rfl
      simp at ends
    · simp
    · intro region
      cases region <;> rfl

end Comment

theorem numbered_cons_congr {text : Text} {texts others : List Text}
    (same : ∀ number, numbered number texts = numbered number others) (number : Nat) :
    numbered number (text :: texts) = numbered number (text :: others) := by
  rw [numbered, numbered, same]

namespace Comment

def Place.ofLine (inComment : Bool) : Place := if inComment then .comment else .code

theorem Place.region_ofLine (inComment : Bool) :
    (Place.ofLine inComment).region = .ofLine inComment := by
  cases inComment <;> rfl

/-- The lines that stripping leaves one by one are those that one pass leaves. -/
theorem numbered_sweep (text : Text) (inComment : Bool) (number : Nat) :
    numbered number (sweep (.ofLine inComment) text) =
      numbered number (stripLines inComment text.lines) := by
  rw [← Place.region_ofLine]
  induction text using Text.induction_by_lines generalizing inComment number with
  | last text plain =>
      obtain ⟨last, _, swept⟩ := sweep_line (.ofLine inComment) (unbroken_end plain)
      have cut : sweep last [] = [[]] := by cases last <;> rfl
      rw [List.append_nil, cut, List.modifyHead_cons, List.append_nil] at swept
      -- Nothing behind the last line end is no line, and a blank piece of the pass.
      by_cases empty : text = []
      · subst empty
        cases inComment <;> rfl
      · rw [swept, Text.lines_of_plain plain empty]
        rfl
  | more part rest plain ih =>
      obtain ⟨after, same, unbroken, cut⟩ := exists_unbroken plain rest
      obtain ⟨last, next, swept⟩ := sweep_line (.ofLine inComment) unbroken
      rw [cut, next, List.modifyHead_cons, List.append_nil, ← Place.region_ofLine] at swept
      rw [Text.lines_append_lineFeed plain, same, swept]
      exact numbered_cons_congr (fun number => ih _ number) number

end Comment

theorem Line.trimmed?_eq (number : Nat) (text : Text) :
    trimmed? number text = if text.trim = [] then none else some ⟨number, text.trim⟩ := by
  simp [trimmed?, trimmed]

theorem numbered_increasing (number : Nat) (texts : List Text) :
    (numbered number texts).Pairwise fun earlier later => earlier.number < later.number := by
  induction texts generalizing number with
  | nil => exact .nil
  | cons text rest ih =>
      rw [numbered]
      split
      next line kept =>
        refine .cons ?_ (ih (number + 1))
        intro later member
        obtain ⟨rfl, _⟩ := Line.of_trimmed? kept
        obtain ⟨index, _, _, kept⟩ := exists_getElem?_of_mem_numbered member
        obtain ⟨rfl, _⟩ := Line.of_trimmed? kept
        simp only
        omega
      next => exact ih (number + 1)

/-- The lines of code are what one pass over the whole script keeps, line by line: trimmed, without
those that are blank, each with the number of its line in the script. -/
theorem codeLines_swept (source : Text) :
    codeLines source =
      ((Comment.sweep .code source).zipIdx 1).filterMap (fun (text, number) =>
        if text.trim = [] then none else some ⟨number, text.trim⟩) ∧
    ((codeLines source).Pairwise fun earlier later => earlier.number < later.number) ∧
    ∀ line ∈ codeLines source, ∃ index raw, source.lines[index]? = some raw ∧
      line.number = index + 1 ∧ line.text.Sublist raw := by
  refine ⟨?_, numbered_increasing 1 _, ?_⟩
  · rw [codeLines, ← Comment.numbered_sweep, numbered_eq]
    simp only [Line.trimmed?_eq]
    rfl
  · intro line member
    obtain ⟨index, code, found, kept⟩ := exists_getElem?_of_mem_numbered member
    obtain ⟨rfl, _⟩ := Line.of_trimmed? kept
    obtain ⟨raw, inside, begins, rfl⟩ := Comment.exists_strip_of_getElem?_stripLines found
    refine ⟨index, raw, inside, Nat.add_comm 1 index, ?_⟩
    exact (Text.trim_infix _).sublist.trans (Comment.stripFrom_sublist _ raw)

example : codeLines "/*/ \"*/a//*\r\n\r\n/**\"**/\"//\"".toList =
    [⟨1, ['a']⟩, ⟨3, ['"', '/', '/', '"']⟩] := by decide

theorem Text.trim_concat_return (line : Text) : trim (line ++ ['\r']) = trim line := by
  have blank : isBlank '\r' = true := by decide
  rw [trim, trim, trimStart, trimStart, List.dropWhile_append]
  cases start : line.dropWhile isBlank with
  | nil => simp [trimEnd, trimStart, blank]
  | cons c rest => simp [trimEnd, trimStart, blank]

theorem Text.trim_withoutReturn (part : Text) : part.withoutReturn.trim = part.trim := by
  by_cases ends : part.getLast? = some '\r'
  · obtain ⟨line, rfl⟩ := List.getLast?_eq_some_iff.1 ends
    rw [withoutReturn_concat, trim_concat_return]
  · rw [withoutReturn, if_neg ends]

theorem Text.withoutReturn_prefix (part : Text) : part.withoutReturn <+: part := by
  unfold withoutReturn
  split
  · exact List.dropLast_prefix part
  · exact List.prefix_refl part

namespace Comment

theorem Unmarked.prefix {part text : Text} {inLiteral : Bool} (unmarked : Unmarked inLiteral text)
    (begins : part <+: text) : Unmarked inLiteral part := by
  obtain ⟨behind, rfl⟩ := begins
  intro before c after same mark
  exact unmarked before c (after ++ behind) (by simp [same]) mark

theorem stripLines_of_unmarked {texts : List Text}
    (unmarked : ∀ text ∈ texts, Unmarked false text) : stripLines false texts = texts := by
  induction texts with
  | nil => rfl
  | cons text rest ih =>
      obtain ⟨first, others⟩ := List.forall_mem_cons.1 unmarked
      rw [stripLines, strip_of_unmarked first]
      exact congrArg (text :: ·) (ih others)

theorem numbered_joined {texts : List Text} (unmarked : ∀ text ∈ texts, Unmarked false text)
    (plain : ∀ text ∈ texts, '\n' ∉ text) (number : Nat) :
    numbered number (stripLines false (Text.lines (['\n'].intercalate texts))) =
      numbered number texts := by
  induction texts generalizing number with
  | nil => rfl
  | cons text rest ih =>
      obtain ⟨unmarkedText, unmarkedRest⟩ := List.forall_mem_cons.1 unmarked
      obtain ⟨plainText, plainRest⟩ := List.forall_mem_cons.1 plain
      cases rest with
      | nil =>
          rw [List.intercalate_singleton]
          by_cases empty : text = []
          · subst empty
            rfl
          · rw [Text.lines_of_plain plainText empty, stripLines_of_unmarked unmarked]
      | cons next rest =>
          -- A carriage return that stripping left is part of the line end now, but it is blank.
          have later (number : Nat) := ih unmarkedRest plainRest number
          have first := unmarkedText.prefix text.withoutReturn_prefix
          rw [List.intercalate_cons_cons, List.append_assoc, List.singleton_append,
            Text.lines_append_lineFeed plainText, stripLines, strip_of_unmarked first]
          rw [numbered_cons_congr later, numbered_eq, numbered_eq]
          simp only [List.zipIdx_cons, List.filterMap_cons, Line.trimmed?_eq,
            Text.trim_withoutReturn]

theorem unmarked_of_mem_stripLines {inComment : Bool} {lines : List Text} {code : Text}
    (member : code ∈ stripLines inComment lines) : Unmarked false code := by
  obtain ⟨line, _, begins, rfl⟩ := exists_strip_of_mem_stripLines member
  exact strip_unmarked begins line

theorem lineFeed_not_mem_of_mem_stripLines {inComment : Bool} {source code : Text}
    (member : code ∈ stripLines inComment source.lines) : '\n' ∉ code := by
  obtain ⟨line, inside, part⟩ := exists_of_mem_stripLines member
  intro feed
  exact source.lineFeed_not_mem_of_mem_lines line inside (part.subset feed)

end Comment

/-- A stripped script has no comments, so stripping it again changes nothing, and it runs as the
script does. -/
theorem stripped_script_runs_alike (source : Text) :
    (∀ code ∈ Comment.stripLines false source.lines,
      Comment.strip false code = (code, false) ∧ Comment.Unmarked false code) ∧
    Comment.stripLines false (Comment.stripLines false source.lines) =
      Comment.stripLines false source.lines ∧
    codeLines (['\n'].intercalate (Comment.stripLines false source.lines)) = codeLines source ∧
    ∀ depth streams,
      Script.run depth streams (['\n'].intercalate (Comment.stripLines false source.lines)) =
        Script.run depth streams source := by
  have unmarked : ∀ code ∈ Comment.stripLines false source.lines, Comment.Unmarked false code :=
    fun _ member => Comment.unmarked_of_mem_stripLines member
  have same : codeLines (['\n'].intercalate (Comment.stripLines false source.lines)) =
      codeLines source :=
    Comment.numbered_joined unmarked
      (fun _ member => Comment.lineFeed_not_mem_of_mem_stripLines member) 1
  refine ⟨?_, Comment.stripLines_of_unmarked unmarked, same, ?_⟩
  · intro code member
    exact ⟨Comment.strip_of_unmarked (unmarked code member), unmarked code member⟩
  · intro depth streams
    rw [Script.run, Script.run, Script.execute, Script.execute, same]

end Purr
