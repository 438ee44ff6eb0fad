import Purr.Proofs.BlockStructure
import Purr.Proofs.Collecting
import Purr.Proofs.Fragments

/-!
# Layouts

A block may begin on the line of its header or on the next one, and the brace that closes it may
have code around it or stand alone. A header is recognized by what stands up to its brace, whatever
follows, and the text behind the brace is the first line of the block. So a line can be broken
behind the brace of its header, and around the brace that closes a block.
-/

namespace Purr

set_option autoImplicit false

theorem Text.slice?_append_right {text part : Text} {start stop : Nat} (after : Text)
    (sliced : text.slice? start stop = some part) :
    (text ++ after).slice? start stop = some part := by
  simpa using slice?_inside [] after sliced

theorem Fragment.ofLexemes?_append {text : Text} {run : List Lexeme} {number : Nat}
    {fragment : Fragment} (after : Text) (made : ofLexemes? text run number = some fragment) :
    ofLexemes? (text ++ after) run number = some fragment := by
  unfold ofLexemes? at made ⊢
  split at made
  next first last head final =>
    split at made
    next source moved sliced rebased =>
      simp only [Text.slice?_append_right after sliced, rebased]
      exact made
    next => cases made
  next none => exact made

namespace Statement

/-- The statement of a header on a line of its own. -/
def bare : Statement → Statement
  | .function header _ => .function header []
  | .branch condition _ => .branch condition []
  | .otherwise _ => .otherwise []
  | statement => statement

section

variable {text head bodyStart : Text} {number : Nat} {lexemes : List Lexeme} {brace : Span}

theorem exists_bare {earlier later : List Lexeme} {statement : Statement}
    (braced : headerBrace? (earlier ++ ⟨.leftBrace, brace⟩ :: later) = some brace)
    (cut : Lexer.Cut 0 text (earlier ++ ⟨.leftBrace, brace⟩ :: later))
    (dropped : text.dropBytes? brace.stop = some bodyStart)
    (read : ∀ head, text = head ++ bodyStart → head.dropBytes? brace.stop = some [] →
      Lexer.Cut 0 head (earlier ++ [⟨.leftBrace, brace⟩]) →
        ofLexemes head number (earlier ++ [⟨.leftBrace, brace⟩]) = .ok statement) :
    ∃ found head, headerBrace? (earlier ++ ⟨.leftBrace, brace⟩ :: later) = some found ∧
      text.takeBytes? found.stop = some head ∧ text = head ++ bodyStart ∧
        head.getLast? = some '\x7b' ∧ ofLine ⟨number, head⟩ = .ok statement := by
  obtain ⟨head, rfl, stop, own, _⟩ := exists_head cut dropped
  have all : head.dropBytes? brace.stop = some [] := stop ▸ head.dropBytes?_byteLength
  refine ⟨brace, head, braced, ?_, rfl, ?_, ?_⟩
  · rw [Text.takeBytes?, stop, Text.cutAt?_byteLength_append]
    rfl
  · obtain ⟨before, same, _⟩ := Block.exists_before_brace own (by simp) all
    rw [same, List.getLast?_concat]
  · rw [ofLine, Lexer.lexemes_eq_ok_iff.2 own]
    exact read head rfl all own

theorem Recognized.bare {statement : Statement}
    (recognized : Recognized text number lexemes statement) (cut : Lexer.Cut 0 text lexemes)
    (start : statement.blockStart? = some bodyStart) :
    ∃ brace head, headerBrace? lexemes = some brace ∧ text.takeBytes? brace.stop = some head ∧
      text = head ++ bodyStart ∧ head.getLast? = some '\x7b' ∧
        ofLine ⟨number, head⟩ = .ok statement.bare := by
  cases recognized with
  | @function name kind close brace inner bodyStart parts between dropped =>
      cases start
      have braced := headerBrace?_function parts
      obtain ⟨earlier, later, rfl, length, own⟩ := functionParts?_split parts
      rw [List.append_cons, between?_append (by rw [List.length_append]; omega)] at between
      apply exists_bare braced cut dropped
      intro head _ all _
      exact ofLexemes_function own between all
  | @branch close brace inner condition bodyStart parts between found dropped =>
      cases start
      have braced := headerBrace?_branch parts
      obtain ⟨earlier, later, rfl, length, own⟩ := branchParts?_split parts
      rw [List.append_cons, between?_append (by rw [List.length_append]; omega)] at between
      apply exists_bare braced cut dropped
      intro head same all cutHead
      obtain ⟨fragment, made, _⟩ :=
        Fragment.ofLexemes?_of_within number cutHead.within (infix_of_between? between)
      have whole := Fragment.ofLexemes?_append bodyStart made
      rw [← same, found] at whole
      obtain rfl := Option.some.inj whole
      exact ofLexemes_branch own between made all (by rw [beforeSemicolon?, List.getLast?_concat])
  | @otherwise brace bodyStart braced dropped =>
      cases start
      obtain ⟨word, later, rfl⟩ := otherwiseBrace?_split braced
      apply exists_bare rfl cut dropped
      intro head _ all _
      exact ofLexemes_otherwise all
  | _ => cases start

end

end Statement

theorem Text.trim_of_brace {head bodyStart : Text}
    (trimmed : (head ++ bodyStart).trim = head ++ bodyStart)
    (brace : head.getLast? = some '\x7b') : head.trim = head := by
  have within := isPrefix_trimEnd (head ++ bodyStart).trimStart
  rw [← trim, trimmed] at within
  have start : head.trimStart = head :=
    trimStart_of_prefix ((List.prefix_append head bodyStart).trans within)
  obtain ⟨before, rfl⟩ := List.getLast?_eq_some_iff.1 brace
  rw [trim, start, trimEnd, trimStart, List.reverse_append, List.reverse_singleton,
    List.singleton_append, List.dropWhile_cons_of_neg (by decide), List.reverse_cons,
    List.reverse_reverse]

namespace Block

theorem collect_pushed (construct : Construct) (opened : Nat) (bodyStart : Text)
    (cursor : Cursor) : collect construct opened [] (linesFrom opened bodyStart cursor) =
      collect construct opened bodyStart cursor := rfl

/-- The lines in which the brace at the place stands alone. -/
def Place.spread (place : Place) : List Line :=
  place.body ++ ⟨place.number, closingBrace⟩ :: place.rest

theorem collect_spread {construct : Construct} {opened : Nat} {bodyStart other : Text}
    {cursor others : Cursor} {place : Place}
    (first : place.First 1 (linesFrom opened bodyStart cursor))
    (spread : linesFrom opened other others = place.spread) :
    collect construct opened other others = collect construct opened bodyStart cursor := by
  have collected := collect_of_first construct first
  have balanced := balanced_of_collect collected
  rw [← collect_pushed, spread, collected]
  exact collect_balanced construct opened place.number balanced [] place.rest

end Block

namespace Execution

variable (depth : Nat) (frame : Option Function)

theorem line_broken {first : Line} {statement : Statement} {head bodyStart : Text}
    (cursor : Cursor) (recognized : Statement.ofLine first = .ok statement)
    (start : statement.blockStart? = some bodyStart)
    (alone : Statement.ofLine ⟨first.number, head⟩ = .ok statement.bare) :
    line depth frame first cursor =
      line depth frame ⟨first.number, head⟩ (Block.linesFrom first.number bodyStart cursor) := by
  unfold line
  rw [recognized, alone]
  cases statement with
  | function | branch | otherwise =>
      cases start
      rfl
  | _ => cases start

/-- A line that is a header can be broken behind the brace of the header: what follows the brace is
the next line, if it is not blank. And the line on which a block closes can be broken before and
behind the brace: the block is the same, and so is what is read next. -/
theorem layouts_are_equal :
    (∀ (first : Line) (construct : Construct) (bodyStart : Text),
      first.Opens construct bodyStart →
      ∃ found brace head, lexemes first.text = .ok found ∧
        Statement.headerBrace? found = some brace ∧
        first.text.takeBytes? brace.stop = some head ∧ first.text = head ++ bodyStart ∧
        (first.text.trim = first.text → head.trim = head) ∧
        ∀ (depth : Nat) (frame : Option Function) (rest : List Line),
          lines depth frame (first :: rest) =
            lines depth frame (⟨first.number, head⟩ ::
              Cursor.push? (Line.trimmed? first.number bodyStart) rest)) ∧
    ∀ (construct : Construct) (opened : Nat) (bodyStart : Text) (cursor : Cursor)
      (place : Block.Place), place.First 1 (Block.linesFrom opened bodyStart cursor) →
      ∀ (other : Text) (others : Cursor),
        Block.linesFrom opened other others = place.before ++
          (Line.trimmed? place.number place.head).toList ++ ⟨place.number, closingBrace⟩ ::
            ((Line.trimmed? place.number place.tail).toList ++ place.after) →
        Block.collect construct opened other others =
          Block.collect construct opened bodyStart cursor := by
  constructor
  · rintro first construct bodyStart ⟨statement, recognized, opens⟩
    have start := Statement.blockStart?_of_opens? opens
    obtain ⟨found, cut, _⟩ := Statement.ofLine_ok_placed recognized
    have read := Lexer.lexemes_eq_ok_iff.2 cut
    have fits : Statement.ofLexemes first.text first.number found = .ok statement := by
      rwa [Statement.ofLine, read] at recognized
    obtain ⟨brace, head, braced, taken, split, last, alone⟩ :=
      (Statement.recognized_of_ofLexemes fits).bare cut start
    refine ⟨found, brace, head, read, braced, taken, split, ?_, ?_⟩
    · intro trimmed
      rw [split] at trimmed
      exact Text.trim_of_brace trimmed last
    · intro depth frame rest
      rw [lines_cons, lines_cons, line_broken depth frame rest recognized start alone]
      rfl
  · intro construct opened bodyStart cursor place first other others same
    apply Block.collect_spread first
    rw [same, Block.Place.spread, Block.Place.body, Block.Place.rest]
    cases Line.trimmed? place.number place.tail <;> rfl

theorem oneLineBranch_can_be_broken :
    lines 1 none [⟨3, "if (x) \x7b y(); \x7d else \x7b z(); \x7d".toList⟩] =
      lines 1 none [⟨3, "if (x) \x7b".toList⟩, ⟨3, "y(); \x7d else \x7b z(); \x7d".toList⟩] ∧
    Block.collect .branch 3 []
        [⟨3, "y();".toList⟩, ⟨3, closingBrace⟩, ⟨3, "else \x7b z(); \x7d".toList⟩] =
      Block.collect .branch 3 " y(); \x7d else \x7b z(); \x7d".toList [] := by
  obtain ⟨broken, spread⟩ := layouts_are_equal
  constructor
  · obtain ⟨_, _, head, _, _, _, split, _, same⟩ :=
      broken ⟨3, "if (x) \x7b y(); \x7d else \x7b z(); \x7d".toList⟩ .branch
        " y(); \x7d else \x7b z(); \x7d".toList ⟨_, rfl, rfl⟩
    have whole : "if (x) \x7b".toList ++ " y(); \x7d else \x7b z(); \x7d".toList =
        head ++ " y(); \x7d else \x7b z(); \x7d".toList := split
    obtain rfl := List.append_cancel_right whole
    exact same 1 none []
  · have first := @Block.Place.first_of_closed 1 [] ⟨3, "y(); \x7d else \x7b z(); \x7d".toList⟩
      "y(); ".toList " else \x7b z(); \x7d".toList rfl rfl rfl
    exact spread .branch 3 " y(); \x7d else \x7b z(); \x7d".toList [] _ first [] _ rfl

end Execution

end Purr
