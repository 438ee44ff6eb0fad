import Purr.Proofs.Comments
import Purr.Proofs.Provenance

/-!
# Literals

Three readers tell what stands inside a text literal from what stands outside: the one that leaves
out comments, the one that counts braces, and the one that cuts lexemes. Only the first sees a line
of the script as it was written, and only the last keeps what a literal holds. On every line that
code is read from they agree on where the literals are: the braces that are counted are the tokens,
and where a comment would begin there is a literal.
-/

namespace Purr

set_option autoImplicit false

namespace Block

structure Brace where
  position : Nat
  opens : Bool
deriving DecidableEq

/-- The braces of a text outside of every literal, from a place and a byte position on. -/
def bracesFrom (inLiteral : Bool) (position : Nat) : Text → List Brace
  | [] => []
  | c :: rest =>
      let later := bracesFrom (literalAfter inLiteral [c]) (position + c.utf8Size) rest
      match mark inLiteral c with
      | .opening => ⟨position, true⟩ :: later
      | .closing => ⟨position, false⟩ :: later
      | .quote | .plain => later

/-- Counts braces in order, up to one that closes the block. -/
def countBraces (depth : Nat) : List Brace → Option Scan
  | [] => some (.inside depth)
  | ⟨_, true⟩ :: rest => countBraces (depth + 1) rest
  | ⟨position, false⟩ :: rest =>
      match depth with
      | 0 => none
      | 1 => some (.closed position)
      | depth + 2 => countBraces (depth + 1) rest

theorem scanFrom_eq_countBraces (inLiteral : Bool) (depth position : Nat) (text : Text) :
    scanFrom inLiteral depth position text =
      countBraces depth (bracesFrom inLiteral position text) := by
  induction text generalizing inLiteral depth position with
  | nil => rfl
  | cons c rest ih =>
      rw [scanFrom_cons, bracesFrom, literalAfter_single]
      unfold step
      cases mark inLiteral c with
      | quote => exact ih _ _ _
      | opening => exact ih _ _ _
      | closing => rcases depth with _ | _ | depth <;> first | rfl | exact ih _ _ _
      | plain => exact ih _ _ _

theorem bracesFrom_append (inLiteral : Bool) (position : Nat) (a b : Text) :
    bracesFrom inLiteral position (a ++ b) =
      bracesFrom inLiteral position a ++
        bracesFrom (literalAfter inLiteral a) (position + a.byteLength) b := by
  induction a generalizing inLiteral position with
  | nil => rfl
  | cons c rest ih =>
      have place : literalAfter inLiteral (c :: rest) =
          literalAfter (literalAfter inLiteral [c]) rest :=
        literalAfter_append inLiteral [c] rest
      rw [List.cons_append, bracesFrom, bracesFrom, ih, place, Text.byteLength_cons,
        ← Nat.add_assoc]
      cases mark inLiteral c <;> rfl

theorem mark_eq_opening {inLiteral : Bool} {c : Char} (marked : mark inLiteral c = .opening) :
    c = '\x7b' := by
  by_cases opening : c = '\x7b'
  · exact opening
  · rw [mark, if_neg opening] at marked
    repeat' split at marked
    all_goals cases marked

theorem bracesFrom_of_not_mem (inLiteral : Bool) (position : Nat) {text : Text}
    (noOpening : '\x7b' ∉ text) (noClosing : '\x7d' ∉ text) :
    bracesFrom inLiteral position text = [] := by
  induction text generalizing inLiteral position with
  | nil => rfl
  | cons c rest ih =>
      obtain ⟨opening, noOpening⟩ := not_or.1 (mt List.mem_cons.2 noOpening)
      obtain ⟨closing, noClosing⟩ := not_or.1 (mt List.mem_cons.2 noClosing)
      rw [bracesFrom, ih _ _ noOpening noClosing]
      cases marked : mark inLiteral c with
      | quote | plain => rfl
      | opening => exact absurd (mark_eq_opening marked).symm opening
      | closing => exact absurd (mark_eq_closing marked).1.symm closing

theorem bracesFrom_literal (position : Nat) {content : Text} (closed : '"' ∉ content) :
    bracesFrom true position content = [] := by
  induction content generalizing position with
  | nil => rfl
  | cons c rest ih =>
      obtain ⟨first, closed⟩ := not_or.1 (mt List.mem_cons.2 closed)
      rw [bracesFrom, literalAfter_char true (Ne.symm first), ih _ closed, mark,
        if_neg (Ne.symm first)]
      rfl

theorem bracesFrom_bounds (inLiteral : Bool) (position : Nat) (text : Text) :
    ∀ brace ∈ bracesFrom inLiteral position text,
      position ≤ brace.position ∧ brace.position < position + text.byteLength := by
  induction text generalizing inLiteral position with
  | nil => exact nofun
  | cons c rest ih =>
      have later := ih (literalAfter inLiteral [c]) (position + c.utf8Size)
      have width := c.utf8Size_pos
      have within : ∀ brace ∈ bracesFrom (literalAfter inLiteral [c]) (position + c.utf8Size) rest,
          position ≤ brace.position ∧
            brace.position < position + Text.byteLength (c :: rest) := by
        intro brace member
        obtain ⟨lower, upper⟩ := later brace member
        rw [Text.byteLength_cons]
        omega
      rw [bracesFrom]
      cases mark inLiteral c with
      | quote | plain => exact within
      | opening | closing =>
          refine List.forall_mem_cons.2 ⟨⟨Nat.le_refl _, ?_⟩, within⟩
          rw [Text.byteLength_cons]
          dsimp only
          omega

theorem depth_of_countBraces {depth reached : Nat} {braces : List Brace}
    (inside : countBraces depth braces = some (.inside reached)) :
    reached + braces.countP (fun brace => !brace.opens) =
      depth + braces.countP fun brace => brace.opens := by
  induction braces generalizing depth with
  | nil =>
      cases inside
      rfl
  | cons brace rest ih =>
      obtain ⟨position, opens⟩ := brace
      cases opens with
      | true =>
          have later := ih inside
          simp
          omega
      | false =>
          rcases depth with _ | _ | depth
          · cases inside
          · cases inside
          · have later := ih inside
            simp
            omega

end Block

def Lexeme.brace? (lexeme : Lexeme) : Option Block.Brace :=
  match lexeme.token with
  | .leftBrace => some ⟨lexeme.span.start, true⟩
  | .rightBrace => some ⟨lexeme.span.start, false⟩
  | _ => none

namespace Lexer

theorem Spells.bracesFrom_eq {word : Text} {token : Token} (spells : Spells word token)
    (span : Span) :
    Block.bracesFrom false span.start word = (Lexeme.brace? ⟨token, span⟩).toList := by
  have plain (opening : '\x7b' ∉ word) (closing : '\x7d' ∉ word) :=
    Block.bracesFrom_of_not_mem false span.start opening closing
  cases spells with
  | number number =>
      exact plain (number.not_mem rfl (by decide)) (number.not_mem rfl (by decide))
  | @text content closed =>
      have inside := Block.bracesFrom_append true (span.start + 1) content ['"']
      rw [Block.bracesFrom_literal _ closed, Block.literalAfter_of_not_mem true closed] at inside
      exact inside
  | keyword keyword => cases keyword <;> exact plain (by decide) (by decide)
  | @name first rest start parts =>
      have missing {c : Char} (begins : isWordStart c = false) (part : isWordPart c = false) :
          c ∉ first :: rest := by
        intro member
        rcases List.mem_cons.1 member with rfl | later
        · rw [start] at begins
          cases begins
        · rw [parts c later] at part
          cases part
      exact plain (missing rfl rfl) (missing rfl rfl)
  | @mark token mark =>
      cases token with
      | operator op => cases op <;> rfl
      | comparison op => cases op <;> rfl
      | number | text | name | keyword => cases mark
      | _ => rfl

/-- The braces that are counted are those that are tokens, at the positions where they begin. -/
theorem Cut.bracesFrom_eq {start : Nat} {text : Text} {found : List Lexeme}
    (cut : Cut start text found) :
    Block.bracesFrom false start text = found.filterMap Lexeme.brace? := by
  induction cut with
  | done => rfl
  | @skip start c rest lexemes skipped _ ih =>
      have gap : Block.literalAfter false [c] = false :=
        Block.literalAfter_skipped (by simpa using skipped)
      have none : Block.bracesFrom false start [c] = [] := by
        apply Block.bracesFrom_of_not_mem
        · intro member
          obtain rfl := List.mem_singleton.1 member
          cases skipped
        · intro member
          obtain rfl := List.mem_singleton.1 member
          cases skipped
      have whole := Block.bracesFrom_append false start [c] rest
      rw [none, gap, List.nil_append] at whole
      exact whole.trans ih
  | @lexeme start text word rest token span lexemes longest chosen first stop _ ih =>
      subst first
      rw [longest.split, Block.bracesFrom_append, Block.literalAfter_word chosen.1,
        chosen.1.bracesFrom_eq span, ← stop, ih, List.filterMap_cons]
      cases Lexeme.brace? ⟨token, span⟩ <;> rfl

theorem Spells.literal_around {before part middle after rest : Text} {token : Token}
    (spells : Spells (before ++ part) token) (inside : Block.literalAfter false before = true)
    (same : middle ++ after = part ++ rest) (closed : '"' ∉ middle) :
    (∃ content, token = .text content) ∧ 0 < before.byteLength ∧
      middle.byteLength < part.byteLength := by
  rcases Block.quote_not_mem_or_literal spells with plain | ⟨content, rfl, word, _⟩
  · have noQuote : '"' ∉ before := fun member => plain (List.mem_append_left part member)
    rw [Block.literalAfter_of_not_mem false noQuote] at inside
    cases inside
  · have first : 0 < before.byteLength := by
      cases before with
      | nil => cases inside
      | cons c others => exact Nat.add_pos_left c.utf8Size_pos _
    rcases List.eq_nil_or_concat part with rfl | ⟨others, last, rfl⟩
    · have outside := Block.literalAfter_word spells
      rw [List.append_nil, inside] at outside
      cases outside
    · rw [List.concat_eq_append, ← List.append_assoc] at word
      obtain rfl : last = '"' := List.singleton_inj.1 (List.append_inj' word rfl).2
      refine ⟨⟨content, rfl⟩, first, ?_⟩
      rw [List.concat_eq_append, List.append_assoc] at same
      have within : middle <+: others := by
        rcases List.append_eq_append_iff.1 same with ⟨more, rfl, _⟩ | ⟨more, rfl, behind⟩
        · exact List.prefix_append middle more
        · cases more with
          | nil => simp
          | cons c more =>
              obtain ⟨rfl, _⟩ := List.cons.inj behind
              simp at closed
      obtain ⟨more, rfl⟩ := within
      have width : Char.utf8Size '"' = 1 := rfl
      simp only [List.concat_eq_append, Text.byteLength_append, Text.byteLength_cons,
        Text.byteLength_nil, width]
      omega

theorem Cut.literal_around {start : Nat} {text before middle after : Text} {found : List Lexeme}
    (cut : Cut start text found) (same : text = before ++ (middle ++ after))
    (inside : Block.literalAfter false before = true) (closed : '"' ∉ middle) :
    ∃ lexeme ∈ found, (∃ content, lexeme.token = .text content) ∧
      lexeme.span.start < start + before.byteLength ∧
      start + before.byteLength + middle.byteLength < lexeme.span.stop := by
  induction cut generalizing before with
  | done =>
      obtain ⟨rfl, _⟩ := List.append_eq_nil_iff.1 same.symm
      cases inside
  | @skip start c rest lexemes skipped _ ih =>
      cases before with
      | nil => cases inside
      | cons first others =>
          obtain ⟨rfl, behind⟩ := List.cons.inj same
          have gap : Block.literalAfter false [c] = false :=
            Block.literalAfter_skipped (by simpa using skipped)
          rw [← List.singleton_append, Block.literalAfter_append, gap] at inside
          obtain ⟨lexeme, member, literal, lower, upper⟩ := ih behind inside
          refine ⟨lexeme, member, literal, ?_, ?_⟩
          · rw [Text.byteLength_cons]
            omega
          · rw [Text.byteLength_cons]
            omega
  | @lexeme start text word rest token span lexemes longest chosen first stop _ ih =>
      rw [longest.split] at same
      rcases List.append_eq_append_iff.1 same with ⟨others, rfl, behind⟩ | ⟨part, rfl, behind⟩
      · rw [Block.literalAfter_append, Block.literalAfter_word chosen.1] at inside
        obtain ⟨lexeme, member, literal, lower, upper⟩ := ih behind inside
        refine ⟨lexeme, List.mem_cons_of_mem _ member, literal, ?_, ?_⟩
        · rw [Text.byteLength_append]
          omega
        · rw [Text.byteLength_append]
          omega
      · obtain ⟨literal, lower, upper⟩ := chosen.1.literal_around inside behind closed
        refine ⟨⟨token, span⟩, List.mem_cons_self, literal, ?_, ?_⟩
        · dsimp only
          omega
        · rw [Text.byteLength_append] at stop
          dsimp only
          omega

end Lexer

def tokensBefore (position : Nat) (lexemes : List Lexeme) : List Token :=
  (lexemes.filter fun lexeme => lexeme.span.start < position).map Lexeme.token

theorem count_braces {wanted : Block.Brace → Bool} {token : Token}
    (same : ∀ lexeme : Lexeme, (lexeme.brace?.map wanted).getD false = (lexeme.token == token))
    (lexemes : List Lexeme) :
    (lexemes.filterMap Lexeme.brace?).countP wanted = (lexemes.map Lexeme.token).count token := by
  rw [List.countP_filterMap, List.count, List.countP_map]
  congr 1
  funext lexeme
  exact same lexeme

/-- The braces that are counted up to a point of a text are the tokens that begin before it. -/
theorem Lexer.Cut.bracesFrom_prefix {before after : Text} {found : List Lexeme}
    (cut : Lexer.Cut 0 (before ++ after) found) :
    Block.bracesFrom false 0 before =
      (found.filter fun lexeme => lexeme.span.start < before.byteLength).filterMap
        Lexeme.brace? := by
  have whole := cut.bracesFrom_eq
  rw [Block.bracesFrom_append, Nat.zero_add] at whole
  have split := congrArg (List.filter fun brace => brace.position < before.byteLength) whole
  have first : ∀ brace ∈ Block.bracesFrom false 0 before,
      decide (brace.position < before.byteLength) = true := by
    intro brace member
    have := Block.bracesFrom_bounds _ _ _ brace member
    simpa using this
  have later : ∀ brace ∈
      Block.bracesFrom (Block.literalAfter false before) before.byteLength after,
      ¬ decide (brace.position < before.byteLength) = true := by
    intro brace member
    have := Block.bracesFrom_bounds _ _ _ brace member
    simpa using this.1
  rw [List.filter_append, List.filter_eq_self.2 first, List.filter_eq_nil_iff.2 later,
    List.append_nil] at split
  rw [split, List.filter_filterMap, List.filterMap_filter]
  congr 1
  funext lexeme
  obtain ⟨token, span⟩ := lexeme
  cases token <;> simp [Lexeme.brace?, Option.filter]

theorem Lexer.Cut.depth_eq {before after : Text} {found : List Lexeme}
    (cut : Lexer.Cut 0 (before ++ after) found) {depth reached : Nat}
    (inside : Block.scan? depth before = some (.inside reached)) :
    reached + (tokensBefore before.byteLength found).count .rightBrace =
      depth + (tokensBefore before.byteLength found).count .leftBrace := by
  rw [Block.scan?, Block.scanFrom_eq_countBraces, cut.bracesFrom_prefix] at inside
  have counts := Block.depth_of_countBraces inside
  have opening : ∀ lexeme : Lexeme,
      (lexeme.brace?.map fun brace => brace.opens).getD false =
        (lexeme.token == .leftBrace) := by
    rintro ⟨token, span⟩
    cases token <;> rfl
  have closing : ∀ lexeme : Lexeme,
      (lexeme.brace?.map fun brace => !brace.opens).getD false =
        (lexeme.token == .rightBrace) := by
    rintro ⟨token, span⟩
    cases token <;> rfl
  rwa [count_braces opening, count_braces closing] at counts

/-- What is read of a line: the whole of it, the text behind the brace of a header, and the texts
before and after the brace that closes a block. -/
inductive Line.Reads (line : Line) : Text → Prop
  | whole : line.Reads line.text
  | bodyStart {construct : Construct} {bodyStart : Text} :
      line.Opens construct bodyStart → line.Reads bodyStart
  | head {depth position : Nat} {head rest tail : Text} :
      Block.scan? depth line.text = some (.closed position) →
      line.text.cutAt? position = some (head, rest) →
      line.text.dropBytes? (position + 1) = some tail → line.Reads head
  | tail {depth position : Nat} {head rest tail : Text} :
      Block.scan? depth line.text = some (.closed position) →
      line.text.cutAt? position = some (head, rest) →
      line.text.dropBytes? (position + 1) = some tail → line.Reads tail

theorem Line.Reads.piece {line : Line} {part : Text} (reads : line.Reads part) :
    Text.Piece part line.text := by
  cases reads with
  | whole => exact .refl line.text
  | bodyStart opens => exact opens.piece
  | head closed cut dropped => exact (Block.closed_pieces closed cut dropped).1
  | tail closed cut dropped => exact (Block.closed_pieces closed cut dropped).2

def Line.Stripped (source : Text) (line : Line) : Prop :=
  ∃ physical ∈ source.lines, ∃ begins, Text.Piece line.text (Comment.strip begins physical).1

theorem codeLines_stripped (source : Text) : ∀ line ∈ codeLines source, line.Stripped source := by
  intro line member
  obtain ⟨text, code, kept⟩ := exists_of_mem_numbered member
  obtain ⟨same, _⟩ := Line.of_trimmed? kept
  obtain ⟨physical, among, begins, rfl⟩ := Comment.exists_strip_of_mem_stripLines code
  refine ⟨physical, among, begins, ?_⟩
  rw [same]
  exact Text.trim_piece _

theorem Line.stripped_inherited (source : Text) : InheritedByPieces (Stripped source) := by
  rintro line other text ⟨physical, among, begins, part⟩ piece kept
  obtain ⟨rfl, _⟩ := of_trimmed? kept
  exact ⟨physical, among, begins, (Text.trim_piece text).trans (piece.trans part)⟩

/-- The three readers agree on a text and its lexemes: the braces that are counted are the tokens,
none of them is inside a literal, and where a comment would begin there is a literal. -/
structure InStep (text : Text) (found : List Lexeme) : Prop where
  braces : Block.bracesFrom false 0 text = found.filterMap Lexeme.brace?
  counted : ∀ depth, Block.scan? depth text =
    Block.countBraces depth (found.filterMap Lexeme.brace?)
  depth : ∀ before after depth reached, text = before ++ after →
    Block.scan? depth before = some (.inside reached) →
    reached + (tokensBefore before.byteLength found).count .rightBrace =
      depth + (tokensBefore before.byteLength found).count .leftBrace
  apart : ∀ brace ∈ Block.bracesFrom false 0 text, ∀ lexeme ∈ found,
    (∃ content, lexeme.token = .text content) →
      brace.position < lexeme.span.start ∨ lexeme.span.stop ≤ brace.position
  comments : ∀ before c after, text = before ++ '/' :: c :: after → c = '/' ∨ c = '*' →
    ∃ lexeme ∈ found, (∃ content, lexeme.token = .text content) ∧
      lexeme.span.start < before.byteLength ∧ before.byteLength + 2 < lexeme.span.stop

theorem Lexer.Cut.brace_apart {text : Text} {found : List Lexeme} (cut : Lexer.Cut 0 text found)
    {brace : Block.Brace} (member : brace ∈ found.filterMap Lexeme.brace?) {lexeme : Lexeme}
    (inside : lexeme ∈ found) (other : lexeme.brace? = none) :
    brace.position < lexeme.span.start ∨ lexeme.span.stop ≤ brace.position := by
  obtain ⟨marked, among, counted⟩ := List.mem_filterMap.1 member
  have different : marked ≠ lexeme := by
    rintro rfl
    rw [other] at counted
    cases counted
  have position : brace.position = marked.span.start := by
    obtain ⟨token, span⟩ := marked
    cases token <;> cases counted <;> rfl
  obtain ⟨earlier, later, rfl⟩ := List.append_of_mem among
  obtain ⟨_, behind, before⟩ := List.pairwise_append.1 cut.ordered
  rcases List.mem_append.1 inside with first | last
  · have order := before lexeme first marked List.mem_cons_self
    exact .inr (by omega)
  · rcases List.mem_cons.1 last with same | after
    · exact absurd same.symm different
    · have order := (List.pairwise_cons.1 behind).1 lexeme after
      have nonempty := marked.span.nonempty
      exact .inl (by omega)

theorem Lexer.Cut.inStep {text : Text} {found : List Lexeme} (cut : Lexer.Cut 0 text found)
    (unmarked : Comment.Unmarked false text) : InStep text found where
  braces := cut.bracesFrom_eq
  counted depth := by rw [Block.scan?, Block.scanFrom_eq_countBraces, cut.bracesFrom_eq]
  depth before after depth reached same inside := by
    subst same
    exact cut.depth_eq inside
  apart brace member lexeme inside literal := by
    rw [cut.bracesFrom_eq] at member
    apply cut.brace_apart member inside
    obtain ⟨content, same⟩ := literal
    rw [Lexeme.brace?, same]
  comments before c after same mark := by
    have inside := unmarked before c after same mark
    have plain : '"' ∉ ['/', c] := by rcases mark with rfl | rfl <;> decide
    have width : Text.byteLength ['/', c] = 2 := by rcases mark with rfl | rfl <;> rfl
    have whole : text = before ++ (['/', c] ++ after) := same
    have around := cut.literal_around whole inside plain
    rwa [width, Nat.zero_add] at around

/-- What the readers of a script agree on, for a text that code is read from. Nothing that the
script has inside a literal is taken out of it. -/
structure Text.Agreed (source part : Text) : Prop where
  stripped : Comment.strip false part = (part, false)
  inStep : ∀ found, lexemes part = .ok found → InStep part found
  literals : ∀ found, lexemes part = .ok found → ∀ lexeme ∈ found, ∀ content,
    lexeme.token = .text content → ∃ line ∈ source.lines, '"' :: content ++ ['"'] <:+: line

theorem Line.Stripped.agreed {source : Text} {line : Line} (kept : line.Stripped source)
    {part : Text} (reads : line.Reads part) : Text.Agreed source part := by
  obtain ⟨physical, among, begins, piece⟩ := kept
  have inner := reads.piece.trans piece
  have unmarked := (Comment.strip_unmarked begins physical).piece inner
  refine ⟨Comment.strip_of_unmarked unmarked, ?_, ?_⟩
  · intro found read
    exact (Lexer.lexemes_eq_ok_iff.1 read).inStep unmarked
  · intro found read lexeme member content literal
    obtain ⟨before, word, after, same, outside, spells, _⟩ :=
      Block.exists_before_lexeme (Lexer.lexemes_eq_ok_iff.1 read) member
    rw [literal] at spells
    obtain ⟨rfl, closed⟩ := Block.word_of_text spells
    exact ⟨physical, among, Comment.literal_infix_of_piece inner same closed outside⟩

namespace Execution

/-- Whatever a run of a script reads code from, the reader that leaves out comments, the one that
counts braces and the one that cuts lexemes agree on what is inside its literals: for all lines of
the script, and in every state that is reached, for every line that its cursor leads to and every
line of a body. -/
theorem readers_agree (depth : Nat) (streams : Streams) (source : Text) :
    (∀ line ∈ codeLines source, ∀ part, line.Reads part → Text.Agreed source part) ∧
    ∀ inner frame cursor world, Reached depth streams source inner frame cursor world →
      (∀ pending, Leads cursor pending →
        ∀ line ∈ pending, ∀ part, line.Reads part → Text.Agreed source part) ∧
      (∀ function, frame = some function →
        ∀ line ∈ function.body, ∀ part, line.Reads part → Text.Agreed source part) ∧
      world.scope.Bodies fun body =>
        ∀ line ∈ body, ∀ part, line.Reads part → Text.Agreed source part := by
  have start := codeLines_stripped source
  have inherited := Line.stripped_inherited source
  refine ⟨fun line member part reads => (start line member).agreed reads, ?_⟩
  intro inner frame cursor world reached
  obtain ⟨lines, framed, bodies⟩ := reached.inherited inherited start
  refine ⟨?_, ?_, ?_⟩
  · intro pending leads line member part reads
    exact (leads.inherited inherited lines line member).agreed reads
  · intro function same line member part reads
    exact (framed function same line member).agreed reads
  · intro name function found line member part reads
    exact (bodies name function found line member).agreed reads

def bracedLiteral : Text := "void f() \x7b purr ~> \"/* \x7d\"; \x7d // \x7b".toList

theorem codeLines_bracedLiteral : codeLines bracedLiteral =
    [⟨1, "void f() \x7b purr ~> \"/* \x7d\"; \x7d".toList⟩] := by
  decide +kernel

theorem readers_agree_on_bracedLiteral :
    (∃ found, found.map Lexeme.token =
        [.keyword .purr, .arrow, .text "/* \x7d".toList, .semicolon] ∧
      InStep "purr ~> \"/* \x7d\";".toList found) ∧
    Comment.strip false "purr ~> \"/* \x7d\";".toList =
      ("purr ~> \"/* \x7d\";".toList, false) ∧
    ∃ line ∈ bracedLiteral.lines, "\"/* \x7d\"".toList <:+: line := by
  obtain ⟨_, states⟩ := readers_agree 0 .unlimited bracedLiteral
  have first := @Reached.start 0 .unlimited bracedLiteral
  rw [codeLines_bracedLiteral] at first
  obtain ⟨_, _, bodies⟩ := states _ _ _ _ (first.next rfl)
  have agreed := bodies ['f'] _ rfl _ List.mem_cons_self _ .whole
  refine ⟨⟨_, rfl, agreed.inStep _ rfl⟩, agreed.stripped, ?_⟩
  exact agreed.literals _ rfl _ (.tail _ (.tail _ (.head _))) _ rfl

end Execution

end Purr
