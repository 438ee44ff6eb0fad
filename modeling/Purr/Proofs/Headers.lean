import Purr.Proofs.Items
import Purr.Proofs.Lexing.Seams
import Purr.Proofs.Parentheses

/-!
# Headers

How a header is recognized whose text is put together from its parts. What stands between its
parentheses may be any text with paired parentheses; the header is made of tokens exactly if this
text is, and its fragment or its parameters are those of the text alone.
-/

namespace Purr

set_option autoImplicit false

theorem between?_append {start stop : Nat} {lexemes later : List Lexeme}
    (inside : stop ≤ lexemes.length) :
    between? (lexemes ++ later) start stop = between? lexemes start stop := by
  simp only [between?, List.length_append, List.take_append_of_le_length inside]
  by_cases ordered : start ≤ stop
  · rw [if_pos ⟨ordered, by omega⟩, if_pos ⟨ordered, inside⟩]
  · rw [if_neg (by omega), if_neg (by omega)]

namespace Statement

theorem closingBrace?_of_paired (before : List Lexeme) {inner : List Lexeme}
    (opening close brace : Span) (paired : Paired (inner.map Lexeme.token)) :
    closingBrace? (before ++ ⟨.leftParen, opening⟩ :: inner ++
        [⟨.rightParen, close⟩, ⟨.leftBrace, brace⟩]) before.length =
      some (before.length + inner.length + 1, brace) := by
  have partner : matchingParen? (before ++ ⟨.leftParen, opening⟩ :: inner ++
      [⟨.rightParen, close⟩, ⟨.leftBrace, brace⟩]) before.length =
        some (before.length + inner.length + 1) := by
    rw [matchingParen?, List.append_assoc, List.drop_left, List.cons_append, closing?,
      closing?_append _ paired]
    simp only [closing?, Option.map_some, Option.some.injEq]
    omega
  have behind : (before ++ ⟨.leftParen, opening⟩ :: inner ++
      [⟨.rightParen, close⟩, ⟨.leftBrace, brace⟩])[before.length + inner.length + 1 + 1]? =
        some ⟨.leftBrace, brace⟩ := by
    rw [List.append_assoc, List.getElem?_append_right (by omega), List.cons_append,
      show before.length + inner.length + 1 + 1 - before.length = inner.length + 1 + 1 by omega,
      List.getElem?_cons_succ, List.getElem?_append_right (by omega), Nat.add_sub_cancel_left]
    rfl
  rw [closingBrace?, partner]
  dsimp only
  rw [behind]

theorem between?_inner (before : List Lexeme) (opening : Lexeme) (inner later : List Lexeme) :
    between? (before ++ opening :: inner ++ later) (before.length + 1)
      (before.length + inner.length + 1) = some inner := by
  have whole : before ++ opening :: inner ++ later = (before ++ [opening]) ++ (inner ++ later) := by
    simp
  have length : (before ++ [opening]).length = before.length + 1 := List.length_append
  have bounds : before.length + 1 ≤ before.length + inner.length + 1 ∧
      before.length + inner.length + 1 ≤ (before ++ opening :: inner ++ later).length := by
    rw [List.length_append, List.length_append, List.length_cons]
    omega
  rw [between?, if_pos bounds, List.drop_take, whole, ← length, List.drop_left, length,
    show before.length + inner.length + 1 - (before.length + 1) = inner.length by omega,
    List.take_left]

theorem closingBrace?_split {lexemes behind : List Lexeme} {opening close : Nat}
    {span brace : Span} (first : lexemes.drop opening = ⟨.leftParen, span⟩ :: behind)
    (found : closingBrace? lexemes opening = some (close, brace)) :
    ∃ earlier later, lexemes = earlier ++ ⟨.leftBrace, brace⟩ :: later ∧
      earlier.length = close + 1 ∧ opening < close ∧
        closingBrace? (earlier ++ [⟨.leftBrace, brace⟩]) opening = some (close, brace) := by
  obtain ⟨ordered, _, _⟩ := closingBrace?_bounds first found
  unfold closingBrace? at found
  split at found
  next position closes =>
    split at found
    next braced =>
      cases found
      obtain ⟨bound, same⟩ := List.getElem?_eq_some_iff.1 braced
      have split : lexemes = lexemes.take (close + 1) ++
          ⟨.leftBrace, brace⟩ :: lexemes.drop (close + 1 + 1) := by
        rw [← same, List.getElem_cons_drop, List.take_append_drop]
      have length : (lexemes.take (close + 1)).length = close + 1 :=
        List.length_take_of_le (by omega)
      refine ⟨lexemes.take (close + 1), lexemes.drop (close + 1 + 1), split, length, ordered, ?_⟩
      rw [split, List.append_cons] at closes
      have partner := matchingParen?_of_append closes (by omega) (by
        rw [List.length_append, length]
        omega)
      have last : (lexemes.take (close + 1) ++ [⟨.leftBrace, brace⟩])[close + 1]? =
          some ⟨.leftBrace, brace⟩ := by
        rw [List.getElem?_append_right (by omega), length, Nat.sub_self]
        rfl
      simp only [closingBrace?, partner, last]
    next => cases found
  next => cases found

section

variable {lexemes : List Lexeme} {brace : Span}

theorem functionParts?_split {name : Text} {kind : ReturnKind} {close : Nat}
    (parts : functionParts? lexemes = some (name, kind, close, brace)) :
    ∃ earlier later, lexemes = earlier ++ ⟨.leftBrace, brace⟩ :: later ∧
      earlier.length = close + 1 ∧
        functionParts? (earlier ++ [⟨.leftBrace, brace⟩]) = some (name, kind, close, brace) := by
  unfold functionParts? at parts
  split at parts
  next word first name called opening rest =>
    split at parts
    next returns closes =>
      cases parts
      obtain ⟨earlier, later, same, length, ordered, closed⟩ := closingBrace?_split rfl closes
      refine ⟨earlier, later, same, length, ?_⟩
      rcases earlier with _ | ⟨a, _ | ⟨b, _ | ⟨c, more⟩⟩⟩
      · cases length
      · simp only [List.length_cons, List.length_nil] at length
        omega
      · simp only [List.length_cons, List.length_nil] at length
        omega
      · cases same
        simp only [List.cons_append, functionParts?, returns] at closed ⊢
        rw [closed]
    next => cases parts
  next => cases parts

theorem branchParts?_split {close : Nat} (parts : branchParts? lexemes = some (close, brace)) :
    ∃ earlier later, lexemes = earlier ++ ⟨.leftBrace, brace⟩ :: later ∧
      earlier.length = close + 1 ∧
        branchParts? (earlier ++ [⟨.leftBrace, brace⟩]) = some (close, brace) := by
  unfold branchParts? at parts
  split at parts
  next word opening rest =>
    obtain ⟨earlier, later, same, length, ordered, closed⟩ := closingBrace?_split rfl parts
    refine ⟨earlier, later, same, length, ?_⟩
    rcases earlier with _ | ⟨a, _ | ⟨b, more⟩⟩
    · cases length
    · simp only [List.length_cons, List.length_nil] at length
      omega
    · cases same
      exact closed
  next => cases parts

theorem otherwiseBrace?_split (braced : otherwiseBrace? lexemes = some brace) :
    ∃ word later, lexemes = [⟨.keyword .elseWord, word⟩] ++ ⟨.leftBrace, brace⟩ :: later := by
  unfold otherwiseBrace? at braced
  split at braced
  next word _ later =>
    cases braced
    exact ⟨word, later, rfl⟩
  next => cases braced

end

end Statement

theorem Lexeme.moveBack?_moveOn (offset start : Nat) (lexeme : Lexeme) :
    (lexeme.moveOn offset).moveBack? (offset + start) = lexeme.moveBack? start := by
  simp only [moveBack?, moveOn, Nat.add_le_add_iff_left, Nat.add_sub_add_left]

/-- The fragment of a text inside a longer one is the fragment of the text alone. -/
theorem Fragment.ofLexemes?_inside {inner : Text} {own : List Lexeme} (before after : Text)
    (cut : Lexer.Cut 0 inner own) (line : Nat) :
    ofLexemes? (before ++ inner ++ after) (own.map (Lexeme.moveOn before.byteLength)) line =
      ofLexemes? inner own line := by
  cases own with
  | nil => rfl
  | cons first later =>
      obtain ⟨last, final⟩ : ∃ last, (first :: later).getLast? = some last :=
        ⟨_, List.getLast?_eq_some_getLast (List.cons_ne_nil _ _)⟩
      obtain ⟨gap, source, rest, rfl, starts, stops, _⟩ := cut.within.enclosed rfl final
      rw [Nat.zero_add] at starts
      have slice : (gap ++ source ++ rest).slice? first.span.start last.span.stop = some source :=
        Text.slice?_append starts stops
      have moved := Text.slice?_inside before after slice
      have lexemes : ((first :: later).map (Lexeme.moveOn before.byteLength)).mapM
          (Lexeme.moveBack? (before.byteLength + first.span.start)) =
            (first :: later).mapM (Lexeme.moveBack? first.span.start) := by
        rw [List.mapM_map]
        congr 1
        funext lexeme
        exact lexeme.moveBack?_moveOn _ _
      have lastMoved : ((first :: later).map (Lexeme.moveOn before.byteLength)).getLast? =
          some (last.moveOn before.byteLength) := by
        rw [List.getLast?_map, final]
        rfl
      simp only [ofLexemes?, List.map_cons, List.head?_cons] at lexemes lastMoved ⊢
      simp only [lastMoved, final, slice]
      simp only [Lexeme.moveOn] at moved lexemes ⊢
      rw [moved, lexemes]

def Fragment.ofText? (text : Text) (line : Nat) : Option Fragment :=
  match Purr.lexemes text with
  | .ok found => ofLexemes? text found line
  | .error _ => none

theorem splitFrom_moveOn (separator : Token) (offset depth : Nat) (lexemes : List Lexeme) :
    splitFrom separator depth (lexemes.map (Lexeme.moveOn offset)) =
      (splitFrom separator depth lexemes).map (List.map (Lexeme.moveOn offset)) := by
  have extend (lexeme : Lexeme) (pieces : List (List Lexeme)) :
      extendFirst (lexeme.moveOn offset) (pieces.map (List.map (Lexeme.moveOn offset))) =
        (extendFirst lexeme pieces).map (List.map (Lexeme.moveOn offset)) := by
    cases pieces <;> rfl
  induction lexemes generalizing depth with
  | nil => rfl
  | cons lexeme rest ih =>
      have token : (lexeme.moveOn offset).token = lexeme.token := rfl
      rw [List.map_cons, splitFrom, splitFrom, token]
      split
      next => rw [ih, List.map_cons, List.map_nil]
      next => rw [ih, extend]

namespace Statement

theorem parameter?_moveOn (offset : Nat) (piece : List Lexeme) :
    parameter? (piece.map (Lexeme.moveOn offset)) = parameter? piece := by
  unfold parameter?
  rcases piece with _ | ⟨⟨word, _⟩, _ | ⟨⟨token, _⟩, _ | ⟨third, others⟩⟩⟩
  · rfl
  · rfl
  · cases token <;> rfl
  · cases token <;> rfl

/-- The parameters that lexemes declare do not depend on where they stand. -/
theorem parameters_moveOn (offset : Nat) (lexemes : List Lexeme) :
    parameters (lexemes.map (Lexeme.moveOn offset)) = parameters lexemes := by
  rw [parameters, parameters, splitTopLevel, splitTopLevel, splitFrom_moveOn, List.filterMap_map]
  congr 1
  funext piece
  exact parameter?_moveOn offset piece

end Statement

def headerEnd : Text := [')', ' ', '\x7b']

def branchHeader (condition : Text) : Text := ['i', 'f', ' ', '('] ++ condition ++ headerEnd

def functionHeader (kind : ReturnKind) (name parameters : Text) : Text :=
  (kind.word ++ [' '] ++ name ++ ['(']) ++ parameters ++ headerEnd

def ReturnKind.keyword : ReturnKind → Keyword
  | .value .text => .str
  | .value .number => .num
  | .value .boolean => .bool
  | .nothing => .void

namespace Lexer

/-- The lexemes of a header are those before its parenthesis, those of the text between the
parentheses, and the two at the end. -/
theorem exists_of_cut_headerEnd {offset : Nat} {inner : Text} {lexemes : List Lexeme}
    (cut : Cut offset (inner ++ headerEnd) lexemes) :
    ∃ own close brace, Cut 0 inner own ∧ brace.stop = offset + inner.byteLength + 3 ∧
      lexemes = own.map (Lexeme.moveOn offset) ++ [⟨.rightParen, close⟩, ⟨.leftBrace, brace⟩] := by
  obtain ⟨first, later, rfl, moved, behind⟩ := cut.before_separator (by decide) (by decide)
  obtain ⟨own, alone, rfl⟩ := @exists_moveOn offset 0 _ _ moved
  have last (start : Nat) : lexemesFrom start 0 headerEnd =
      .ok [⟨.rightParen, start, start + 1, by omega⟩,
        ⟨.leftBrace, start + 2, start + 3, by omega⟩] := rfl
  obtain rfl := Except.ok.inj ((last _).symm.trans behind.lexemesFrom_eq)
  exact ⟨own, _, _, alone, rfl, rfl⟩

theorem exists_of_cut_branchHeader {condition : Text} {lexemes : List Lexeme}
    (cut : Cut 0 (branchHeader condition) lexemes) :
    ∃ word opening own close brace, Cut 0 condition own ∧
      brace.stop = (branchHeader condition).byteLength ∧
      lexemes = [⟨.keyword .ifWord, word⟩] ++ ⟨.leftParen, opening⟩ ::
        own.map (Lexeme.moveOn 4) ++ [⟨.rightParen, close⟩, ⟨.leftBrace, brace⟩] := by
  have length : (branchHeader condition).byteLength = 4 + condition.byteLength + 3 := by
    rw [branchHeader, headerEnd, Text.byteLength_append, Text.byteLength_append]
    rfl
  have whole : branchHeader condition =
      Keyword.ifWord.word ++ ' ' :: '(' :: (condition ++ headerEnd) := by
    rw [branchHeader, List.append_assoc]
    rfl
  rw [length]
  rw [whole] at cut
  obtain ⟨word, _, rfl, afterWord⟩ := cut.after_keyword rfl
  obtain ⟨opening, _, rfl, afterParen⟩ := (afterWord.after_skipped rfl).after_leftParen
  obtain ⟨own, close, brace, alone, stop, rfl⟩ := exists_of_cut_headerEnd afterParen
  exact ⟨word, opening, own, close, brace, alone, stop, rfl⟩

theorem exists_of_cut_functionHeader {kind : ReturnKind} {name parameters : Text}
    {lexemes : List Lexeme} (named : Chosen name (.name name))
    (cut : Cut 0 (functionHeader kind name parameters) lexemes) :
    ∃ word called opening own close brace offset, Cut 0 parameters own ∧
      brace.stop = (functionHeader kind name parameters).byteLength ∧
      lexemes = [⟨.keyword kind.keyword, word⟩, ⟨.name name, called⟩] ++ ⟨.leftParen, opening⟩ ::
        own.map (Lexeme.moveOn offset) ++ [⟨.rightParen, close⟩, ⟨.leftBrace, brace⟩] := by
  have spelled : kind.word = kind.keyword.word := by
    cases kind with
    | value kind => cases kind <;> rfl
    | nothing => rfl
  have length : (functionHeader kind name parameters).byteLength =
      0 + kind.keyword.word.byteLength + 1 + name.byteLength + 1 + parameters.byteLength + 3 := by
    simp only [functionHeader, headerEnd, Text.byteLength_append, spelled, Nat.zero_add]
    rfl
  have whole : functionHeader kind name parameters =
      kind.keyword.word ++ ' ' :: (name ++ '(' :: (parameters ++ headerEnd)) := by
    simp only [functionHeader, spelled, List.append_assoc, List.cons_append, List.nil_append]
  rw [length]
  rw [whole] at cut
  obtain ⟨word, _, rfl, afterWord⟩ := cut.after_keyword rfl
  obtain ⟨called, _, rfl, afterName⟩ := (afterWord.after_skipped rfl).after_name named rfl
  obtain ⟨opening, _, rfl, afterParen⟩ := afterName.after_leftParen
  obtain ⟨own, close, brace, alone, stop, rfl⟩ := exists_of_cut_headerEnd afterParen
  exact ⟨word, called, opening, own, close, brace, _, alone, stop, rfl⟩

end Lexer

/-- The text between the parentheses of a header: the header is made of tokens, and the text closes
the parentheses that it opens and no other. -/
structure Enclosed (inner header : Text) : Prop where
  tokens : ∃ found, lexemes header = .ok found
  paired : ∀ found, lexemes inner = .ok found → Paired (found.map Lexeme.token)

theorem Enclosed.paired_moveOn {inner header : Text} {own : List Lexeme}
    (enclosed : Enclosed inner header) (alone : Lexer.Cut 0 inner own) (offset : Nat) :
    Paired ((own.map (Lexeme.moveOn offset)).map Lexeme.token) := by
  rw [List.map_map]
  exact enclosed.paired own (Lexer.lexemes_eq_ok_iff.2 alone)

namespace Statement

section

variable {text bodyStart : Text} {number : Nat} {lexemes : List Lexeme} {brace : Span}

theorem ofLexemes_function {name : Text} {kind : ReturnKind} {close : Nat} {inner : List Lexeme}
    (parts : functionParts? lexemes = some (name, kind, close, brace))
    (between : between? lexemes 3 close = some inner)
    (dropped : text.dropBytes? brace.stop = some bodyStart) :
    ofLexemes text number lexemes = .ok (.function ⟨name, kind, parameters inner⟩ bodyStart) := by
  have form : functionForm text lexemes =
      .ok (some (.function ⟨name, kind, parameters inner⟩ bodyStart)) := by
    simp only [functionForm, parts, between, dropped]
    rfl
  rw [ofLexemes, form]
  rfl

theorem ofLexemes_branch {close : Nat} {inner : List Lexeme} {condition : Fragment}
    (parts : branchParts? lexemes = some (close, brace))
    (between : between? lexemes 2 close = some inner)
    (found : Fragment.ofLexemes? text inner number = some condition)
    (dropped : text.dropBytes? brace.stop = some bodyStart)
    (noCall : beforeSemicolon? lexemes = none) :
    ofLexemes text number lexemes = .ok (.branch condition bodyStart) := by
  have form : branchForm text number lexemes = .ok (some (.branch condition bodyStart)) := by
    simp only [branchForm, parts, between, dropped]
    simp only [inRange, bind, Except.bind, found]
    rfl
  rw [ofLexemes, form, callForm, called?, noCall]
  unfold branchParts? at parts
  split at parts
  next => rfl
  next => cases parts

theorem ofLexemes_otherwise {word : Span}
    (dropped : text.dropBytes? brace.stop = some bodyStart) :
    ofLexemes text number [⟨.keyword .elseWord, word⟩, ⟨.leftBrace, brace⟩] =
      .ok (.otherwise bodyStart) := by
  have form : otherwiseForm text [⟨.keyword .elseWord, word⟩, ⟨.leftBrace, brace⟩] =
      .ok (some (.otherwise bodyStart)) := by
    simp only [otherwiseForm, otherwiseBrace?, dropped]
    rfl
  rw [ofLexemes, form]
  rfl

end

theorem functionParts?_of_paired {name : Text} {kind : ReturnKind}
    {word called opening close brace : Span} {inner : List Lexeme}
    (paired : Paired (inner.map Lexeme.token)) :
    functionParts? ([⟨.keyword kind.keyword, word⟩, ⟨.name name, called⟩] ++
        ⟨.leftParen, opening⟩ :: inner ++ [⟨.rightParen, close⟩, ⟨.leftBrace, brace⟩]) =
      some (name, kind, 2 + inner.length + 1, brace) := by
  have returnKind : (Token.keyword kind.keyword).returnKind? = some kind := by
    cases kind with
    | value kind => cases kind <;> rfl
    | nothing => rfl
  have braced := closingBrace?_of_paired [⟨.keyword kind.keyword, word⟩, ⟨.name name, called⟩]
    opening close brace paired
  simp only [List.cons_append, List.nil_append, List.length_cons, List.length_nil, Nat.zero_add]
    at braced ⊢
  simp only [functionParts?, returnKind, braced]

theorem branchParts?_of_paired {word opening close brace : Span} {inner : List Lexeme}
    (paired : Paired (inner.map Lexeme.token)) :
    branchParts? ([⟨.keyword .ifWord, word⟩] ++
        ⟨.leftParen, opening⟩ :: inner ++ [⟨.rightParen, close⟩, ⟨.leftBrace, brace⟩]) =
      some (1 + inner.length + 1, brace) :=
  closingBrace?_of_paired [⟨.keyword .ifWord, word⟩] opening close brace paired

/-- The header of a branch is recognized as one, with the fragment of its condition alone, and its
block begins with nothing. -/
theorem ofLine_branchHeader {condition : Text} (number : Nat)
    (enclosed : Enclosed condition (branchHeader condition)) :
    ∃ fragment, Fragment.ofText? condition number = some fragment ∧
      ofLine ⟨number, branchHeader condition⟩ = .ok (.branch fragment []) := by
  obtain ⟨found, read⟩ := enclosed.tokens
  obtain ⟨word, opening, own, close, brace, alone, stop, same⟩ :=
    Lexer.exists_of_cut_branchHeader (Lexer.lexemes_eq_ok_iff.1 read)
  obtain ⟨fragment, cutOut, _⟩ :=
    Fragment.ofLexemes?_of_within number alone.within (List.infix_refl own)
  have inside := Fragment.ofLexemes?_inside ['i', 'f', ' ', '('] headerEnd alone number
  rw [cutOut] at inside
  have noCall : beforeSemicolon? found = none := by
    rw [same, beforeSemicolon?, List.getLast?_append]
    rfl
  have parts : branchParts? found = some (1 + (own.map (Lexeme.moveOn 4)).length + 1, brace) := by
    rw [same]
    exact branchParts?_of_paired (enclosed.paired_moveOn alone 4)
  have between : between? found 2 (1 + (own.map (Lexeme.moveOn 4)).length + 1) =
      some (own.map (Lexeme.moveOn 4)) := by
    rw [same]
    exact between?_inner [⟨.keyword .ifWord, word⟩] _ _ _
  refine ⟨fragment, ?_, ?_⟩
  · rw [Fragment.ofText?, Lexer.lexemes_eq_ok_iff.2 alone]
    exact cutOut
  · rw [ofLine, read]
    exact ofLexemes_branch parts between inside (stop ▸ Text.dropBytes?_byteLength _) noCall

/-- The header of a function is recognized as one, with the parameters of the text between its
parentheses alone, and its block begins with nothing. -/
theorem ofLine_functionHeader {kind : ReturnKind} {name inner : Text} (number : Nat)
    (named : Lexer.Chosen name (.name name))
    (enclosed : Enclosed inner (functionHeader kind name inner)) :
    ∃ found, lexemes inner = .ok found ∧
      ofLine ⟨number, functionHeader kind name inner⟩ =
        .ok (.function ⟨name, kind, parameters found⟩ []) := by
  obtain ⟨found, read⟩ := enclosed.tokens
  obtain ⟨word, called, opening, own, close, brace, offset, alone, stop, rfl⟩ :=
    Lexer.exists_of_cut_functionHeader named (Lexer.lexemes_eq_ok_iff.1 read)
  refine ⟨own, Lexer.lexemes_eq_ok_iff.2 alone, ?_⟩
  rw [ofLine, read, ← parameters_moveOn offset]
  apply ofLexemes_function
  · exact functionParts?_of_paired (enclosed.paired_moveOn alone offset)
  · exact between?_inner [⟨.keyword kind.keyword, word⟩, ⟨.name name, called⟩] _ _ _
  · exact stop ▸ Text.dropBytes?_byteLength _

end Statement

end Purr
