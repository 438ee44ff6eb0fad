import Purr.Proofs.BlockStructure

/-!
# Lines that hold a value

A declaration and a return are known words, an expression and a semicolon. The words are read in the
same way whatever follows them, so such a line is made of tokens exactly if its expression is, and
it holds the fragment of the expression alone. An expression is a text without a semicolon among its
lexemes. How the line is recognized does not depend on anything else in it, except that a
declaration has a form of its own for a single call.
-/

namespace Purr

set_option autoImplicit false

namespace Lexer

/-- A text begins with certain lexemes, whatever follows it. -/
def Opening (start : Nat) (opening : Text) (words : List Lexeme) : Prop :=
  ∀ rest, lexemesFrom start 0 (opening ++ rest) =
    (lexemesFrom (start + opening.byteLength) 0 rest).map fun later => words ++ later

theorem Opening.append {start : Nat} {first second : Text} {words more : List Lexeme}
    (one : Opening start first words) (two : Opening (start + first.byteLength) second more) :
    Opening start (first ++ second) (words ++ more) := by
  intro rest
  rw [List.append_assoc, one, two, Text.byteLength_append, ← Nat.add_assoc]
  cases lexemesFrom (start + first.byteLength + second.byteLength) 0 rest with
  | error refusal => rfl
  | ok later => simp [Except.map]

theorem exists_opening {word : Text} {token : Token} (start : Nat)
    (longest : ∀ rest, Longest (word ++ ' ' :: rest) word (' ' :: rest))
    (chosen : Chosen word token) :
    ∃ span, Opening start (word ++ [' ']) [⟨token, span⟩] := by
  have width : start < start + word.byteLength :=
    Nat.lt_add_of_pos_right (longest []).byteLength_pos
  refine ⟨⟨start, start + word.byteLength, width⟩, ?_⟩
  intro rest
  have read := lexemesFrom_longest ⟨start, start + word.byteLength, width⟩ (longest rest)
    (longest rest).length_eq chosen rfl
  rw [lexemesFrom_skip _ _ rfl] at read
  rw [List.append_assoc, Text.byteLength_append, ← Nat.add_assoc]
  exact read

theorem lexemes_opening {opening : Text} {words : List Lexeme} (opens : Opening 0 opening words)
    {expression : Text} {own : List Lexeme} (cut : Cut 0 expression own) :
    ∃ semicolon, lexemes (opening ++ expression ++ [';']) =
      .ok (words ++ (own.map (Lexeme.moveOn opening.byteLength) ++ [⟨.semicolon, semicolon⟩])) := by
  have moved : Cut opening.byteLength expression (own.map (Lexeme.moveOn opening.byteLength)) :=
    cut.moveOn opening.byteLength
  obtain ⟨semicolon, last⟩ : ∃ semicolon,
      Cut (opening.byteLength + expression.byteLength) [';'] [⟨.semicolon, semicolon⟩] :=
    ⟨_, lexemesFrom_eq_ok_iff.1 rfl⟩
  have whole := moved.append_separator (by decide) (by decide) last
  refine ⟨semicolon, ?_⟩
  rw [lexemes, List.append_assoc, opens, Nat.zero_add, whole.lexemesFrom_eq]
  rfl

end Lexer

/-- A fragment is that of an expression that stands alone on a line: of a text made of tokens, none
of which is a semicolon. -/
structure Fragment.OfExpression (expression : Text) (number : Nat) (own : List Lexeme)
    (fragment : Fragment) : Prop where
  cut : Lexer.Cut 0 expression own
  single : Statement.hasSemicolon own = false
  found : ofLexemes? expression own number = some fragment

def returnOpening : Text := "return ".toList

def returnLine (expression : Text) : Text := returnOpening ++ expression ++ [';']

def declarationOpening (kind : Kind) (name : Text) : Text :=
  kind.word ++ [' '] ++ (name ++ [' '] ++ "~> ".toList)

def declarationLine (kind : Kind) (name expression : Text) : Text :=
  declarationOpening kind name ++ expression ++ [';']

theorem exists_opening_declaration (kind : Kind) {name : Text}
    (named : Lexer.Chosen name (.name name)) :
    ∃ word called arrow, Lexer.Opening 0 (declarationOpening kind name)
      [⟨.keyword (ReturnKind.value kind).keyword, word⟩, ⟨.name name, called⟩, ⟨.arrow, arrow⟩] := by
  have spelled : kind.word = (ReturnKind.value kind).keyword.word := by cases kind <;> rfl
  have arrowLongest (rest : Text) :
      Lexer.Longest (['~', '>'] ++ ' ' :: rest) ['~', '>'] (' ' :: rest) :=
    .of_length (@Lexer.Spells.mark .arrow rfl) rfl
  obtain ⟨word, first⟩ := Lexer.exists_opening 0
    (fun rest => Lexer.longest_keyword _ rest rfl) (Lexer.chosen_keyword _)
  obtain ⟨called, second⟩ := Lexer.exists_opening _
    (fun rest => Lexer.longest_name rest named rfl) named
  obtain ⟨arrow, third⟩ := Lexer.exists_opening _ arrowLongest (@Lexer.chosen_mark .arrow rfl)
  rw [declarationOpening, spelled]
  exact ⟨word, called, arrow, first.append (second.append third)⟩

namespace Statement

theorem beforeSemicolon?_append (lexemes : List Lexeme) (semicolon : Span) :
    beforeSemicolon? (lexemes ++ [⟨.semicolon, semicolon⟩]) = some lexemes := by
  rw [beforeSemicolon?, List.getLast?_concat, List.dropLast_concat]

theorem beforeOnlySemicolon?_append {lexemes : List Lexeme} (single : hasSemicolon lexemes = false)
    (semicolon : Span) :
    beforeOnlySemicolon? (lexemes ++ [⟨.semicolon, semicolon⟩]) = some lexemes := by
  rw [beforeOnlySemicolon?, beforeSemicolon?_append]
  simp [single]

theorem hasSemicolon_moveOn (offset : Nat) (lexemes : List Lexeme) :
    hasSemicolon (lexemes.map (Lexeme.moveOn offset)) = hasSemicolon lexemes := by
  rw [hasSemicolon, List.any_map]
  rfl

theorem withFragment_eq {text : Text} {number : Nat} {run : List Lexeme} {fragment : Fragment}
    (found : Fragment.ofLexemes? text run number = some fragment)
    (make : Fragment → Option Statement) :
    withFragment text number run make = .ok (make fragment) := by
  rw [withFragment, found]
  rfl

end Statement

variable {expression : Text} {number : Nat} {own : List Lexeme} {fragment : Fragment}

theorem Fragment.OfExpression.inside (held : OfExpression expression number own fragment)
    (opening : Text) :
    ofLexemes? (opening ++ expression ++ [';']) (own.map (Lexeme.moveOn opening.byteLength)) number =
      some fragment :=
  (ofLexemes?_inside opening [';'] held.cut number).trans held.found

namespace Statement

theorem declared?_append {lexemes : List Lexeme} (single : hasSemicolon lexemes = false)
    (kind : Kind) (name : Text) (word called arrow semicolon : Span) :
    declared? (⟨.keyword (ReturnKind.value kind).keyword, word⟩ :: ⟨.name name, called⟩ ::
        ⟨.arrow, arrow⟩ :: (lexemes ++ [⟨.semicolon, semicolon⟩])) =
      some (kind, name, lexemes) := by
  have known : (Token.keyword (ReturnKind.value kind).keyword).kind? = some kind := by
    cases kind <;> rfl
  rw [declared?, known, beforeOnlySemicolon?_append single]

/-- A declaration holds the fragment of its expression. -/
theorem ofLine_declarationLine (kind : Kind) {name : Text}
    (named : Lexer.Chosen name (.name name))
    (held : fragment.OfExpression expression number own) :
    ofLine ⟨number, declarationLine kind name expression⟩ =
      .ok (if isSingleCall fragment.lexemes then .callDeclaration kind name fragment
        else .declaration kind name fragment) := by
  obtain ⟨word, called, arrow, opens⟩ := exists_opening_declaration kind named
  obtain ⟨semicolon, read⟩ := Lexer.lexemes_opening opens held.cut
  have inside := held.inside (declarationOpening kind name)
  have single := held.single
  rw [← hasSemicolon_moveOn (declarationOpening kind name).byteLength] at single
  have declared := declared?_append single kind name word called arrow semicolon
  rw [ofLine, declarationLine, read]
  change ofLexemes _ _ _ = _
  simp only [List.cons_append, List.nil_append]
  rw [ofLexemes, callDeclarationForm, declarationForm, declared]
  dsimp only
  rw [withFragment_eq inside, withFragment_eq inside]
  cases isSingleCall fragment.lexemes <;> cases kind <;> rfl

end Statement

namespace Execution

variable (depth : Nat) (frame : Option Function)

theorem lines_action {line : Line} {work : Action} {rest : List Line}
    (read : Item.read line rest = .action work rest) :
    lines depth frame (line :: rest) =
      action (invoke depth) frame line work >>= fun flow =>
        flow.andThen (lines depth frame rest) := by
  rw [lines_cons_read, read]
  simp only [Item.alone, code_action, bind_assoc, andThen_done, pure_bind]
  rfl

theorem lines_return (function : Function) {line : Line} {value : Option Fragment}
    (recognized : Statement.ofLine line = .ok (.result value)) (rest : List Line) :
    lines depth (some function) (line :: rest) =
      (World.evaluate fun scope =>
          Evaluation.returned (invoke depth) scope function.header value) >>= fun value =>
        pure (.returned value) := by
  have read : Item.read line rest = .action (.result value) rest := by
    rw [Item.read, recognized]
  rw [lines_action depth (some function) read, action, result, bind_assoc]
  rfl

theorem lines_declaration {line : Line} {kind : Kind} {name : Text} {value : Fragment}
    (recognized : Statement.ofLine line = .ok (.declaration kind name value)) (rest : List Line) :
    lines depth frame (line :: rest) =
      declare (invoke depth) kind name value >>= fun _ => lines depth frame rest := by
  have read : Item.read line rest = .action (.declare kind name value) rest := by
    rw [Item.read, recognized]
  rw [lines_action depth frame read, action, bind_assoc]
  rfl

end Execution

end Purr
