import Purr.Proofs.Headers
import Purr.Proofs.Lexing.Borders

/-!
# What fragments are read as

A fragment keeps the lexemes that it was made of next to the text that it was cut out of the line.
The two do not fall apart: read again, the text gives these lexemes at these positions. So does the
text behind the brace of a header, which is read as the lexemes behind the brace.
-/

namespace Purr

set_option autoImplicit false

/-- A fragment that is read as the lexemes that it holds and has no gap at its ends. -/
structure Fragment.Faithful (fragment : Fragment) : Prop where
  read : Purr.lexemes fragment.source = .ok fragment.lexemes
  tight : Lexer.Tight fragment.source

theorem Fragment.Faithful.empty (line : Nat) : (Fragment.empty line).Faithful := ⟨rfl, .empty⟩

theorem Lexeme.moveBack?_zero (lexeme : Lexeme) : lexeme.moveBack? 0 = some lexeme := by
  simp [moveBack?]

theorem Fragment.ofLexemes?_of_tight {source : Text} {own : List Lexeme} (line : Nat)
    (some : own ≠ []) (cut : Lexer.Cut 0 source own) (tight : Lexer.Tight source) :
    ofLexemes? source own line = .some ⟨source, own, line⟩ := by
  obtain ⟨first, later, begins⟩ := List.exists_cons_of_ne_nil some
  have start : first.span.start = 0 := by
    rw [begins] at cut
    exact cut.start_of_first tight.first
  obtain ⟨last, final⟩ : ∃ last, own.getLast? = .some last :=
    ⟨_, List.getLast?_eq_some_getLast some⟩
  have stop : last.span.stop = source.byteLength := by
    obtain ⟨earlier, ends⟩ := List.getLast?_eq_some_iff.1 final
    rw [ends] at cut
    simpa using cut.stop_of_last tight.last
  have slice : source.slice? 0 source.byteLength = .some source := by
    have whole := @Text.slice?_append [] source [] 0 _ rfl (Nat.zero_add _).symm
    rwa [List.nil_append, List.append_nil] at whole
  have same : own.mapM (Lexeme.moveBack? 0) = .some own := by
    rw [funext Lexeme.moveBack?_zero]
    simpa using List.mapM_pure (m := Option) (l := own) (f := id)
  have head : own.head? = .some first := by rw [begins, List.head?_cons]
  simp only [ofLexemes?, head, final, start, stop, slice, same]

/-- A fragment that is cut out of a text together with a run of its lexemes. -/
structure Fragment.OfRun (text : Text) (run : List Lexeme) (number : Nat) (fragment : Fragment) :
    Prop where
  faithful : fragment.Faithful
  line : fragment.line = number
  place : ∃ before after, text = before ++ fragment.source ++ after ∧
    run = fragment.lexemes.map (Lexeme.moveOn before.byteLength)

/-- Every run of the lexemes of a text makes a fragment, which is read as the run. -/
theorem Fragment.exists_ofRun {text : Text} {found run : List Lexeme} (number : Nat)
    (cut : Lexer.Cut 0 text found) (some : run ≠ []) (part : run <:+: found) :
    ∃ fragment, ofLexemes? text run number = .some fragment ∧
      fragment.OfRun text run number := by
  obtain ⟨before, source, after, rfl, moved, tight⟩ := cut.run some part
  rw [Nat.zero_add] at moved
  obtain ⟨own, alone, rfl⟩ := @Lexer.exists_moveOn before.byteLength 0 _ _ moved
  have ownSome : own ≠ [] := by
    rintro rfl
    exact some rfl
  refine ⟨⟨source, own, number⟩, ?_, ?_⟩
  · rw [ofLexemes?_inside before after alone]
    exact ofLexemes?_of_tight number ownSome alone tight
  · exact ⟨⟨Lexer.lexemes_eq_ok_iff.2 alone, tight⟩, rfl, before, after, rfl, rfl⟩

namespace Statement

def headerBrace? (lexemes : List Lexeme) : Option Span :=
  match functionParts? lexemes, branchParts? lexemes with
  | some (_, _, _, brace), _ => some brace
  | none, some (_, brace) => some brace
  | none, none => otherwiseBrace? lexemes

section

variable {text : Text} {number : Nat} {lexemes : List Lexeme} {statement : Statement}

theorem infix_of_between? {items part : List Lexeme} {start stop : Nat}
    (between : between? items start stop = some part) : part <:+: items := by
  unfold between? at between
  split at between
  next =>
    cases between
    exact (List.drop_suffix _ _).isInfix.trans (List.take_prefix _ _).isInfix
  next => cases between

theorem Recognized.fragment (recognized : Recognized text number lexemes statement) :
    ∀ fragment ∈ statement.fragments, ∃ run, run <:+: lexemes ∧
      Fragment.ofLexemes? text run number = some fragment := by
  intro fragment member
  cases recognized with
  | callDeclaration declared found _ | declaration declared found =>
      cases List.mem_singleton.1 member
      exact ⟨_, infix_of_declared? declared, found⟩
  | print printed found =>
      cases List.mem_singleton.1 member
      exact ⟨_, infix_of_printed? printed, found⟩
  | call called found =>
      cases List.mem_singleton.1 member
      exact ⟨_, infix_of_called? called, found⟩
  | branch _ between found _ =>
      cases List.mem_singleton.1 member
      exact ⟨_, infix_of_between? between, found⟩
  | result returned found =>
      cases List.mem_singleton.1 member
      exact ⟨_, infix_of_returned? returned, found⟩
  | function | otherwise | nothing | unknown => cases member

theorem headerBrace?_function {name : Text} {kind : ReturnKind} {close : Nat} {brace : Span}
    (parts : functionParts? lexemes = some (name, kind, close, brace)) :
    headerBrace? lexemes = some brace := by
  simp only [headerBrace?, parts]

theorem headerBrace?_branch {close : Nat} {brace : Span}
    (parts : branchParts? lexemes = some (close, brace)) : headerBrace? lexemes = some brace := by
  have other : functionParts? lexemes = none := by
    unfold branchParts? at parts
    split at parts
    next => rfl
    next => cases parts
  simp only [headerBrace?, other, parts]

theorem Recognized.brace {bodyStart : Text}
    (recognized : Recognized text number lexemes statement)
    (start : statement.blockStart? = some bodyStart) :
    ∃ earlier brace later, lexemes = earlier ++ ⟨.leftBrace, brace⟩ :: later ∧
      headerBrace? lexemes = some brace ∧ text.dropBytes? brace.stop = some bodyStart := by
  cases recognized with
  | function parts between dropped =>
      cases start
      obtain ⟨earlier, later, same, _⟩ := functionParts?_split parts
      exact ⟨earlier, _, later, same, headerBrace?_function parts, dropped⟩
  | branch parts between found dropped =>
      cases start
      obtain ⟨earlier, later, same, _⟩ := branchParts?_split parts
      exact ⟨earlier, _, later, same, headerBrace?_branch parts, dropped⟩
  | otherwise braced dropped =>
      cases start
      obtain ⟨word, later, same⟩ := otherwiseBrace?_split braced
      exact ⟨_, _, later, same, by rw [same]; rfl, dropped⟩
  | _ => cases start

end

/-- The text where a block begins is read as the lexemes behind the brace of its header. -/
def BehindBrace (text : Text) (found : List Lexeme) (bodyStart : Text) : Prop :=
  ∃ earlier brace later own, found = earlier ++ ⟨.leftBrace, brace⟩ :: later ∧
    headerBrace? found = some brace ∧ text.dropBytes? brace.stop = some bodyStart ∧
      Purr.lexemes bodyStart = .ok own ∧ later = own.map (Lexeme.moveOn brace.stop)

theorem exists_head {text bodyStart : Text} {earlier later : List Lexeme} {brace : Span}
    (cut : Lexer.Cut 0 text (earlier ++ ⟨.leftBrace, brace⟩ :: later))
    (dropped : text.dropBytes? brace.stop = some bodyStart) :
    ∃ head, text = head ++ bodyStart ∧ brace.stop = head.byteLength ∧
      Lexer.Cut 0 head (earlier ++ [⟨.leftBrace, brace⟩]) ∧
        Lexer.Cut brace.stop bodyStart later := by
  obtain ⟨head, after, rfl, stop, own, behind⟩ := cut.behind_lexeme
  rw [Nat.zero_add] at stop
  dsimp only at stop behind
  have same : after = bodyStart := by
    rw [stop, Text.dropBytes?_append] at dropped
    exact Option.some.inj dropped
  subst same
  exact ⟨head, rfl, stop, own, behind⟩

theorem Recognized.behindBrace {text bodyStart : Text} {number : Nat} {found : List Lexeme}
    {statement : Statement} (recognized : Recognized text number found statement)
    (cut : Lexer.Cut 0 text found) (start : statement.blockStart? = some bodyStart) :
    BehindBrace text found bodyStart := by
  obtain ⟨earlier, brace, later, rfl, braced, dropped⟩ := recognized.brace start
  obtain ⟨_, _, _, _, behind⟩ := exists_head cut dropped
  obtain ⟨own, alone, moved⟩ := @Lexer.exists_moveOn brace.stop 0 _ _ behind
  exact ⟨earlier, brace, later, own, rfl, braced, dropped, Lexer.lexemes_eq_ok_iff.2 alone, moved⟩

/-- Every run of the lexemes of a text makes a fragment that is read as the run, and a line of the
text is recognized. Its expressions are such fragments, or are empty, and the text where its block
begins is read as what stands behind the brace of the header. -/
theorem fragments_are_read_again {text : Text} {found : List Lexeme} (number : Nat)
    (read : lexemes text = .ok found) :
    (∀ run, run ≠ [] → run <:+: found →
      ∃ fragment, Fragment.ofLexemes? text run number = some fragment ∧
        fragment.OfRun text run number) ∧
    ∃ statement, ofLine ⟨number, text⟩ = .ok statement ∧
      (∀ fragment ∈ statement.fragments, fragment.Faithful ∧
        ∃ run, run <:+: found ∧ Fragment.ofLexemes? text run number = some fragment) ∧
      ∀ bodyStart, statement.blockStart? = some bodyStart → BehindBrace text found bodyStart := by
  have cut := Lexer.lexemes_eq_ok_iff.1 read
  obtain ⟨statement, fits, _⟩ := forms_placed number cut.within
  have recognized := recognized_of_ofLexemes fits
  refine ⟨fun run some part => Fragment.exists_ofRun number cut some part, statement, ?_, ?_, ?_⟩
  · rw [ofLine, read]
    exact fits
  · intro fragment member
    obtain ⟨run, part, made⟩ := recognized.fragment fragment member
    refine ⟨?_, run, part, made⟩
    by_cases none : run = []
    · subst none
      cases made
      exact .empty number
    · obtain ⟨other, found, whole⟩ := Fragment.exists_ofRun number cut none part
      rw [made] at found
      cases found
      exact whole.faithful
  · intro bodyStart start
    exact recognized.behindBrace cut start

def crowdedLine : Text := "if (2e != \"é\x7d\") \x7b purr ~> \"ü\"; \x7d".toList

theorem crowdedLine_is_read_again :
    ∃ found condition, lexemes crowdedLine = .ok found ∧
      (∃ fragment, Fragment.ofLexemes? crowdedLine ((found.drop 2).take 2) 7 = some fragment ∧
        fragment.source = "2e".toList ∧ lexemes "2e".toList = .ok fragment.lexemes) ∧
      ofLine ⟨7, crowdedLine⟩ = .ok (.branch condition " purr ~> \"ü\"; \x7d".toList) ∧
      condition.source = "2e != \"é\x7d\"".toList ∧
      lexemes "2e != \"é\x7d\"".toList = .ok condition.lexemes ∧
      BehindBrace crowdedLine found " purr ~> \"ü\"; \x7d".toList := by
  obtain ⟨runs, statement, recognized, expressions, block⟩ :=
    @fragments_are_read_again crowdedLine _ 7 rfl
  obtain rfl := Except.ok.inj
    ((rfl : ofLine ⟨7, crowdedLine⟩ = .ok (.branch _ _)).symm.trans recognized)
  obtain ⟨fragment, made, whole⟩ := runs (List.take 2 (List.drop 2 _)) (by nofun)
    ((List.take_prefix _ _).isInfix.trans (List.drop_suffix _ _).isInfix)
  cases made
  obtain ⟨faithful, _⟩ := expressions _ List.mem_cons_self
  exact ⟨_, _, rfl, ⟨_, rfl, rfl, whole.faithful.read⟩, rfl, rfl, faithful.read, block _ rfl⟩

end Statement

end Purr
