import Purr.Evaluation
import Purr.Proofs.Fragments
import Purr.Proofs.Parsing.Calls

/-!
# Sums of texts

A plus sign between texts joins them. The pieces of a sum are those of its first part and those of
its second, and what a piece gives does not depend on the fragment it is in: positions and sources
move together. So a sum gives the texts of its parts, evaluated one after the other as fragments of
their own, and it makes no difference how a chain of sums is grouped.
-/

namespace Purr

set_option autoImplicit false

namespace Evaluation

section

variable (invoke : Invoke) (scope : Scope) (line : Nat) {source : Text}

theorem copied_inside {lexeme : Lexeme} {word : Text} (before after : Text)
    (sliced : source.slice? lexeme.span.start lexeme.span.stop = some word) :
    copied scope (before ++ source ++ after) line (lexeme.moveOn before.byteLength) =
      copied scope source line lexeme := by
  have moved := Text.slice?_inside before after sliced
  obtain ⟨token, span⟩ := lexeme
  cases token with
  | name | text => rfl
  | _ => exact congrArg Run.inRange (moved.trans sliced.symm)

theorem copyFrom_inside {lexemes : List Lexeme} (before after passed ahead : Text)
    (within : Within passed.byteLength ahead lexemes) :
    copyFrom scope (before ++ (passed ++ ahead) ++ after) line
        (before.byteLength + passed.byteLength) (lexemes.map (Lexeme.moveOn before.byteLength)) =
      copyFrom scope (passed ++ ahead) line passed.byteLength lexemes := by
  induction lexemes generalizing passed ahead with
  | nil => rfl
  | cons lexeme rest ih =>
      obtain ⟨gap, word, others, rfl, gapSlice, wordSlice, stop, inner⟩ := within.first_slices
      have later := ih (passed ++ gap ++ word) others (stop ▸ inner)
      have whole : passed ++ gap ++ word ++ others = passed ++ (gap ++ word ++ others) := by simp
      rw [whole, ← stop] at later
      have gapMoved := Text.slice?_inside before after gapSlice
      simp only [List.map_cons, copyFrom]
      rw [copied_inside scope line before after wordSlice]
      simp only [Lexeme.moveOn] at later ⊢
      rw [gapMoved, gapSlice, later]

theorem copy_inside {lexemes : List Lexeme} (before after : Text)
    (within : Within 0 source lexemes) :
    copy scope (before ++ source ++ after) line (lexemes.map (Lexeme.moveOn before.byteLength)) =
      copy scope source line lexemes := by
  cases lexemes with
  | nil => rfl
  | cons first rest =>
      obtain ⟨gap, ahead, rfl, starts, inner⟩ := within.from_first
      have moved := copyFrom_inside scope line before after gap ahead inner
      rw [← starts] at moved
      exact moved

theorem piece_inside {lexemes : List Lexeme} (before after : Text)
    (within : Within 0 source lexemes) :
    piece invoke scope (before ++ source ++ after) line
        (lexemes.map (Lexeme.moveOn before.byteLength)) =
      piece invoke scope source line lexemes := by
  have copied := copy_inside scope line before after within
  have tokens : (lexemes.map (Lexeme.moveOn before.byteLength)).map Lexeme.token =
      lexemes.map Lexeme.token := List.map_map
  have single := isSingleCall_congr tokens
  have other : (if isSingleCall (lexemes.map (Lexeme.moveOn before.byteLength)) then do
        let result ← call invoke scope line
          ((lexemes.map (Lexeme.moveOn before.byteLength)).map Lexeme.token)
        return (result.getD .absent).toText
      else
        copy scope (before ++ source ++ after) line
          (lexemes.map (Lexeme.moveOn before.byteLength))) =
      if isSingleCall lexemes then do
        let result ← call invoke scope line (lexemes.map Lexeme.token)
        return (result.getD .absent).toText
      else
        copy scope source line lexemes := by
    rw [single, tokens, copied]
  -- A literal and a name are pieces of their own only if nothing stands next to them.
  rcases lexemes with _ | ⟨⟨token, span⟩, _ | ⟨second, rest⟩⟩
  · rfl
  · cases token with
    | text | name => rfl
    | _ => exact other
  · cases token with
    | _ => exact other

theorem pieces_inside {parts : List (List Lexeme)} (before after : Text)
    (within : ∀ part ∈ parts, Within 0 source part) :
    pieces invoke scope (before ++ source ++ after) line
        (parts.map (List.map (Lexeme.moveOn before.byteLength))) =
      pieces invoke scope source line parts := by
  induction parts with
  | nil => rfl
  | cons first rest ih =>
      obtain ⟨head, others⟩ := List.forall_mem_cons.1 within
      rw [List.map_cons, pieces, pieces, piece_inside invoke scope line before after head,
        ih others]

end

/-- A run of lexemes gives the same text as a fragment of its own as in its line. -/
theorem text_ofRun {text : Text} {run : List Lexeme} {number : Nat} {fragment : Fragment}
    (ofRun : fragment.OfRun text run number) (invoke : Invoke) (scope : Scope) :
    Evaluation.text invoke scope fragment =
      pieces invoke scope text number (splitTopLevel (.operator .add) run) := by
  obtain ⟨before, after, rfl, rfl⟩ := ofRun.place
  have within := (Lexer.lexemes_eq_ok_iff.1 ofRun.faithful.read).within
  rw [splitTopLevel, splitFrom_moveOn, pieces_inside invoke scope number before after,
    Evaluation.text, ofRun.line]
  · rfl
  · intro part member
    exact within.of_infix (infix_of_mem_splitTopLevel member)

theorem exists_text_of_run {text : Text} {found run : List Lexeme} (number : Nat)
    (cut : Lexer.Cut 0 text found) (part : run <:+: found) :
    ∃ fragment, Fragment.ofLexemes? text run number = some fragment ∧ ∀ invoke scope,
      Evaluation.text invoke scope fragment =
        pieces invoke scope text number (splitTopLevel (.operator .add) run) := by
  by_cases none : run = []
  · subst none
    exact ⟨.empty number, rfl, fun _ _ => rfl⟩
  · obtain ⟨fragment, made, ofRun⟩ := Fragment.exists_ofRun number cut none part
    exact ⟨fragment, made, text_ofRun ofRun⟩

/-- One text after another. If the first halts the second is not evaluated, and what the second
writes and reports comes after what the first does. -/
def joined (first second : Run Console Text) : Run Console Text := do
  let text ← first
  let others ← second
  return text ++ others

theorem joined_assoc (first second third : Run Console Text) :
    joined (joined first second) third = joined first (joined second third) := by
  simp only [joined, bind_assoc, pure_bind, List.append_assoc]

theorem pieces_append (invoke : Invoke) (scope : Scope) (source : Text) (line : Nat)
    (first second : List (List Lexeme)) :
    pieces invoke scope source line (first ++ second) =
      joined (pieces invoke scope source line first) (pieces invoke scope source line second) := by
  induction first with
  | nil => simp [pieces, joined]
  | cons part rest ih =>
      rw [List.cons_append, pieces, pieces, ih]
      simp only [joined, bind_assoc, pure_bind, List.append_assoc]

theorem exists_texts_of_sum {text : Text} {found first second : List Lexeme} {plus : Lexeme}
    (number : Nat) (cut : Lexer.Cut 0 text found) (part : first ++ plus :: second <:+: found)
    (sign : plus.token = .operator .add) (paired : Purr.Paired (first.map Lexeme.token)) :
    ∃ whole left right,
      Fragment.ofLexemes? text (first ++ plus :: second) number = some whole ∧
      Fragment.ofLexemes? text first number = some left ∧
      Fragment.ofLexemes? text second number = some right ∧
      ∀ invoke scope, Evaluation.text invoke scope whole =
        joined (Evaluation.text invoke scope left) (Evaluation.text invoke scope right) := by
  have leftPart : first <:+: found := (List.prefix_append first _).isInfix.trans part
  have rightPart : second <:+: found :=
    ((List.suffix_cons plus second).trans (List.suffix_append first _)).isInfix.trans part
  obtain ⟨whole, madeWhole, wholeText⟩ := exists_text_of_run number cut part
  obtain ⟨left, madeLeft, leftText⟩ := exists_text_of_run number cut leftPart
  obtain ⟨right, madeRight, rightText⟩ := exists_text_of_run number cut rightPart
  refine ⟨whole, left, right, madeWhole, madeLeft, madeRight, fun invoke scope => ?_⟩
  rw [wholeText, leftText, rightText, ← pieces_append, splitTopLevel,
    splitFrom_separator second paired (by simp [sign]) rfl]
  rfl

/-- A sum of two runs of the lexemes of a text, the first one with paired parentheses, gives the
text of the first run and then that of the second, each evaluated as a fragment of its own in the
same scope. So a chain of sums can be grouped in either way. -/
theorem text_of_sum {text : Text} {found : List Lexeme} (number : Nat)
    (read : lexemes text = .ok found) :
    (∀ first plus second, first ++ plus :: second <:+: found → plus.token = .operator .add →
      Purr.Paired (first.map Lexeme.token) → ∃ whole left right,
        Fragment.ofLexemes? text (first ++ plus :: second) number = some whole ∧
        Fragment.ofLexemes? text first number = some left ∧
        Fragment.ofLexemes? text second number = some right ∧
        ∀ invoke scope, Evaluation.text invoke scope whole =
          joined (Evaluation.text invoke scope left) (Evaluation.text invoke scope right)) ∧
    ∀ first plus second other third, first ++ plus :: (second ++ other :: third) <:+: found →
      plus.token = .operator .add → other.token = .operator .add →
      Purr.Paired (first.map Lexeme.token) → Purr.Paired (second.map Lexeme.token) →
      ∃ head early late last,
        Fragment.ofLexemes? text first number = some head ∧
        Fragment.ofLexemes? text (first ++ plus :: second) number = some early ∧
        Fragment.ofLexemes? text (second ++ other :: third) number = some late ∧
        Fragment.ofLexemes? text third number = some last ∧
        ∀ invoke scope,
          joined (Evaluation.text invoke scope early) (Evaluation.text invoke scope last) =
            joined (Evaluation.text invoke scope head) (Evaluation.text invoke scope late) := by
  have cut := Lexer.lexemes_eq_ok_iff.1 read
  constructor
  · intro first plus second part sign paired
    exact exists_texts_of_sum number cut part sign paired
  · intro first plus second other third part sign otherSign pairedFirst pairedSecond
    have latePart : second ++ other :: third <:+: found :=
      ((List.suffix_cons plus _).trans (List.suffix_append first _)).isInfix.trans part
    have earlyPart : first ++ plus :: second <:+: found := by
      refine List.IsInfix.trans (List.IsPrefix.isInfix ⟨other :: third, ?_⟩) part
      simp
    obtain ⟨early, head, middle, madeEarly, madeHead, madeMiddle, earlyText⟩ :=
      exists_texts_of_sum number cut earlyPart sign pairedFirst
    obtain ⟨late, again, last, madeLate, madeAgain, madeLast, lateText⟩ :=
      exists_texts_of_sum number cut latePart otherSign pairedSecond
    obtain rfl := Option.some.inj (madeMiddle.symm.trans madeAgain)
    refine ⟨head, early, late, last, madeHead, madeEarly, madeLate, madeLast,
      fun invoke scope => ?_⟩
    rw [earlyText, lateText, joined_assoc]

def greetingLine : Text := "purr ~> \"é\"+ (x  - \"ü\") + x;".toList

theorem greetingLine_joined :
    let scope := Scope.empty.bind ['x'] (.text ['ß'])
    ∃ found first plus second other third, lexemes greetingLine = .ok found ∧
      first ++ plus :: (second ++ other :: third) <:+: found ∧
      plus.token = .operator .add ∧ other.token = .operator .add ∧
      Purr.Paired (first.map Lexeme.token) ∧ Purr.Paired (second.map Lexeme.token) ∧
      (∃ whole,
        Fragment.ofLexemes? greetingLine (first ++ plus :: (second ++ other :: third)) 4 =
          some whole ∧
        ∀ invoke console, Evaluation.text invoke scope whole console =
          (.ok "é(ß  - ü)ß".toList, console)) ∧
      ∃ early last, Fragment.ofLexemes? greetingLine (first ++ plus :: second) 4 = some early ∧
        Fragment.ofLexemes? greetingLine third 4 = some last ∧
        ∀ invoke console, joined (Evaluation.text invoke scope early)
          (Evaluation.text invoke scope last) console = (.ok "é(ß  - ü)ß".toList, console) := by
  intro scope
  obtain ⟨found, read⟩ : ∃ found, lexemes greetingLine = .ok found := ⟨_, rfl⟩
  obtain ⟨sums, grouped⟩ := text_of_sum 4 read
  cases read
  obtain ⟨whole, left, right, madeWhole, madeLeft, madeRight, wholeText⟩ :=
    sums [_] _ [_, _, _, _, _, _, _] ⟨[_, _], [_], rfl⟩ rfl rfl
  obtain ⟨head, early, late, last, madeHead, madeEarly, madeLate, madeLast, same⟩ :=
    grouped [_] _ [_, _, _, _, _] _ [_] ⟨[_, _], [_], rfl⟩ rfl rfl rfl rfl
  refine ⟨_, [_], _, [_, _, _, _, _], _, [_], rfl, ⟨[_, _], [_], rfl⟩, rfl, rfl, rfl, rfl,
    ⟨whole, madeWhole, ?_⟩, early, last, madeEarly, madeLast, ?_⟩
  · intro invoke console
    rw [wholeText]
    cases madeLeft
    cases madeRight
    rfl
  · intro invoke console
    rw [same]
    cases madeHead
    cases madeLate
    rfl

end Evaluation

end Purr
