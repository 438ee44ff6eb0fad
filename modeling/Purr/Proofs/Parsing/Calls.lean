import Purr.Proofs.Parentheses
import Purr.Proofs.Parsing.Correctness
import Purr.Proofs.Parsing.Refusals

/-!
# Calls

A call that stands alone is recognized by counting parentheses and read by the grammar. Both mean
the same: the arguments of the call are the expressions between the commas that stand in no inner
parentheses, and what is read as a call, and is not in parentheses itself, is recognized as one.
-/

namespace Purr

set_option autoImplicit false

namespace Parser

open Grammar (Bracket)

theorem Moves.openParens? {inner : Bracket} {opened moved : List Bracket} {token : Token}
    (moves : Moves inner opened token moved) (rest : List Token) :
    openParens? opened.length (token :: rest) = openParens? moved.length rest := by
  cases moves with
  | opens | closes | separates => rfl
  | passes noParen _ =>
      cases token with
      | leftParen | rightParen => cases noParen
      | _ => rfl

theorem Moves.ne_nil_of_comma {inner : Bracket} {opened moved : List Bracket}
    (moves : Moves inner opened .comma moved) : opened ≠ [] := by
  cases moves with
  | separates => exact List.cons_ne_nil _ _
  | passes _ other => exact absurd rfl other

theorem openParens?_of_advance {state next : State} {tokens : List Token}
    (advanced : advance state tokens = .ok next) :
    openParens? state.brackets.length tokens = some next.brackets.length := by
  induction tokens generalizing state with
  | nil =>
      cases advanced
      rfl
  | cons token rest ih =>
      rw [advance_cons] at advanced
      obtain ⟨middle, stepped, advanced⟩ := bind_eq_ok_iff.1 advanced
      rw [(step_follows stepped).moves.openParens?]
      exact ih advanced

theorem brackets_of_finish {state : State} {tree : Expr} (finished : finish state = .ok tree) :
    state.brackets = [] := by
  obtain ⟨expecting, pending, levels⟩ := state
  cases expecting with
  | operand | argument name => cases finished
  | afterName name | operator operand =>
      cases levels with
      | nil => rfl
      | cons level levels => cases finished

end Parser

namespace Grammar

open Purr.Parser

theorem Sum.advance {tokens : List Token} {tree : Expr} (derived : Sum tokens tree) :
    ∃ last, Parser.advance start tokens = .ok last ∧ last.brackets = [] := by
  have read := derived.parse
  rw [Expr.parse, run_eq_advance] at read
  obtain ⟨last, advanced, finished⟩ := bind_eq_ok_iff.1 read
  exact ⟨last, advanced, brackets_of_finish finished⟩

theorem Sum.paired {tokens : List Token} {tree : Expr} (derived : Sum tokens tree) :
    Paired tokens := by
  obtain ⟨last, advanced, closed⟩ := derived.advance
  have counted := openParens?_of_advance advanced
  rwa [closed] at counted

/-- The commas of an expression stand in parentheses. -/
theorem Sum.comma_enclosed {tokens before after : List Token} {tree : Expr}
    (derived : Sum tokens tree) (same : tokens = before ++ .comma :: after) :
    openParens? 0 before ≠ some 0 := by
  obtain ⟨last, advanced, _⟩ := derived.advance
  rw [same, advance_append] at advanced
  obtain ⟨middle, first, advanced⟩ := bind_eq_ok_iff.1 advanced
  rw [advance_cons] at advanced
  obtain ⟨next, stepped, _⟩ := bind_eq_ok_iff.1 advanced
  have counted := openParens?_of_advance first
  have inside := (step_follows stepped).moves.ne_nil_of_comma
  intro closed
  have outside : some middle.brackets.length = some 0 := counted.symm.trans closed
  exact inside (List.eq_nil_of_length_eq_zero (Option.some.inj outside))

theorem ArgumentList.paired {tokens : List Token} {trees : List Expr}
    (list : ArgumentList tokens trees) : Paired tokens := by
  cases list with
  | one inner => exact inner.paired
  | more first others =>
      have comma : Paired [.comma] := rfl
      exact first.paired.append (comma.append others.paired)

theorem Arguments.paired {tokens : List Token} {trees : List Expr}
    (derived : Arguments tokens trees) : Paired tokens := by
  cases derived with
  | none => rfl
  | some list => exact list.paired

def PieceOf (piece : List Lexeme) (tree : Expr) : Prop := Sum (piece.map Lexeme.token) tree

theorem Sum.splitTopLevel_append {lexemes : List Lexeme} {tree : Expr}
    (derived : PieceOf lexemes tree) (rest : List Lexeme) :
    splitFrom .comma 0 (lexemes ++ rest) =
      lexemes.foldr extendFirst (splitFrom .comma 0 rest) := by
  apply splitFrom_append rest derived.paired
  intro before mark after separates same
  obtain rfl : mark = .comma := by simpa using separates
  exact derived.comma_enclosed same

theorem ArgumentList.pieces {lexemes : List Lexeme} {tokens : List Token} {trees : List Expr}
    (list : ArgumentList tokens trees) (same : lexemes.map Lexeme.token = tokens) :
    List.Forall₂ PieceOf (splitTopLevel .comma lexemes) trees := by
  cases list with
  | one inner =>
      subst same
      have whole := Sum.splitTopLevel_append inner []
      rw [List.append_nil, splitFrom, foldr_extendFirst, List.append_nil] at whole
      rw [splitTopLevel, whole]
      exact .cons inner .nil
  | more first others =>
      obtain ⟨piece, rest, rfl, rfl, restTokens⟩ := List.map_eq_append_iff.1 same
      obtain ⟨comma, later, rfl, separates, same⟩ := List.map_eq_cons_iff.1 restTokens
      have whole := Sum.splitTopLevel_append first (comma :: later)
      rw [splitFrom, if_pos (by simp [separates, isParen]), foldr_extendFirst, List.append_nil]
        at whole
      rw [splitTopLevel, whole]
      exact .cons first (others.pieces same)

theorem argumentList_of_pieces {pieces : List (List Lexeme)} {trees : List Expr}
    (derived : List.Forall₂ PieceOf pieces trees) (some : pieces ≠ []) :
    ArgumentList ([Token.comma].intercalate (pieces.map (List.map Lexeme.token))) trees := by
  induction derived with
  | nil => exact absurd rfl some
  | @cons piece tree pieces trees first others ih =>
      cases others with
      | nil =>
          rw [List.map_singleton, List.intercalate_singleton]
          exact .one first
      | cons second others =>
          have later := ih (List.cons_ne_nil _ _)
          have whole := ArgumentList.more first later
          rwa [← List.singleton_append, ← List.append_assoc, List.map_cons,
            ← List.intercalate_cons_cons, ← List.map_cons] at whole

/-- The arguments of a call are the expressions between the commas at the top level. -/
theorem arguments_iff (inner : List Lexeme) (trees : List Expr) :
    Arguments (inner.map Lexeme.token) trees ↔
      inner = [] ∧ trees = [] ∨
      inner ≠ [] ∧ List.Forall₂ PieceOf (splitTopLevel .comma inner) trees := by
  constructor
  · intro derived
    generalize same : inner.map Lexeme.token = tokens at derived
    cases derived with
    | none => exact .inl ⟨List.map_eq_nil_iff.1 same, rfl⟩
    | some list =>
        refine .inr ⟨?_, list.pieces same⟩
        rintro rfl
        obtain ⟨first, rest, begins, _⟩ := list.begins
        rw [begins] at same
        cases same
  · rintro (⟨rfl, rfl⟩ | ⟨_, derived⟩)
    · exact .none
    · obtain ⟨piece, pieces, same, _⟩ := exists_cons_of_splitFrom .comma 0 inner
      have list := argumentList_of_pieces derived (by rw [splitTopLevel, same]; simp)
      have only (token : Token) (comma : token.equals .comma = true) : token = .comma := by
        simpa using comma
      rw [splitTopLevel, (splitFrom_joins .comma 0 inner).intercalate only] at list
      exact .some list

def callTokens (callee : Text) (inner : List Token) : List Token :=
  .name callee :: .leftParen :: (inner ++ [.rightParen])

theorem before_of_callTokens {callee : Text} {inner before after : List Token} {token : Token}
    (paired : Paired inner) (same : callTokens callee inner = before ++ token :: after)
    (closed : Paired before) :
    before = [] ∧ token = .name callee ∨ before = [.name callee] ∧ token = .leftParen := by
  match before with
  | [] =>
      cases same
      exact .inl ⟨rfl, rfl⟩
  | [_] =>
      cases same
      exact .inr ⟨rfl, rfl⟩
  | first :: second :: within =>
      simp only [callTokens, List.cons_append, List.cons.injEq] at same
      obtain ⟨rfl, rfl, same⟩ := same
      obtain ⟨more, last, ends⟩ : ∃ more last, token :: after = more ++ [last] :=
        ⟨_, _, (List.dropLast_concat_getLast (List.cons_ne_nil token after)).symm⟩
      rw [ends, ← List.append_assoc] at same
      obtain ⟨rfl, _⟩ := List.append_inj' same rfl
      obtain ⟨depth, opened⟩ := exists_openParens?_of_append paired
      have inside : openParens? 0 (.name callee :: .leftParen :: within) = some (depth + 1) :=
        openParens?_succ opened
      have outside := inside.symm.trans closed
      cases outside

theorem Primary.single {callee : Text} {inner tokens : List Token} {tree : Expr}
    (derived : Primary tokens tree) (same : tokens = callTokens callee inner) :
    ∃ arguments, tree = .call callee arguments ∧ Arguments inner arguments := by
  cases derived with
  | number | text | «variable» | group => cases same
  | @call tokens arguments name list =>
      simp only [callTokens, List.cons.injEq, Token.name.injEq, List.append_cancel_right_eq,
        true_and] at same
      obtain ⟨rfl, rfl⟩ := same
      exact ⟨arguments, rfl, list⟩

/-- What is derived as a call is one that stands alone, or is in parentheses. -/
theorem exists_callTokens {tokens : List Token} {name : Text} {arguments : List Expr}
    (derived : Sum tokens (.call name arguments)) (outer : tokens.head? ≠ some .leftParen) :
    ∃ inner, tokens = callTokens name inner ∧ Arguments inner arguments := by
  cases derived with
  | one product =>
      cases product with
      | one unary =>
          cases unary with
          | primary primary =>
              cases primary with
              | call _ list => exact ⟨_, rfl, list⟩
              | group _ => exact absurd rfl outer

theorem not_operator_of_callTokens {callee : Text} {inner before after : List Token}
    {op : Operator} (paired : Paired inner) (closed : Paired before) :
    before ++ .operator op :: after ≠ callTokens callee inner := by
  intro same
  rcases before_of_callTokens paired same.symm closed with ⟨_, other⟩ | ⟨_, other⟩
  · cases other
  · cases other

/-- Tokens that are a name with paired parentheses are a call, whatever else they might be. -/
theorem Sum.single {callee : Text} {inner tokens : List Token} {tree : Expr}
    (derived : Sum tokens tree) (paired : Paired inner) (same : tokens = callTokens callee inner) :
    ∃ arguments, tree = .call callee arguments ∧ Arguments inner arguments := by
  cases derived with
  | more first _ _ => exact absurd same (not_operator_of_callTokens paired first.paired)
  | one product =>
      cases product with
      | more first _ _ =>
          exact absurd same (not_operator_of_callTokens paired (Sum.one first).paired)
      | one unary =>
          cases unary with
          | negate => cases same
          | primary primary => exact primary.single same

end Grammar

theorem isSingleCall_of_callTokens {lexemes : List Lexeme} {callee : Text} {inner : List Token}
    (same : lexemes.map Lexeme.token = Grammar.callTokens callee inner) (paired : Paired inner) :
    isSingleCall lexemes = true := by
  obtain ⟨⟨_, first⟩, _, rfl, rfl, behindName⟩ := List.map_eq_cons_iff.1 same
  obtain ⟨⟨_, opening⟩, _, rfl, rfl, behindOpening⟩ := List.map_eq_cons_iff.1 behindName
  obtain ⟨within, _, rfl, rfl, ending⟩ := List.map_eq_append_iff.1 behindOpening
  obtain ⟨⟨_, close⟩, rfl, rfl⟩ := List.map_eq_singleton_iff.1 ending
  exact (isSingleCall_iff _).2 ⟨callee, first, opening, within, close, rfl, paired⟩

theorem isSingleCall_congr {lexemes others : List Lexeme}
    (same : lexemes.map Lexeme.token = others.map Lexeme.token) :
    isSingleCall lexemes = isSingleCall others := by
  have carry {lexemes others : List Lexeme}
      (same : lexemes.map Lexeme.token = others.map Lexeme.token)
      (single : isSingleCall lexemes = true) : isSingleCall others = true := by
    obtain ⟨callee, first, opening, inner, close, rfl, paired⟩ := (isSingleCall_iff _).1 single
    have tokens : others.map Lexeme.token = Grammar.callTokens callee (inner.map Lexeme.token) := by
      simpa [Grammar.callTokens] using same.symm
    exact isSingleCall_of_callTokens tokens paired
  exact Bool.eq_iff_iff.2 ⟨carry same, carry same.symm⟩

namespace Expr

open Grammar Purr.Parser

theorem parse_eq_ok_iff {tokens : List Token} {tree : Expr} :
    parse tokens = .ok tree ↔ Sum tokens tree :=
  ⟨fun read => run_reads start_reads read, fun derived => derived.parse⟩

theorem parseCall_eq_ok_iff {tokens : List Token} {name : Text} {arguments : List Expr} :
    parseCall tokens = .ok (name, arguments) ↔ Sum tokens (.call name arguments) := by
  rw [← parse_eq_ok_iff, parseCall]
  cases parse tokens with
  | error fault => simp
  | ok tree => cases tree <;> simp

theorem parseCall_error_cases {tokens : List Token} {fault : SyntaxFault}
    (failed : parseCall tokens = .error fault) :
    parse tokens = .error fault ∨
      fault = .notACall ∧ ∃ tree, parse tokens = .ok tree ∧
        ∀ name arguments, tree ≠ .call name arguments := by
  unfold parseCall at failed
  split at failed
  next => cases failed
  next tree other read =>
    cases failed
    exact .inr ⟨rfl, tree, read, other⟩
  next read =>
    cases failed
    exact .inl read

theorem parseCall_callTokens {callee : Text} {inner : List Token} (paired : Paired inner)
    (name : Text) (arguments : List Expr) :
    parseCall (callTokens callee inner) = .ok (name, arguments) ↔
      name = callee ∧ Arguments inner arguments := by
  rw [parseCall_eq_ok_iff]
  constructor
  · intro derived
    obtain ⟨trees, same, list⟩ := derived.single paired rfl
    cases same
    exact ⟨rfl, list⟩
  · rintro ⟨rfl, list⟩
    exact .one (.one (.primary (.call name list)))

theorem refusal_ne_notACall (before after : List Token) : refusal before after ≠ .notACall := by
  unfold refusal
  split
  · split <;> simp
  · split
    · simp
    · split <;> simp

theorem parse_ne_notACall (tokens : List Token) : parse tokens ≠ .error .notACall := by
  intro refused
  rcases parse_error_cases refused with ⟨_, _, told⟩ | ⟨before, token, after, _, _, _, _, told⟩
  · exact refusal_ne_notACall _ _ told.symm
  · exact refusal_ne_notACall _ _ told.symm

theorem exists_of_refusal_afterEnd {before after : List Token} {token : Token}
    (told : refusal before after = .afterEnd token) :
    (∃ later, after = token :: later) ∧ innermost? before = none := by
  cases after with
  | nil => by_cases awaits : awaitsOperand before = true <;> simp [refusal, awaits] at told
  | cons next after =>
      by_cases awaits : awaitsOperand before = true
      · simp [refusal, awaits] at told
      · rw [refusal, if_neg awaits] at told
        split at told
        next => cases told
        next => cases told
        next none =>
          cases told
          exact ⟨⟨after, rfl⟩, none⟩

section Standing

variable {callee : Text} {inner : List Token}

theorem parseCall_callTokens_ne_notACall (paired : Paired inner) :
    parseCall (callTokens callee inner) ≠ .error .notACall := by
  intro failed
  rcases parseCall_error_cases failed with refused | ⟨_, tree, read, other⟩
  · exact parse_ne_notACall _ refused
  · obtain ⟨arguments, same, _⟩ := (parse_eq_ok_iff.1 read).single paired rfl
    exact other callee arguments same

/-- In a call that stands alone no expression ends before a token that is left. -/
theorem parse_callTokens_ne_afterEnd (paired : Paired inner) (token : Token) :
    parse (callTokens callee inner) ≠ .error (.afterEnd token) := by
  intro failed
  rcases parse_error_cases failed with ⟨last, _, told⟩ |
    ⟨before, refused, after, last, same, advanced, ends, told⟩
  · obtain ⟨⟨_, nothing⟩, _⟩ := exists_of_refusal_afterEnd told.symm
    cases nothing
  · obtain ⟨_, outside⟩ := exists_of_refusal_afterEnd told.symm
    have closed := openParens?_of_advance advanced
    have tracks : Tracks last before := advance_tracks start_tracks advanced
    rw [innermost?, tracks.opened, List.getElem?_eq_none_iff, Nat.le_zero] at outside
    rw [outside] at closed
    -- Outside of all parentheses are only the name and the parenthesis behind it, which can follow.
    rcases before_of_callTokens paired same closed with ⟨rfl, rfl⟩ | ⟨rfl, rfl⟩
    · cases advanced
      cases ends
    · cases advanced
      cases ends

theorem parseCall_callTokens_ne_afterEnd (paired : Paired inner) (token : Token) :
    parseCall (callTokens callee inner) ≠ .error (.afterEnd token) := by
  intro failed
  rcases parseCall_error_cases failed with refused | ⟨other, _⟩
  · exact parse_callTokens_ne_afterEnd paired token refused
  · cases other

end Standing

end Expr

/-- A call that stands alone is read as a call with the expressions between its commas, if all of
them are expressions, and what is read as a call stands alone or in parentheses. -/
theorem calls_read_as_recognized (lexemes : List Lexeme) :
    (isSingleCall lexemes = true → ∃ callee first opening inner close,
      lexemes = ⟨.name callee, first⟩ :: ⟨.leftParen, opening⟩ ::
        (inner ++ [⟨.rightParen, close⟩]) ∧
      (∀ name arguments, Expr.parseCall (lexemes.map Lexeme.token) = .ok (name, arguments) ↔
        name = callee ∧ (inner = [] ∧ arguments = [] ∨
          inner ≠ [] ∧ List.Forall₂
            (fun piece argument => Expr.parse (piece.map Lexeme.token) = .ok argument)
            (splitTopLevel .comma inner) arguments)) ∧
      Expr.parseCall (lexemes.map Lexeme.token) ≠ .error .notACall ∧
      ∀ token, Expr.parseCall (lexemes.map Lexeme.token) ≠ .error (.afterEnd token)) ∧
    ∀ name arguments, Expr.parseCall (lexemes.map Lexeme.token) = .ok (name, arguments) →
      (lexemes.map Lexeme.token).head? ≠ some .leftParen → isSingleCall lexemes = true := by
  constructor
  · intro single
    obtain ⟨callee, first, opening, inner, close, rfl, paired⟩ := (isSingleCall_iff _).1 single
    have tokens : List.map Lexeme.token (⟨.name callee, first⟩ :: ⟨.leftParen, opening⟩ ::
        (inner ++ [⟨.rightParen, close⟩])) =
          Grammar.callTokens callee (inner.map Lexeme.token) := by
      simp [Grammar.callTokens]
    refine ⟨callee, first, opening, inner, close, rfl, ?_, ?_, ?_⟩
    · intro name arguments
      have derived : Grammar.PieceOf =
          fun piece argument => Expr.parse (piece.map Lexeme.token) = .ok argument := by
        funext piece argument
        exact propext Expr.parse_eq_ok_iff.symm
      rw [tokens, Expr.parseCall_callTokens paired, Grammar.arguments_iff, derived]
    · rw [tokens]
      exact Expr.parseCall_callTokens_ne_notACall paired
    · rw [tokens]
      exact Expr.parseCall_callTokens_ne_afterEnd paired
  · intro name arguments read outer
    obtain ⟨inner, same, list⟩ := Grammar.exists_callTokens (Expr.parseCall_eq_ok_iff.1 read) outer
    exact isSingleCall_of_callTokens same list.paired

def nestedCall : List Lexeme :=
  [.name ['f'], .leftParen, .name ['x'], .comma, .leftParen, .name ['y'], .rightParen,
    .rightParen].mapIdx fun place token => ⟨token, place, place + 1, Nat.lt_succ_self place⟩

theorem nestedCall_read_as_recognized :
    isSingleCall nestedCall = true ∧
    Expr.parseCall (nestedCall.map Lexeme.token) =
      .ok (['f'], [.variable ['x'], .variable ['y']]) := by
  have single : isSingleCall nestedCall = true := by decide
  obtain ⟨callee, first, opening, inner, close, shape, read, _⟩ :=
    (calls_read_as_recognized nestedCall).1 single
  have inside : inner = (nestedCall.drop 2).dropLast := by
    rw [shape]
    exact List.dropLast_concat.symm
  have begins : some (Token.name ['f']) = some (.name callee) :=
    congrArg (fun lexemes => (lexemes.map Lexeme.token).head?) shape
  cases begins
  subst inside
  refine ⟨single, (read _ _).2 ⟨rfl, .inr ⟨by decide, ?_⟩⟩⟩
  exact .cons rfl (.cons rfl .nil)

end Purr
