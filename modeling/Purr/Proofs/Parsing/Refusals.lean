import Purr.Nesting
import Purr.Proofs.Parsing.Completeness

/-!
# Refusals

Where tokens are refused that form no expression. From every state some tokens lead to an
expression, so a token is refused only if no expression goes on with it: the tokens before it are
the longest beginning that they share with an expression. What the refusal says follows from these
tokens alone, from the last of them and from the innermost parenthesis that is open behind them.
-/

namespace Purr

set_option autoImplicit false

namespace Grammar

def isBeforeOperand : Token → Bool
  | .operator _ | .leftParen | .comma => true
  | _ => false

/-- An operand has to follow at the beginning, and behind an operator, an opening parenthesis or a
comma. -/
def awaitsOperand (tokens : List Token) : Bool := tokens.getLast?.all isBeforeOperand

inductive Bracket where
  | group
  | call
deriving DecidableEq

/-- A parenthesis directly behind a name is that of a call. -/
def bracketBehind : Option Token → Bracket
  | some (.name _) => .call
  | _ => .group

/-- The parenthesis that is open with some other open ones inside of it, looked for from the last
token backwards. -/
def openBracket? : Nat → List Token → Option Bracket
  | _, [] => none
  | inside, .rightParen :: before => openBracket? (inside + 1) before
  | 0, .leftParen :: before => some (bracketBehind before.head?)
  | inside + 1, .leftParen :: before => openBracket? inside before
  | inside, _ :: before => openBracket? inside before

def innermost? (tokens : List Token) : Option Bracket := openBracket? 0 tokens.reverse

/-- What is wrong with tokens that no expression continues by the ones that follow. -/
def refusal (before : List Token) : List Token → SyntaxFault
  | [] => if awaitsOperand before then .unexpectedEnd else .unclosed
  | token :: _ =>
      if awaitsOperand before then .unexpected token
      else
        match innermost? before with
        | some .group => .unclosed
        | some .call => .inArguments token
        | none => .afterEnd token

theorem awaitsOperand_concat (tokens : List Token) (token : Token) :
    awaitsOperand (tokens ++ [token]) = isBeforeOperand token := by
  simp [awaitsOperand]

end Grammar

namespace Parser

open Grammar

def advance (state : State) (tokens : List Token) : Except SyntaxFault State :=
  tokens.foldlM step state

theorem advance_cons (state : State) (token : Token) (rest : List Token) :
    advance state (token :: rest) = step state token >>= fun next => advance next rest := by
  simp [advance]

theorem advance_append (state : State) (before after : List Token) :
    advance state (before ++ after) = advance state before >>= fun next => advance next after := by
  simp [advance]

theorem run_eq_advance (state : State) (tokens : List Token) :
    run state tokens = advance state tokens >>= finish := by
  induction tokens generalizing state with
  | nil => rfl
  | cons token rest ih =>
      rw [run, advance_cons]
      cases step state token with
      | ok next => exact ih next
      | error fault => rfl

theorem run_error_cases {state : State} {tokens : List Token} {fault : SyntaxFault}
    (failed : run state tokens = .error fault) :
    (∃ last, advance state tokens = .ok last ∧ finish last = .error fault) ∨
    ∃ before token after last, tokens = before ++ token :: after ∧
      advance state before = .ok last ∧ step last token = .error fault := by
  induction tokens generalizing state with
  | nil => exact .inl ⟨state, rfl, failed⟩
  | cons token rest ih =>
      rw [run] at failed
      cases stepped : step state token with
      | error other =>
          rw [stepped] at failed
          cases failed
          exact .inr ⟨[], token, rest, state, rfl, rfl, stepped⟩
      | ok next =>
          rw [stepped] at failed
          have onward (read : List Token) : advance state (token :: read) = advance next read := by
            rw [advance_cons, stepped]
            rfl
          rcases ih failed with ⟨last, advanced, ends⟩ |
            ⟨before, refused, after, last, rfl, advanced, ends⟩
          · exact .inl ⟨last, (onward rest).trans advanced, ends⟩
          · exact .inr ⟨token :: before, refused, after, last, rfl,
              (onward before).trans advanced, ends⟩

def Opening.bracket : Opening → Bracket
  | .group => .group
  | .call _ _ => .call

def brackets (levels : List Level) : List Bracket := levels.map fun level => level.opening.bracket

namespace State

def awaitsOperand (state : State) : Bool :=
  match state.expecting with
  | .operand | .argument _ => true
  | .afterName _ | .operator _ => false

def bracket (state : State) : Bracket :=
  match state.expecting with
  | .afterName _ => .call
  | .operand | .argument _ | .operator _ => .group

def brackets (state : State) : List Bracket :=
  match state.expecting with
  | .argument _ => .call :: Parser.brackets state.levels
  | .operand | .afterName _ | .operator _ => Parser.brackets state.levels

end State

/-- What a token does to the open parentheses, if an opening one would enclose `inner`. -/
inductive Moves (inner : Bracket) : List Bracket → Token → List Bracket → Prop
  | opens {outer : List Bracket} : Moves inner outer .leftParen (inner :: outer)
  | closes {closed : Bracket} {outer : List Bracket} :
      Moves inner (closed :: outer) .rightParen outer
  | separates {outer : List Bracket} : Moves inner (.call :: outer) .comma (.call :: outer)
  | passes {opened : List Bracket} {token : Token} : isParen token = false → token ≠ .comma →
      Moves inner opened token opened

structure Follows (inner : Bracket) (opened : List Bracket) (token : Token) (next : State) :
    Prop where
  moves : Moves inner opened token next.brackets
  awaits : next.awaitsOperand = isBeforeOperand token
  behind : next.bracket = bracketBehind (some token)

section Steps

variable {pending : Pending} {levels : List Level} {token : Token} {state next : State}
  {tokens : List Token}

theorem stepOperand_follows (stepped : stepOperand pending levels token = .ok next) :
    Follows .group (brackets levels) token next := by
  unfold stepOperand at stepped
  split at stepped
  case h_4 =>
    cases stepped
    exact ⟨.opens, rfl, rfl⟩
  case h_6 => cases stepped
  all_goals
    cases stepped
    exact ⟨.passes rfl (by simp), rfl, rfl⟩

theorem stepOperator_follows {operand : Expr} (inner : Bracket)
    (stepped : stepOperator operand pending levels token = .ok next) :
    Follows inner (brackets levels) token next := by
  unfold stepOperator at stepped
  split at stepped
  next op =>
    cases stepped
    exact ⟨.passes rfl (by simp), rfl, rfl⟩
  next outer levels =>
    cases stepped
    exact ⟨.closes, rfl, rfl⟩
  next outer name arguments levels =>
    cases stepped
    exact ⟨.closes, rfl, rfl⟩
  next outer name arguments levels =>
    cases stepped
    exact ⟨.separates, rfl, rfl⟩
  all_goals cases stepped

theorem step_follows (stepped : step state token = .ok next) :
    Follows state.bracket state.brackets token next := by
  obtain ⟨expecting, pending, levels⟩ := state
  cases expecting with
  | operand => exact stepOperand_follows stepped
  | afterName name =>
      by_cases call : token = .leftParen
      · subst call
        cases stepped
        exact ⟨.opens, rfl, rfl⟩
      · rw [step_afterName name pending levels call] at stepped
        exact stepOperator_follows .call stepped
  | argument name =>
      by_cases none : token = .rightParen
      · subst none
        cases stepped
        exact ⟨.closes, rfl, rfl⟩
      · rw [step_argument name pending levels none] at stepped
        exact stepOperand_follows stepped
  | operator operand => exact stepOperator_follows .group stepped

/-- A state tells of the tokens that lead to it what they tell themselves. -/
structure Tracks (state : State) (tokens : List Token) : Prop where
  awaits : awaitsOperand tokens = state.awaitsOperand
  behind : bracketBehind tokens.getLast? = state.bracket
  opened : ∀ inside, openBracket? inside tokens.reverse = state.brackets[inside]?

theorem start_tracks : Tracks start [] := by
  constructor
  · rfl
  · rfl
  · intro inside
    rfl

theorem openBracket?_moves {inner : Bracket} {opened moved : List Bracket}
    (moves : Moves inner opened token moved) (behind : bracketBehind tokens.getLast? = inner)
    (before : ∀ inside, openBracket? inside tokens.reverse = opened[inside]?) (inside : Nat) :
    openBracket? inside (tokens ++ [token]).reverse = moved[inside]? := by
  rw [List.reverse_concat]
  cases moves with
  | opens =>
      cases inside with
      | zero =>
          rw [openBracket?, List.head?_reverse, behind]
          rfl
      | succ inside => exact before inside
  | closes =>
      rw [openBracket?]
      exact before (inside + 1)
  | separates =>
      rw [← before inside]
      cases inside <;> rfl
  | passes noParen _ =>
      rw [← before inside]
      cases token with
      | leftParen | rightParen => cases noParen
      | _ => cases inside <;> rfl

theorem advance_tracks {after : List Token} (tracks : Tracks state tokens)
    (advanced : advance state after = .ok next) : Tracks next (tokens ++ after) := by
  induction after generalizing state tokens with
  | nil =>
      cases advanced
      rwa [List.append_nil]
  | cons token rest ih =>
      rw [advance_cons] at advanced
      obtain ⟨middle, stepped, advanced⟩ := bind_eq_ok_iff.1 advanced
      have follows := step_follows stepped
      have longer : Tracks middle (tokens ++ [token]) := by
        constructor
        · rw [awaitsOperand_concat, follows.awaits]
        · rw [List.getLast?_concat, follows.behind]
        · exact openBracket?_moves follows.moves tracks.behind tracks.opened
      have whole := ih longer advanced
      rwa [List.append_assoc, List.singleton_append] at whole

end Steps

theorem stepOperand_refusal {pending : Pending} {levels : List Level} {token : Token}
    {fault : SyntaxFault} (failed : stepOperand pending levels token = .error fault) :
    fault = .unexpected token := by
  unfold stepOperand at failed
  split at failed
  case h_6 =>
    cases failed
    rfl
  all_goals cases failed

theorem stepOperator_refusal {operand : Expr} {pending : Pending} {levels : List Level}
    {token : Token} {fault : SyntaxFault}
    (failed : stepOperator operand pending levels token = .error fault) :
    fault =
      match (brackets levels)[0]? with
      | some .group => .unclosed
      | some .call => .inArguments token
      | none => .afterEnd token := by
  unfold stepOperator at failed
  split at failed
  all_goals
    cases failed
    try rfl

/-- A token is refused for what the tokens before it tell. -/
theorem step_refusal {state : State} {before : List Token} {token : Token} {fault : SyntaxFault}
    (tracks : Tracks state before) (failed : step state token = .error fault)
    (after : List Token) : fault = refusal before (token :: after) := by
  obtain ⟨expecting, pending, levels⟩ := state
  obtain ⟨awaits, _, opened⟩ := tracks
  rw [refusal, awaits, innermost?, opened]
  cases expecting with
  | operand => exact stepOperand_refusal failed
  | afterName name =>
      have noCall : token ≠ .leftParen := by
        rintro rfl
        cases failed
      rw [step_afterName name pending levels noCall] at failed
      exact stepOperator_refusal failed
  | argument name =>
      have other : token ≠ .rightParen := by
        rintro rfl
        cases failed
      rw [step_argument name pending levels other] at failed
      exact stepOperand_refusal failed
  | operator operand => exact stepOperator_refusal failed

theorem finish_refusal {state : State} {tokens : List Token} {fault : SyntaxFault}
    (tracks : Tracks state tokens) (failed : finish state = .error fault) :
    fault = refusal tokens [] := by
  obtain ⟨expecting, pending, levels⟩ := state
  rw [refusal, tracks.awaits]
  cases expecting with
  | operand | argument name =>
      cases failed
      rfl
  | afterName name | operator operand =>
      cases levels with
      | nil => cases failed
      | cons level levels =>
          cases failed
          rfl

theorem parse_error_cases {tokens : List Token} {fault : SyntaxFault}
    (failed : Expr.parse tokens = .error fault) :
    (∃ last, advance start tokens = .ok last ∧ fault = refusal tokens []) ∨
    ∃ before token after last, tokens = before ++ token :: after ∧
      advance start before = .ok last ∧ step last token = .error fault ∧
      fault = refusal before (token :: after) := by
  rcases run_error_cases failed with ⟨last, advanced, ends⟩ |
    ⟨before, token, after, last, rfl, advanced, ends⟩
  · have tracks := advance_tracks start_tracks advanced
    exact .inl ⟨last, advanced, finish_refusal tracks ends⟩
  · have tracks := advance_tracks start_tracks advanced
    exact .inr ⟨before, token, after, last, rfl, advanced, ends, step_refusal tracks ends after⟩

end Parser

namespace SyntaxFault

end SyntaxFault

end Purr
