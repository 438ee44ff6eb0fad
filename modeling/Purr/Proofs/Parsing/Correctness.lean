import Purr.Proofs.Parsing.Completeness

/-!
# What is read is derived

`Reads` says which tokens the parts of a state stand for. Every step appends its token to them, so
the tokens of a whole run are derived by the grammar. With the other direction, reading is exactly
deriving, and a list of tokens has at most one tree.
-/

namespace Purr

set_option autoImplicit false

namespace Parser

open Grammar (Primary Unary Product Sum ArgumentList)
open Pending

inductive SumWaits : Option (Expr × Operator) → List Token → Prop
  | none : SumWaits none []
  | some {tokens : List Token} {left : Expr} {op : Operator} : Sum tokens left →
      op.isProduct = false → SumWaits (some (left, op)) (tokens ++ [.operator op])

inductive ProductWaits : Option (Expr × Operator) → List Token → Prop
  | none : ProductWaits none []
  | some {tokens : List Token} {left : Expr} {op : Operator} : Product tokens left →
      op.isProduct = true → ProductWaits (some (left, op)) (tokens ++ [.operator op])

def signTokens (signs : Nat) : List Token := List.replicate signs (.operator .sub)

/-- The tokens of what waits on a level. -/
inductive Waits : Pending → List Token → Prop
  | intro {pending : Pending} {sum product : List Token} : SumWaits pending.sum sum →
      ProductWaits pending.product product →
      Waits pending (sum ++ (product ++ signTokens pending.signs))

inductive Passed : List Expr → List Token → Prop
  | none : Passed [] []
  | more {trees : List Expr} {tokens argument : List Token} {tree : Expr} : Passed trees tokens →
      Sum argument tree → Passed (trees ++ [tree]) (tokens ++ argument ++ [.comma])

inductive Opened : List Level → List Token → Prop
  | none : Opened [] []
  | group {levels : List Level} {outer : Pending} {before waiting : List Token} :
      Opened levels before → Waits outer waiting →
      Opened (⟨outer, .group⟩ :: levels) (before ++ waiting ++ [.leftParen])
  | call {levels : List Level} {outer : Pending} {name : Text} {arguments : List Expr}
      {before waiting passed : List Token} :
      Opened levels before → Waits outer waiting → Passed arguments passed →
      Opened (⟨outer, .call name arguments⟩ :: levels)
        (before ++ waiting ++ .name name :: .leftParen :: passed)

/-- The tokens of what has been read of an operand. -/
inductive Begun : Expecting → List Token → Prop
  | operand : Begun .operand []
  | afterName (name : Text) : Begun (.afterName name) [.name name]
  | argument (name : Text) : Begun (.argument name) [.name name, .leftParen]
  | operator {tokens : List Token} {operand : Expr} : Primary tokens operand →
      Begun (.operator operand) tokens

/-- The tokens that lead to a state. -/
inductive Reads : State → List Token → Prop
  | intro {expecting : Expecting} {pending : Pending} {levels : List Level}
      {before waiting begun : List Token} : Opened levels before → Waits pending waiting →
      Begun expecting begun → Reads ⟨expecting, pending, levels⟩ (before ++ waiting ++ begun)

theorem Waits.empty : Waits .empty [] := by
  have nothing : Waits .empty ([] ++ ([] ++ signTokens 0)) := .intro .none .none
  exact nothing

theorem unary_signed {tokens : List Token} {operand : Expr} (primary : Primary tokens operand)
    (signs : Nat) : Unary (signTokens signs ++ tokens) (signed signs operand) := by
  induction signs with
  | zero => exact .primary primary
  | succ signs ih => exact .negate ih

theorem ProductWaits.factor {product tokens : List Token} {pending : Pending} {operand : Expr}
    (waits : ProductWaits pending.product product) (primary : Primary tokens operand) :
    Product (product ++ (signTokens pending.signs ++ tokens)) (pending.factor operand) := by
  have unary := unary_signed primary pending.signs
  obtain ⟨sum, left, signs⟩ := pending
  cases waits with
  | none => exact .one unary
  | some derived product =>
      rw [List.append_assoc, List.singleton_append]
      exact .more derived product unary

theorem SumWaits.total {sum tokens : List Token} {pending : Pending} {operand : Expr}
    (waits : SumWaits pending.sum sum) (product : Product tokens (pending.factor operand)) :
    Sum (sum ++ tokens) (pending.total operand) := by
  rw [Pending.total]
  cases left : pending.sum with
  | none =>
      rw [left] at waits
      cases waits
      exact .one product
  | some waiting =>
      rw [left] at waits
      cases waits with
      | some derived sum =>
          rw [List.append_assoc, List.singleton_append]
          exact .more derived sum product

theorem Waits.total {waiting tokens : List Token} {pending : Pending} {operand : Expr}
    (waits : Waits pending waiting) (primary : Primary tokens operand) :
    Sum (waiting ++ tokens) (pending.total operand) := by
  obtain ⟨sum, product⟩ := waits
  rw [List.append_assoc, List.append_assoc]
  exact sum.total (product.factor primary)

theorem Waits.after {waiting tokens : List Token} {pending : Pending} {operand : Expr}
    (waits : Waits pending waiting) (primary : Primary tokens operand) (op : Operator) :
    Waits (pending.after operand op) (waiting ++ tokens ++ [.operator op]) := by
  cases kind : op.isProduct with
  | false =>
      rw [Grammar.after_sum kind]
      have left := SumWaits.some (waits.total primary) kind
      have whole : Waits ⟨some (pending.total operand, op), none, 0⟩ _ := .intro left .none
      simpa [signTokens] using whole
  | true =>
      rw [Grammar.after_product kind]
      obtain ⟨sum, product⟩ := waits
      have left := ProductWaits.some (product.factor primary) kind
      have whole : Waits ⟨pending.sum, some (pending.factor operand, op), 0⟩ _ := .intro sum left
      simpa [signTokens] using whole

theorem Waits.sign {waiting : List Token} {pending : Pending} (waits : Waits pending waiting) :
    Waits { pending with signs := pending.signs + 1 } (waiting ++ [.operator .sub]) := by
  obtain ⟨sum, product⟩ := waits
  have whole : Waits { pending with signs := pending.signs + 1 } _ := .intro sum product
  simpa [signTokens, List.replicate_succ'] using whole

theorem Passed.append {earlier later : List Expr} {passed tokens : List Token}
    (before : Passed earlier passed) (after : ArgumentList tokens later) :
    ArgumentList (passed ++ tokens) (earlier ++ later) := by
  induction before generalizing later tokens with
  | none => exact after
  | more before argument ih =>
      have longer := ih (.more argument after)
      simpa using longer

theorem Reads.of_eq {expecting : Expecting} {pending : Pending} {levels : List Level}
    {before waiting begun tokens : List Token} (opened : Opened levels before)
    (waits : Waits pending waiting) (part : Begun expecting begun)
    (same : tokens = before ++ waiting ++ begun) : Reads ⟨expecting, pending, levels⟩ tokens := by
  rw [same]
  exact .intro opened waits part

theorem stepOperand_reads {pending : Pending} {levels : List Level} {token : Token} {next : State}
    {before waiting : List Token} (stepped : stepOperand pending levels token = .ok next)
    (opened : Opened levels before) (waits : Waits pending waiting) :
    Reads next (before ++ waiting ++ [token]) := by
  unfold stepOperand at stepped
  split at stepped
  next value =>
    cases stepped
    exact .intro opened waits (.operator (.number value))
  next content =>
    cases stepped
    exact .intro opened waits (.operator (.text content))
  next name =>
    cases stepped
    exact .intro opened waits (.afterName name)
  next =>
    cases stepped
    exact .of_eq (.group opened waits) .empty .operand (by simp)
  next =>
    cases stepped
    exact .of_eq opened waits.sign .operand (by simp)
  next => cases stepped

theorem stepOperator_reads {operand : Expr} {pending : Pending} {levels : List Level}
    {token : Token} {next : State} {before waiting tokens : List Token}
    (stepped : stepOperator operand pending levels token = .ok next)
    (opened : Opened levels before) (waits : Waits pending waiting)
    (primary : Primary tokens operand) :
    Reads next (before ++ waiting ++ tokens ++ [token]) := by
  have sum := waits.total primary
  unfold stepOperator at stepped
  split at stepped
  next op =>
    cases stepped
    exact .of_eq opened (waits.after primary op) .operand (by simp)
  next outer levels =>
    cases stepped
    cases opened with
    | group opened outerWaits =>
        exact .of_eq opened outerWaits (.operator (.group sum)) (by simp)
  next outer name arguments levels =>
    cases stepped
    cases opened with
    | call opened outerWaits passed =>
        have list := passed.append (.one sum)
        exact .of_eq opened outerWaits (.operator (.call name (.some list))) (by simp)
  next outer name arguments levels =>
    cases stepped
    cases opened with
    | call opened outerWaits passed =>
        exact .of_eq (.call opened outerWaits (.more passed sum)) .empty .operand (by simp)
  next => cases stepped
  next => cases stepped
  next => cases stepped

/-- A step reads its token. -/
theorem step_reads {state next : State} {token : Token} {tokens : List Token}
    (reads : Reads state tokens) (stepped : step state token = .ok next) :
    Reads next (tokens ++ [token]) := by
  obtain ⟨opened, waits, begun⟩ := reads
  cases begun with
  | operand =>
      rw [List.append_nil]
      exact stepOperand_reads stepped opened waits
  | afterName name =>
      by_cases call : token = .leftParen
      · subst call
        cases stepped
        exact .of_eq opened waits (.argument name) (by simp)
      · rw [step_afterName name _ _ call] at stepped
        exact stepOperator_reads stepped opened waits (.variable name)
  | argument name =>
      by_cases none : token = .rightParen
      · subst none
        cases stepped
        exact .of_eq opened waits (.operator (.call name .none)) (by simp)
      · rw [step_argument name _ _ none] at stepped
        have reads := stepOperand_reads stepped (.call opened waits .none) .empty
        simpa using reads
  | operator primary => exact stepOperator_reads stepped opened waits primary

theorem finishOperand_reads {state : State} {operand tree : Expr}
    {before waiting tokens : List Token} (finished : finishOperand operand state = .ok tree)
    (opened : Opened state.levels before) (waits : Waits state.pending waiting)
    (primary : Primary tokens operand) : Sum (before ++ waiting ++ tokens) tree := by
  unfold finishOperand at finished
  split at finished
  next none =>
    rw [none] at opened
    cases opened
    cases finished
    exact waits.total primary
  next => cases finished

theorem finish_reads {state : State} {tokens : List Token} {tree : Expr}
    (reads : Reads state tokens) (finished : finish state = .ok tree) : Sum tokens tree := by
  obtain ⟨opened, waits, begun⟩ := reads
  cases begun with
  | operand => cases finished
  | afterName name => exact finishOperand_reads finished opened waits (.variable name)
  | argument name => cases finished
  | operator primary => exact finishOperand_reads finished opened waits primary

/-- What a run reads after the tokens that lead to its state is derived with them. -/
theorem run_reads {state : State} {before after : List Token} {tree : Expr}
    (reads : Reads state before) (read : run state after = .ok tree) :
    Sum (before ++ after) tree := by
  induction after generalizing state before with
  | nil =>
      rw [List.append_nil]
      exact finish_reads reads read
  | cons token rest ih =>
      rw [run] at read
      split at read
      next next stepped =>
        have longer := ih (step_reads reads stepped) read
        rw [List.append_assoc, List.singleton_append] at longer
        exact longer
      next => cases read

theorem start_reads : Reads start [] :=
  .of_eq .none .empty .operand rfl

end Parser

/-- Reading tokens as an expression is deriving them by the grammar: the tree is the one derived,
there is at most one, and tokens with none are refused. -/
theorem parse_iff_derived (tokens : List Token) :
    (∀ tree, Expr.parse tokens = .ok tree ↔ Grammar.Sum tokens tree) ∧
    (∀ one other, Grammar.Sum tokens one → Grammar.Sum tokens other → one = other) ∧
    ((∃ tree, Grammar.Sum tokens tree) ∨ ∃ fault, Expr.parse tokens = .error fault) := by
  refine ⟨?_, ?_, ?_⟩
  · intro tree
    constructor
    · intro read
      exact Parser.run_reads Parser.start_reads read
    · intro derived
      exact derived.parse
  · intro one other first second
    have same := first.parse
    rw [second.parse] at same
    exact (Except.ok.inj same).symm
  · cases read : Expr.parse tokens with
    | ok tree => exact .inl ⟨tree, Parser.run_reads Parser.start_reads read⟩
    | error fault => exact .inr ⟨fault, rfl⟩

theorem negated_difference_derived :
    Grammar.Sum [.operator .sub, .name ['a'], .operator .sub, .name ['b'], .operator .mul,
        .name ['c']]
      (.binary .sub (.negate (.variable ['a']))
        (.binary .mul (.variable ['b']) (.variable ['c']))) ∧
    ∀ tree, Grammar.Sum [.operator .sub, .name ['a'], .operator .sub, .name ['b'], .operator .mul,
        .name ['c']] tree →
      .binary .sub (.negate (.variable ['a']))
        (.binary .mul (.variable ['b']) (.variable ['c'])) = tree := by
  obtain ⟨derived, same, _⟩ := parse_iff_derived [.operator .sub, .name ['a'], .operator .sub,
    .name ['b'], .operator .mul, .name ['c']]
  have whole := (derived _).1 rfl
  refine ⟨whole, ?_⟩
  intro tree other
  exact same _ tree whole other

end Purr
