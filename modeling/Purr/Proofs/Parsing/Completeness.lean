import Purr.Proofs.Parsing.Grammar

/-!
# What the grammar derives is read

Reading a derived part of an expression ends in a state that depends on its tree alone, whatever
follows. The parts below a sum are read before a sum is complete, so what waits on the level is
carried along: a primary expression keeps it, a product leaves the sum, a sum ends the level.
-/

namespace Purr

set_option autoImplicit false

namespace Parser

open Pending

theorem run_cons {state next : State} {token : Token} (rest : List Token)
    (stepped : step state token = .ok next) : run state (token :: rest) = run next rest := by
  rw [run, stepped]

theorem run_operator (operand : Expr) (pending : Pending) (levels : List Level) (op : Operator)
    (rest : List Token) :
    run ⟨.operator operand, pending, levels⟩ (.operator op :: rest) =
      run ⟨.operand, pending.after operand op, levels⟩ rest :=
  run_cons rest rfl

theorem run_endGroup (operand : Expr) (pending outer : Pending) (levels : List Level)
    (rest : List Token) :
    run ⟨.operator operand, pending, ⟨outer, .group⟩ :: levels⟩ (.rightParen :: rest) =
      run ⟨.operator (pending.total operand), outer, levels⟩ rest :=
  run_cons rest rfl

theorem run_endCall (operand : Expr) (pending outer : Pending) (name : Text)
    (arguments : List Expr) (levels : List Level) (rest : List Token) :
    run ⟨.operator operand, pending, ⟨outer, .call name arguments⟩ :: levels⟩
        (.rightParen :: rest) =
      run ⟨.operator (.call name (arguments ++ [pending.total operand])), outer, levels⟩ rest :=
  run_cons rest rfl

theorem run_comma (operand : Expr) (pending outer : Pending) (name : Text)
    (arguments : List Expr) (levels : List Level) (rest : List Token) :
    run ⟨.operator operand, pending, ⟨outer, .call name arguments⟩ :: levels⟩ (.comma :: rest) =
      run ⟨.operand, .empty, ⟨outer, .call name (arguments ++ [pending.total operand])⟩ :: levels⟩
        rest :=
  run_cons rest rfl

theorem total_join (sum : Option (Expr × Operator)) (part : Expr) :
    (⟨sum, none, 0⟩ : Pending).total part = join sum part := rfl

theorem signed_negate (signs : Nat) (operand : Expr) :
    signed signs (.negate operand) = signed (signs + 1) operand := by
  induction signs with
  | zero => rfl
  | succ signs ih => rw [signed, ih]; rfl

/-- The signs and the product that wait for an operand can be taken into it. -/
theorem run_factor (operand : Expr) (pending : Pending) (levels : List Level)
    (rest : List Token) :
    run ⟨.operator operand, pending, levels⟩ rest =
      run ⟨.operator (pending.factor operand), ⟨pending.sum, none, 0⟩, levels⟩ rest := by
  cases rest with
  | nil => cases levels <;> rfl
  | cons token rest =>
      have same : step ⟨.operator operand, pending, levels⟩ token =
          step ⟨.operator (pending.factor operand), ⟨pending.sum, none, 0⟩, levels⟩ token := by
        simp only [step]
        cases token <;> rcases levels with _ | ⟨⟨outer, _ | ⟨name, arguments⟩⟩, levels⟩ <;> rfl
      rw [run, run, same]

theorem run_signed (operand : Expr) (pending : Pending) (levels : List Level)
    (rest : List Token) :
    run ⟨.operator operand, pending, levels⟩ rest =
      run ⟨.operator (signed pending.signs operand), ⟨pending.sum, pending.product, 0⟩, levels⟩
        rest := by
  rw [run_factor, run_factor (signed pending.signs operand)]
  rfl

theorem step_afterName (name : Text) (pending : Pending) (levels : List Level) {token : Token}
    (noCall : token ≠ .leftParen) :
    step ⟨.afterName name, pending, levels⟩ token =
      stepOperator (.variable name) pending levels token := by
  cases token with
  | leftParen => exact absurd rfl noCall
  | _ => rfl

/-- The first argument of a call is read on a level of its own. -/
theorem step_argument (name : Text) (pending : Pending) (levels : List Level) {token : Token}
    (other : token ≠ .rightParen) :
    step ⟨.argument name, pending, levels⟩ token =
      stepOperand .empty (⟨pending, .call name []⟩ :: levels) token := by
  cases token with
  | rightParen => exact absurd rfl other
  | _ => rfl

theorem run_afterName (name : Text) (pending : Pending) (levels : List Level)
    {rest : List Token} (noCall : Grammar.NotFirst .leftParen rest) :
    run ⟨.afterName name, pending, levels⟩ rest =
      run ⟨.operator (.variable name), pending, levels⟩ rest := by
  cases rest with
  | nil => rfl
  | cons token rest =>
      have other : token ≠ .leftParen := by
        rintro rfl
        exact noCall rfl
      rw [run, step_afterName name pending levels other]
      rfl

theorem run_argument (name : Text) (pending : Pending) (levels : List Level)
    {tokens : List Token} (begins : Grammar.Begins tokens) :
    run ⟨.argument name, pending, levels⟩ tokens =
      run ⟨.operand, .empty, ⟨pending, .call name []⟩ :: levels⟩ tokens := by
  obtain ⟨first, rest, rfl, other⟩ := begins
  rw [run, step_argument name pending levels other]
  rfl

end Parser

namespace Grammar

open Purr.Parser Purr.Parser.Pending

theorem notFirst_operator (op : Operator) (rest : List Token) :
    NotFirst .leftParen (.operator op :: rest) := by
  simp [NotFirst]

theorem notFirst_comma (rest : List Token) : NotFirst .leftParen (.comma :: rest) := by
  simp [NotFirst]

theorem notFirst_rightParen (rest : List Token) : NotFirst .leftParen (.rightParen :: rest) := by
  simp [NotFirst]

theorem after_sum {op : Operator} (sum : op.isProduct = false) (pending : Pending)
    (operand : Expr) : pending.after operand op = ⟨some (pending.total operand, op), none, 0⟩ := by
  rw [after, sum]
  rfl

theorem after_product {op : Operator} (product : op.isProduct = true) (pending : Pending)
    (operand : Expr) :
    pending.after operand op = ⟨pending.sum, some (pending.factor operand, op), 0⟩ := by
  rw [after, product]
  rfl

-- By induction on the derivation, all six parts of the grammar at once.
mutual

theorem Sum.run {tokens : List Token} {tree : Expr} : Sum tokens tree →
    ∃ part sum, join sum part = tree ∧ ∀ levels rest, NotFirst .leftParen rest →
      Parser.run ⟨.operand, .empty, levels⟩ (tokens ++ rest) =
        Parser.run ⟨.operator part, ⟨sum, none, 0⟩, levels⟩ rest
  | .one inner => ⟨tree, none, rfl, fun levels rest noCall => inner.run none levels rest noCall⟩
  | @Sum.more before after left right op first sum second => by
      obtain ⟨part, waiting, joined, read⟩ := first.run
      refine ⟨right, some (left, op), rfl, ?_⟩
      intro levels rest noCall
      rw [List.append_assoc, List.cons_append, read levels _ (notFirst_operator op _),
        run_operator, after_sum sum, total_join, joined]
      exact second.run (some (left, op)) levels rest noCall

theorem Product.run {tokens : List Token} {tree : Expr} : Product tokens tree →
    ∀ sum levels rest, NotFirst .leftParen rest →
      Parser.run ⟨.operand, ⟨sum, none, 0⟩, levels⟩ (tokens ++ rest) =
        Parser.run ⟨.operator tree, ⟨sum, none, 0⟩, levels⟩ rest
  | .one inner => fun sum levels rest noCall => inner.run ⟨sum, none, 0⟩ levels rest noCall
  | @Product.more before after left right op first product second => by
      intro sum levels rest noCall
      rw [List.append_assoc, List.cons_append, first.run sum levels _ (notFirst_operator op _),
        run_operator, after_product product, second.run _ levels rest noCall, run_factor]
      rfl

theorem Unary.run {tokens : List Token} {tree : Expr} : Unary tokens tree →
    ∀ pending levels rest, NotFirst .leftParen rest →
      Parser.run ⟨.operand, pending, levels⟩ (tokens ++ rest) =
        Parser.run ⟨.operator (signed pending.signs tree), ⟨pending.sum, pending.product, 0⟩,
          levels⟩ rest
  | @Unary.negate tokens tree inner => by
      intro pending levels rest noCall
      rw [List.cons_append, run_cons _ rfl, inner.run _ levels rest noCall, signed_negate]
  | .primary inner => by
      intro pending levels rest noCall
      rw [inner.run pending levels rest noCall, run_signed]

theorem Primary.run {tokens : List Token} {tree : Expr} : Primary tokens tree →
    ∀ pending levels rest, NotFirst .leftParen rest →
      Parser.run ⟨.operand, pending, levels⟩ (tokens ++ rest) =
        Parser.run ⟨.operator tree, pending, levels⟩ rest
  | .number value => fun _ _ rest _ => run_cons rest rfl
  | .text content => fun _ _ rest _ => run_cons rest rfl
  | .variable name => by
      intro pending levels rest noCall
      rw [List.singleton_append, run_cons rest rfl]
      exact run_afterName name pending levels noCall
  | @Primary.call tokens arguments name inner => by
      intro pending levels rest _
      have shape : .name name :: .leftParen :: (tokens ++ [.rightParen]) ++ rest =
          .name name :: .leftParen :: (tokens ++ .rightParen :: rest) := by simp
      rw [shape, run_cons _ rfl, run_cons _ rfl]
      exact inner.run name pending levels rest
  | @Primary.group tokens tree inner => by
      intro pending levels rest _
      obtain ⟨part, sum, joined, read⟩ := inner.run
      have shape : .leftParen :: (tokens ++ [.rightParen]) ++ rest =
          .leftParen :: (tokens ++ .rightParen :: rest) := by simp
      rw [shape, run_cons _ rfl, read _ _ (notFirst_rightParen rest), run_endGroup, total_join,
        joined]

theorem Arguments.run {tokens : List Token} {trees : List Expr} : Arguments tokens trees →
    ∀ name pending levels rest,
      Parser.run ⟨.argument name, pending, levels⟩ (tokens ++ .rightParen :: rest) =
        Parser.run ⟨.operator (.call name trees), pending, levels⟩ rest
  | .none => fun _ _ _ rest => run_cons rest rfl
  | .some inner => by
      intro name pending levels rest
      rw [run_argument name pending levels (inner.begins.append _)]
      exact inner.run name [] pending levels rest

theorem ArgumentList.run {tokens : List Token} {trees : List Expr} : ArgumentList tokens trees →
    ∀ name earlier outer levels rest,
      Parser.run ⟨.operand, .empty, ⟨outer, .call name earlier⟩ :: levels⟩
          (tokens ++ .rightParen :: rest) =
        Parser.run ⟨.operator (.call name (earlier ++ trees)), outer, levels⟩ rest
  | @ArgumentList.one tokens tree inner => by
      intro name earlier outer levels rest
      obtain ⟨part, sum, joined, read⟩ := inner.run
      rw [read _ _ (notFirst_rightParen rest), run_endCall, total_join, joined]
  | @ArgumentList.more before after tree trees first others => by
      intro name earlier outer levels rest
      obtain ⟨part, sum, joined, read⟩ := first.run
      have later := others.run name (earlier ++ [tree]) outer levels rest
      rw [List.append_assoc, List.singleton_append] at later
      rw [List.append_assoc, List.cons_append, read _ _ (notFirst_comma _), run_comma, total_join,
        joined, later]

end

/-- Every list of tokens that the grammar derives is read, and its tree is built. -/
theorem Sum.parse {tokens : List Token} {tree : Expr} (derived : Sum tokens tree) :
    Expr.parse tokens = .ok tree := by
  obtain ⟨part, sum, joined, read⟩ := derived.run
  have whole := read [] [] (by simp [NotFirst])
  rw [List.append_nil] at whole
  rw [Expr.parse, start, whole, ← joined]
  rfl

end Grammar

end Purr
