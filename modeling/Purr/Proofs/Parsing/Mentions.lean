import Purr.Proofs.Parsing.Correctness

/-!
# What expressions mention

A tree names nothing but names among the tokens that it is read from, and a refusal of tokens shows
none but one of them.
-/

namespace Purr

set_option autoImplicit false

inductive Expr.Mentions (name : Text) : Expr → Prop
  | «variable» : Mentions name (.variable name)
  | negate {operand : Expr} : Mentions name operand → Mentions name (.negate operand)
  | left {op : Operator} {left right : Expr} : Mentions name left →
      Mentions name (.binary op left right)
  | right {op : Operator} {left right : Expr} : Mentions name right →
      Mentions name (.binary op left right)
  | callee {arguments : List Expr} : Mentions name (.call name arguments)
  | argument {callee : Text} {argument : Expr} {arguments : List Expr} : argument ∈ arguments →
      Mentions name argument → Mentions name (.call callee arguments)

namespace Grammar

-- By induction on the derivation, all six parts of the grammar at once.
mutual

theorem Sum.mentions {tokens : List Token} {tree : Expr} : Sum tokens tree →
    ∀ name, tree.Mentions name → .name name ∈ tokens
  | .one inner => inner.mentions
  | .more first _ second => by
      intro name occurs
      cases occurs with
      | left occurs => exact List.mem_append_left _ (first.mentions name occurs)
      | right occurs =>
          exact List.mem_append_right _ (List.mem_cons_of_mem _ (second.mentions name occurs))

theorem Product.mentions {tokens : List Token} {tree : Expr} : Product tokens tree →
    ∀ name, tree.Mentions name → .name name ∈ tokens
  | .one inner => inner.mentions
  | .more first _ second => by
      intro name occurs
      cases occurs with
      | left occurs => exact List.mem_append_left _ (first.mentions name occurs)
      | right occurs =>
          exact List.mem_append_right _ (List.mem_cons_of_mem _ (second.mentions name occurs))

theorem Unary.mentions {tokens : List Token} {tree : Expr} : Unary tokens tree →
    ∀ name, tree.Mentions name → .name name ∈ tokens
  | .negate inner => by
      intro name occurs
      cases occurs with
      | negate occurs => exact List.mem_cons_of_mem _ (inner.mentions name occurs)
  | .primary inner => inner.mentions

theorem Primary.mentions {tokens : List Token} {tree : Expr} : Primary tokens tree →
    ∀ name, tree.Mentions name → .name name ∈ tokens
  | .number value => nofun
  | .text content => nofun
  | .variable _ => by
      intro name occurs
      cases occurs
      exact List.mem_cons_self
  | .call _ inner => by
      intro name occurs
      cases occurs with
      | callee => exact List.mem_cons_self
      | argument member occurs =>
          have inside := inner.mentions _ member name occurs
          exact List.mem_cons_of_mem _ (List.mem_cons_of_mem _ (List.mem_append_left _ inside))
  | .group inner => by
      intro name occurs
      exact List.mem_cons_of_mem _ (List.mem_append_left _ (inner.mentions name occurs))

theorem Arguments.mentions {tokens : List Token} {trees : List Expr} : Arguments tokens trees →
    ∀ tree ∈ trees, ∀ name, tree.Mentions name → .name name ∈ tokens
  | .none => nofun
  | .some inner => inner.mentions

theorem ArgumentList.mentions {tokens : List Token} {trees : List Expr} :
    ArgumentList tokens trees → ∀ tree ∈ trees, ∀ name, tree.Mentions name → .name name ∈ tokens
  | .one inner => by
      intro tree member name occurs
      rw [List.mem_singleton.1 member] at occurs
      exact inner.mentions name occurs
  | .more first others => by
      intro tree member name occurs
      rcases List.mem_cons.1 member with same | later
      · rw [same] at occurs
        exact List.mem_append_left _ (first.mentions name occurs)
      · have inside := others.mentions tree later name occurs
        exact List.mem_append_right _ (List.mem_cons_of_mem _ inside)

end

end Grammar

/-- The name of every variable and function in a tree is one of the tokens. -/
theorem Expr.mem_of_parse {name : Text} {tokens : List Token} {tree : Expr}
    (read : parse tokens = .ok tree) (occurs : tree.Mentions name) : .name name ∈ tokens :=
  (Parser.run_reads Parser.start_reads read).mentions name occurs

/-- The fault is one of tokens, and shows none but one of these. -/
def SyntaxFault.Among (tokens : List Token) : SyntaxFault → Prop
  | .invalid _ => False
  | .unexpected token | .inArguments token | .afterEnd token => token ∈ tokens
  | .notACall | .unexpectedEnd | .unclosed => True

theorem SyntaxFault.Among.mono {tokens more : List Token} {fault : SyntaxFault}
    (among : fault.Among tokens) (subset : tokens ⊆ more) : fault.Among more := by
  cases fault with
  | invalid text => exact among
  | unexpected token | inArguments token | afterEnd token => exact subset among
  | notACall | unexpectedEnd | unclosed => trivial

namespace Parser

theorem stepOperand_among {pending : Pending} {levels : List Level} {token : Token}
    {fault : SyntaxFault} (failed : stepOperand pending levels token = .error fault) :
    fault.Among [token] := by
  unfold stepOperand at failed
  split at failed
  all_goals cases failed
  exact List.mem_singleton_self token

theorem stepOperator_among {operand : Expr} {pending : Pending} {levels : List Level}
    {token : Token} {fault : SyntaxFault}
    (failed : stepOperator operand pending levels token = .error fault) : fault.Among [token] := by
  unfold stepOperator at failed
  split at failed
  all_goals cases failed
  · exact List.mem_singleton_self token
  · trivial
  · exact List.mem_singleton_self token

theorem step_among {state : State} {token : Token} {fault : SyntaxFault}
    (failed : step state token = .error fault) : fault.Among [token] := by
  unfold step at failed
  split at failed
  next => exact stepOperand_among failed
  next => cases failed
  next => exact stepOperator_among failed
  next => cases failed
  next => exact stepOperand_among failed
  next => exact stepOperator_among failed

theorem finish_among {state : State} {fault : SyntaxFault} (failed : finish state = .error fault)
    (tokens : List Token) : fault.Among tokens := by
  have operand {tree : Expr} (failed : finishOperand tree state = .error fault) :
      fault.Among tokens := by
    unfold finishOperand at failed
    split at failed
    all_goals cases failed
    trivial
  unfold finish at failed
  split at failed
  next => cases failed; trivial
  next => cases failed; trivial
  next => exact operand failed
  next => exact operand failed

theorem run_among {state : State} {tokens : List Token} {fault : SyntaxFault}
    (failed : run state tokens = .error fault) : fault.Among tokens := by
  induction tokens generalizing state with
  | nil => exact finish_among failed []
  | cons token rest ih =>
      rw [run] at failed
      split at failed
      next next _ => exact (ih failed).mono (List.subset_cons_self token rest)
      next stopped _ =>
        cases failed
        rename_i stepped
        exact (step_among stepped).mono (by simp)

end Parser

theorem Expr.parseCall_among {tokens : List Token} {fault : SyntaxFault}
    (failed : parseCall tokens = .error fault) : fault.Among tokens := by
  unfold parseCall at failed
  split at failed
  next => cases failed
  next => cases failed; trivial
  next read =>
    cases failed
    exact Parser.run_among read

end Purr
