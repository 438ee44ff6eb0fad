import Purr.Evaluation
import Purr.Proofs.Parsing.Correctness

/-!
# Unknown names in numbers

A tree that is read from tokens without a call has the names of these tokens as its variables, in
their order: grouping moves parentheses, never operands. Evaluating it as a number visits every
operand once and from left to right, so each name that stands for nothing is reported at its turn,
and nothing else happens.
-/

namespace Purr

set_option autoImplicit false

def Text.SameLetters (text other : Text) : Prop :=
  text.map Char.toLower = other.map Char.toLower

theorem lowerAscii_eq_toLower (c : Char) : lowerAscii c = c.toLower := by
  unfold lowerAscii
  split
  next capital =>
    have moved : c.toLower.toNat = c.toNat + 32 := by
      have small : c.toNat ≤ 90 := capital.2
      have step : c.toLower.val = c.val + 32 := congrArg Char.val (dif_pos capital)
      have fits : c.toNat + 32 < 2 ^ 32 := by omega
      exact (congrArg UInt32.toNat step).trans
        ((UInt32.toNat_add _ _).trans (Nat.mod_eq_of_lt fits))
    rw [← moved, Char.ofNat_toNat]
  next other =>
    have unmoved : c.toLower = c := dif_neg other
    exact unmoved.symm

theorem readBool?_eq_none_iff (text : Text) :
    readBool? text = none ↔ ∀ value, ¬ text.SameLetters (boolText value) := by
  have small (value : Bool) : text.SameLetters (boolText value) ↔
      text.map lowerAscii = boolText value := by
    have same : (boolText value).map Char.toLower = boolText value := by cases value <;> decide
    rw [Text.SameLetters, same, funext lowerAscii_eq_toLower]
  unfold readBool?
  simp only [Bool.forall_bool, small]
  split
  next spelled => simp [spelled]
  next other =>
    split
    next spelled => simp [spelled]
    next another => simp [other, another]

namespace Scope

/-- A name that stands for no number: no variable of any kind has it, and it is no truth value. -/
structure Unknown (scope : Scope) (name : Text) : Prop where
  number : scope.numbers.find? name = none
  boolean : scope.booleans.find? name = none
  text : scope.texts.find? name = none
  truth : ∀ value, ¬ name.SameLetters (boolText value)

variable {scope : Scope} {name : Text}

theorem number?_eq_none_iff : scope.number? name = none ↔ scope.Unknown name := by
  unfold number?
  constructor
  · intro missing
    split at missing
    next => cases missing
    next => cases missing
    next => cases missing
    next number boolean text =>
      exact ⟨number, boolean, text,
        (readBool?_eq_none_iff name).1 (Option.map_eq_none_iff.1 missing)⟩
  · rintro ⟨number, boolean, text, truth⟩
    rw [number, boolean, text, (readBool?_eq_none_iff name).2 truth]
    rfl

instance (scope : Scope) : DecidablePred scope.Unknown := fun _ =>
  decidable_of_iff _ number?_eq_none_iff

def unknown (scope : Scope) (names : List Text) : List Fault :=
  (names.filter fun name => scope.Unknown name).map .unknownVariable

theorem unknown_append (names others : List Text) :
    scope.unknown (names ++ others) = scope.unknown names ++ scope.unknown others := by
  rw [unknown, List.filter_append, List.map_append]
  rfl

end Scope

namespace Console

/-- Nothing happens to a console but that faults are reported for a line, one after another: each
is one attempt, and stays if the stream accepts that attempt. -/
structure Reported (line : Nat) (faults : List Fault) (before after : Console) : Prop where
  streams : after.streams = before.streams
  writes : after.writes = before.writes
  attempts : after.attempts = before.attempts + faults.length
  reports : after.reports =
    (((faults.zipIdx before.attempts).filter fun (_, attempt) =>
      before.streams.acceptsDiagnostic attempt).map fun (fault, _) =>
        ⟨line, fault⟩).reverse ++ before.reports

namespace Reported

variable {line : Nat} {before between after : Console} {faults others : List Fault}

theorem none (line : Nat) (console : Console) : Reported line [] console console where
  streams := rfl
  writes := rfl
  attempts := rfl
  reports := rfl

theorem report (line : Nat) (fault : Fault) (console : Console) :
    Reported line [fault] console (Console.report line fault console).2 where
  streams := rfl
  writes := console.writes_add_attempt line fault
  attempts := console.attempts_add_attempt line fault
  reports := by
    refine (console.reports_add_attempt line fault).trans ?_
    split
    next accepted => simp [accepted]
    next refused => simp [refused]

theorem append (first : Reported line faults before between)
    (second : Reported line others between after) :
    Reported line (faults ++ others) before after where
  streams := second.streams.trans first.streams
  writes := second.writes.trans first.writes
  attempts := by rw [second.attempts, first.attempts, List.length_append, Nat.add_assoc]
  reports := by
    rw [second.reports, first.reports, first.attempts, first.streams, List.zipIdx_append,
      List.filter_append, List.map_append, List.reverse_append, List.append_assoc]

theorem diagnostics_eq (reported : Reported line faults before after)
    (accepting : ∀ attempt, before.streams.acceptsDiagnostic attempt = true) :
    after.diagnostics = before.diagnostics ++
      (faults.map fun fault => (Diagnostic.mk line fault).message ++ ['\n']).flatten := by
  have every : after.reports = (faults.map (Diagnostic.mk line)).reverse ++ before.reports := by
    rw [reported.reports, List.filter_eq_self.2 (fun _ _ => accepting _)]
    change ((faults.zipIdx before.attempts).map (Diagnostic.mk line ∘ Prod.fst)).reverse ++ _ = _
    rw [← List.map_map, List.zipIdx_map_fst]
  rw [Console.diagnostics, Console.diagnostics, every, List.reverse_append, List.reverse_reverse,
    List.map_append, List.flatten_append, List.map_map]
  rfl

end Reported

end Console

namespace Token

def name? : Token → Option Text
  | .name word => some word
  | _ => none

/-- No name among the tokens has a parenthesis right after it. -/
def Uncalled (tokens : List Token) : Prop :=
  ∀ word, ¬ [.name word, .leftParen] <:+: tokens

theorem Uncalled.of_infix {tokens part : List Token} (uncalled : Uncalled tokens)
    (inside : part <:+: tokens) : Uncalled part := fun word called =>
  uncalled word (called.trans inside)

theorem Uncalled.sides {before after : List Token} {token : Token}
    (uncalled : Uncalled (before ++ token :: after)) : Uncalled before ∧ Uncalled after where
  left := uncalled.of_infix (List.prefix_append before _).isInfix
  right := uncalled.of_infix
    ((List.suffix_cons token after).trans (List.suffix_append before _)).isInfix

def names (tokens : List Token) : List Text := tokens.filterMap name?

theorem names_append (before after : List Token) :
    names (before ++ after) = names before ++ names after :=
  List.filterMap_append

end Token

/-- The tree has no call, and these are its variables from left to right. -/
inductive Expr.Variables : Expr → List Text → Prop
  | number (value : Float) : Variables (.number value) []
  | text (content : Text) : Variables (.text content) []
  | «variable» (name : Text) : Variables (.variable name) [name]
  | negate {operand : Expr} {names : List Text} : Variables operand names →
      Variables (.negate operand) names
  | binary {left right : Expr} {first second : List Text} (op : Operator) :
      Variables left first → Variables right second →
      Variables (.binary op left right) (first ++ second)

namespace Grammar

open Token (Uncalled names)

-- By induction on the derivation. Arguments have no case: the parenthesis of a call follows a name.
mutual

theorem Sum.names_in_order {tokens : List Token} {tree : Expr} : Sum tokens tree → Uncalled tokens →
    tree.Variables (names tokens)
  | .one inner, uncalled => inner.names_in_order uncalled
  | @Sum.more _ _ _ _ op first _ second, uncalled => by
      obtain ⟨before, after⟩ := uncalled.sides
      rw [Token.names_append]
      exact .binary op (first.names_in_order before) (second.names_in_order after)

theorem Product.names_in_order {tokens : List Token} {tree : Expr} : Product tokens tree →
    Uncalled tokens → tree.Variables (names tokens)
  | .one inner, uncalled => inner.names_in_order uncalled
  | @Product.more _ _ _ _ op first _ second, uncalled => by
      obtain ⟨before, after⟩ := uncalled.sides
      rw [Token.names_append]
      exact .binary op (first.names_in_order before) (second.names_in_order after)

theorem Unary.names_in_order {tokens : List Token} {tree : Expr} : Unary tokens tree →
    Uncalled tokens → tree.Variables (names tokens)
  | .negate inner, uncalled =>
      .negate (inner.names_in_order (uncalled.of_infix (List.suffix_cons _ _).isInfix))
  | .primary inner, uncalled => inner.names_in_order uncalled

theorem Primary.names_in_order {tokens : List Token} {tree : Expr} : Primary tokens tree →
    Uncalled tokens → tree.Variables (names tokens)
  | .number value, _ => .number value
  | .text content, _ => .text content
  | .variable name, _ => .variable name
  | .call name _, uncalled => absurd ⟨[], _, rfl⟩ (uncalled name)
  | @Primary.group inside _ inner, uncalled => by
      have ordered := inner.names_in_order (uncalled.of_infix ⟨[.leftParen], [.rightParen], rfl⟩)
      have same : names (.leftParen :: (inside ++ [.rightParen])) = names inside := by
        change names (inside ++ [.rightParen]) = names inside
        rw [Token.names_append]
        exact List.append_nil _
      rw [same]
      exact ordered

end

end Grammar

theorem Expr.Variables.reports {tree : Expr} {names : List Text} (ordered : tree.Variables names)
    (invoke : Invoke) (scope : Scope) (line : Nat) (console : Console) :
    ∃ value reached, Evaluation.number invoke scope line tree console = (.ok value, reached) ∧
      console.Reported line (scope.unknown names) reached := by
  induction ordered generalizing console with
  | number value => exact ⟨value, console, rfl, .none line console⟩
  | text content => exact ⟨_, console, rfl, .none line console⟩
  | «variable» name =>
      rw [Evaluation.number]
      cases known : scope.number? name with
      | some value =>
          have silent : scope.unknown [name] = [] := by
            have known : ¬ scope.Unknown name := by
              rw [← Scope.number?_eq_none_iff, known]
              exact Option.some_ne_none value
            simp [Scope.unknown, known]
          rw [silent]
          exact ⟨value, console, rfl, .none line console⟩
      | none =>
          have loud : scope.unknown [name] = [.unknownVariable name] := by
            simp [Scope.unknown, Scope.number?_eq_none_iff.1 known]
          rw [loud]
          exact ⟨zero, _, rfl, .report line _ console⟩
  | negate _ ih =>
      obtain ⟨value, reached, ran, reported⟩ := ih console
      refine ⟨-value, reached, ?_, reported⟩
      rw [Evaluation.number, Run.bind_apply, ran]
      rfl
  | binary op _ _ first second =>
      obtain ⟨left, between, ranLeft, before⟩ := first console
      obtain ⟨right, reached, ranRight, after⟩ := second between
      refine ⟨op.apply left right, reached, ?_, ?_⟩
      · rw [Evaluation.number, Run.bind_apply, ranLeft]
        dsimp only
        rw [Run.bind_apply, ranRight]
        rfl
      · rw [Scope.unknown_append]
        exact before.append after

/-- Tokens that are read as a tree, none of them a call: evaluating the tree as a number always
gives a value, writes nothing, and reports every name among the tokens that stands for nothing,
each time it occurs and in the order of the tokens. Nothing else is reported, so a stream that
accepts every diagnostic gets just these messages. -/
theorem Evaluation.number_reports_unknown_names {tokens : List Token} {tree : Expr}
    (read : Expr.parse tokens = .ok tree) (uncalled : Token.Uncalled tokens) (invoke : Invoke)
    (scope : Scope) (line : Nat) (console : Console) :
    ∃ value reached, number invoke scope line tree console = (.ok value, reached) ∧
      console.Reported line (scope.unknown (Token.names tokens)) reached ∧
      ((∀ attempt, console.streams.acceptsDiagnostic attempt = true) →
        reached.diagnostics = console.diagnostics ++
          ((scope.unknown (Token.names tokens)).map fun fault =>
            (Diagnostic.mk line fault).message ++ ['\n']).flatten) := by
  have derived := Parser.run_reads Parser.start_reads read
  have ordered := derived.names_in_order uncalled
  obtain ⟨value, reached, ran, reported⟩ := ordered.reports invoke scope line console
  exact ⟨value, reached, ran, reported, reported.diagnostics_eq⟩

theorem Evaluation.negated_sum_reports_three :
    let tokens : List Token := [.operator .sub, .leftParen, .name ['b'], .operator .add,
      .name ['x'], .rightParen, .operator .mul, .name ['a'], .operator .sub,
      .name "TRUE".toList, .operator .div, .name ['b']]
    let tree : Expr := .binary .sub
      (.binary .mul (.negate (.binary .add (.variable ['b']) (.variable ['x']))) (.variable ['a']))
      (.binary .div (.variable "TRUE".toList) (.variable ['b']))
    let scope := Scope.empty.bind ['x'] (.number zero)
    Expr.parse tokens = .ok tree ∧ Token.Uncalled tokens ∧
      ∃ value reached,
        number (fun _ _ _ => pure .absent) scope 3 tree (.opened .unlimited) = (.ok value, reached) ∧
          reached.writes = [] ∧
          reached.diagnostics = ("Error on line 3: Undefined variable: b\n" ++
            "Error on line 3: Undefined variable: a\n" ++
            "Error on line 3: Undefined variable: b\n").toList := by
  intro tokens tree scope
  have read : Expr.parse tokens = .ok tree := rfl
  have uncalled : Token.Uncalled tokens := by
    intro word called
    simp [tokens, List.infix_cons_iff] at called
  obtain ⟨value, reached, ran, reported, messages⟩ := number_reports_unknown_names read uncalled
    (fun _ _ _ => pure .absent) scope 3 (.opened .unlimited)
  refine ⟨read, uncalled, value, reached, ran, reported.writes, ?_⟩
  rw [messages (fun _ => rfl)]
  decide +kernel

end Purr
