import Purr.Proofs.Executions

/-!
# Arguments

The body of a function starts in a copy of its caller's scope, in which the call has bound the
parameters. A parameter is bound to the argument at its place, if that argument is of its kind. All
else the caller's scope holds stays, also what it holds under the name of a parameter that the call
leaves unbound.
-/

namespace Purr

set_option autoImplicit false

/-- The argument for a parameter at a place: the one at the same place, if it is of the parameter's
kind. -/
def Parameter.given? (parameter : Parameter) (place : Nat) (values : List Value) : Option Value :=
  values[place]?.filter fun value => value.kind? = some parameter.kind

theorem Parameter.given?_eq_some_iff {parameter : Parameter} {place : Nat} {values : List Value}
    {value : Value} :
    parameter.given? place values = some value ↔
      values[place]? = some value ∧ value.kind? = some parameter.kind := by
  simp [given?, Option.filter_eq_some_iff]

namespace Scope

def value? (scope : Scope) (kind : Kind) (name : Text) : Option Value :=
  match kind with
  | .text => (scope.texts.find? name).map Value.text
  | .number => (scope.numbers.find? name).map Value.number
  | .boolean => (scope.booleans.find? name).map Value.boolean

theorem value?_bind_self (scope : Scope) (name : Text) {value : Value} {kind : Kind}
    (same : value.kind? = some kind) : (scope.bind name value).value? kind name = some value := by
  cases value with
  | absent => cases same
  | text content =>
      cases same
      simp [value?, bind]
  | number value =>
      cases same
      simp [value?, bind]
  | boolean value =>
      cases same
      simp [value?, bind]

theorem value?_bind_of_ne (scope : Scope) {name key : Text} {value : Value} {kind : Kind}
    (other : value.kind? = some kind → name ≠ key) :
    (scope.bind key value).value? kind name = scope.value? kind name := by
  cases value <;> cases kind <;> try rfl
  all_goals
    rw [value?, bind, Table.find?_insert_of_ne _ _ (other rfl)]
    rfl

variable {scope : Scope} {parameters : List Parameter} {parameter : Parameter} {kind : Kind}
  {name : Text}

theorem functions_withArguments (scope : Scope) (parameters : List Parameter)
    (values : List Value) :
    (scope.withArguments parameters values).functions = scope.functions := by
  have bound (inner _other : Scope) (key : Text) (value : Value)
      (same : inner.functions = scope.functions) :
      (inner.bind key value).functions = scope.functions := by
    rw [functions_bind, same]
  exact @related_withArguments (fun inner _ => inner.functions = scope.functions) bound scope scope
    rfl parameters values

theorem withArguments_take (scope : Scope) (parameters : List Parameter) (values : List Value) :
    scope.withArguments parameters (values.take parameters.length) =
      scope.withArguments parameters values := by
  induction parameters generalizing scope values with
  | nil => rfl
  | cons parameter parameters ih =>
      cases values with
      | nil => rfl
      | cons value values =>
          rw [List.length_cons, List.take_succ_cons, withArguments, withArguments, ih, ih]

theorem value?_withArguments_of_not_mem (values : List Value)
    (outside : ⟨kind, name⟩ ∉ parameters) :
    (scope.withArguments parameters values).value? kind name = scope.value? kind name := by
  induction parameters generalizing scope values with
  | nil => rfl
  | cons parameter parameters ih =>
      rw [List.mem_cons, not_or] at outside
      obtain ⟨distinct, outside⟩ := outside
      cases values with
      | nil => rfl
      | cons value values =>
          rw [withArguments]
          split
          next fits =>
            rw [ih values outside]
            apply value?_bind_of_ne
            rintro same rfl
            rw [same] at fits
            cases fits
            exact distinct rfl
          next => exact ih values outside

theorem value?_withArguments (distinct : parameters.Nodup) {place : Nat} (values : List Value)
    (here : parameters[place]? = some parameter) :
    (scope.withArguments parameters values).value? parameter.kind parameter.name =
      (parameter.given? place values).or (scope.value? parameter.kind parameter.name) := by
  induction parameters generalizing scope place values with
  | nil => cases here
  | cons first parameters ih =>
      obtain ⟨alone, distinct⟩ := List.nodup_cons.1 distinct
      cases values with
      | nil => rfl
      | cons value values =>
          rw [withArguments]
          cases place with
          | zero =>
              cases here
              split
              next fits =>
                have given : parameter.given? 0 (value :: values) = some value :=
                  Parameter.given?_eq_some_iff.2 ⟨rfl, fits⟩
                rw [value?_withArguments_of_not_mem values alone, given,
                  value?_bind_self scope parameter.name fits]
                rfl
              next misfit =>
                have missing : parameter.given? 0 (value :: values) = none := by
                  simp [Parameter.given?, misfit]
                rw [value?_withArguments_of_not_mem values alone, missing]
                rfl
          | succ place =>
              have later : parameters[place]? = some parameter := here
              split
              next fits =>
                rw [ih distinct values later]
                congr 1
                apply value?_bind_of_ne
                -- The first parameter is of the argument's kind, so it differs in its name.
                rintro same named
                rw [same] at fits
                have equal : parameter = first := by
                  cases parameter
                  cases first
                  cases fits
                  cases named
                  rfl
                exact alone (equal ▸ List.mem_of_getElem? later)
              next => exact ih distinct values later

end Scope

namespace Execution

structure Entered (function : Function) (values : List Value) (caller inner : Scope) : Prop where
  /-- A parameter is bound to the argument for it. Without one the caller's entry is left. -/
  parameters : ∀ (place : Nat) (parameter : Parameter),
    function.header.parameters[place]? = some parameter →
      inner.value? parameter.kind parameter.name =
        (parameter.given? place values).or (caller.value? parameter.kind parameter.name)
  others : ∀ kind name, ⟨kind, name⟩ ∉ function.header.parameters →
    inner.value? kind name = caller.value? kind name
  functions : inner.functions = caller.functions

theorem entered_withArguments {function : Function}
    (distinct : function.header.parameters.Nodup) (values : List Value) (caller : Scope) :
    Entered function values caller
      (caller.withArguments function.header.parameters values) where
  parameters _ _ here := Scope.value?_withArguments distinct values here
  others _ _ outside := Scope.value?_withArguments_of_not_mem values outside
  functions := Scope.functions_withArguments caller function.header.parameters values

theorem invoke_take (depth : Nat) (function : Function) (values : List Value) (caller : Scope) :
    invoke depth function (values.take function.header.parameters.length) caller =
      invoke depth function values caller := by
  cases depth with
  | zero => rfl
  | succ depth =>
      funext console
      rw [invoke_succ, carry, carry, Scope.withArguments_take]

/-- A call executes the body of its function in a scope in which each parameter is bound to the
argument for it, and in which all else is as in the caller's scope. Arguments beyond the last
parameter make no difference. -/
theorem invoke_binds_parameters (depth : Nat) (function : Function) (values : List Value)
    (caller : Scope) (console : Console) (distinct : function.header.parameters.Nodup) :
    ∃ inner, Entered function values caller inner ∧
      invoke (depth + 1) function values caller console =
        ((lines depth (some function) function.body ⟨inner, console⟩).1.map Flow.value,
          (lines depth (some function) function.body ⟨inner, console⟩).2.console) ∧
      invoke (depth + 1) function (values.take function.header.parameters.length) caller =
        invoke (depth + 1) function values caller := by
  refine ⟨caller.withArguments function.header.parameters values, ?_, ?_, ?_⟩
  · exact entered_withArguments distinct values caller
  · rw [invoke_succ, carry]
  · exact invoke_take (depth + 1) function values caller

def returnN : Function :=
  ⟨⟨"show".toList, .value .number, [⟨.number, ['n']⟩]⟩, [⟨2, "return n;".toList⟩], 1⟩

theorem returnN_enters :
    ∃ inner, Entered returnN [.text ['h'], .number zero] .empty inner ∧
      invoke 2 returnN [.text ['h'], .number zero] .empty (.opened .unlimited) =
        ((lines 1 (some returnN) returnN.body ⟨inner, .opened .unlimited⟩).1.map Flow.value,
          (lines 1 (some returnN) returnN.body ⟨inner, .opened .unlimited⟩).2.console) ∧
      invoke 2 returnN ([.text ['h'], .number zero].take 1) .empty =
        invoke 2 returnN [.text ['h'], .number zero] .empty :=
  invoke_binds_parameters 1 returnN _ .empty (.opened .unlimited) (by decide)

/-- A call without arguments leaves what its caller bound under the name of a parameter. -/
theorem returnN_sees_caller :
    let caller := Scope.empty.bind ['n'] (.number zero)
    Parameter.given? ⟨.number, ['n']⟩ 0 [] = none ∧
      (caller.withArguments returnN.header.parameters []).value? .number ['n'] =
        some (.number zero) :=
  ⟨rfl, rfl⟩

end Execution

end Purr
