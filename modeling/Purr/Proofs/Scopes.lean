import Purr.Scope

/-!
# What a scope says of a name

Everything that is looked up in a scope is looked up by a name. Two scopes that say the same of a
name answer every such question about it alike, and go on to do so whatever is bound in both of
them; and binding one name leaves what is said of the others.
-/

namespace Purr.Scope

set_option autoImplicit false

@[simp] theorem functions_bind (scope : Scope) (name : Text) (value : Value) :
    (scope.bind name value).functions = scope.functions := by
  cases value <;> rfl

theorem eq_or_known_of_define {scope : Scope} {function called : Function} {name : Text}
    (found : (scope.define function).functions.find? name = some called) :
    called = function ∨ scope.functions.find? name = some called := by
  rw [define] at found
  by_cases same : name = function.header.name
  · rw [same, Table.find?_insert_self] at found
    exact .inl (Option.some.inj found).symm
  · rw [Table.find?_insert_of_ne _ _ same] at found
    exact .inr found

/-- What binding the same value in two scopes keeps, binding the arguments of a call keeps. -/
theorem related_withArguments {related : Scope → Scope → Prop}
    (bound : ∀ scope other key value, related scope other →
      related (scope.bind key value) (other.bind key value))
    {scope other : Scope} (start : related scope other) (parameters : List Parameter)
    (values : List Value) :
    related (scope.withArguments parameters values) (other.withArguments parameters values) := by
  induction parameters generalizing scope other values with
  | nil => exact start
  | cons parameter parameters ih =>
      cases values with
      | nil => exact start
      | cons value values =>
          rw [withArguments, withArguments]
          split
          next => exact ih (bound _ _ parameter.name value start) values
          next => exact ih start values

/-- Two scopes say the same of a name: all of their tables do. -/
structure Alike (name : Text) (scope other : Scope) : Prop where
  texts : scope.texts.find? name = other.texts.find? name
  numbers : scope.numbers.find? name = other.numbers.find? name
  booleans : scope.booleans.find? name = other.booleans.find? name
  functions : scope.functions.find? name = other.functions.find? name

namespace Alike

variable {name : Text} {scope other : Scope}

theorem refl (name : Text) (scope : Scope) : Alike name scope scope := ⟨rfl, rfl, rfl, rfl⟩

theorem symm (alike : Alike name scope other) : Alike name other scope :=
  ⟨alike.texts.symm, alike.numbers.symm, alike.booleans.symm, alike.functions.symm⟩

theorem trans {last : Scope} (first : Alike name scope other) (second : Alike name other last) :
    Alike name scope last :=
  ⟨first.texts.trans second.texts, first.numbers.trans second.numbers,
    first.booleans.trans second.booleans, first.functions.trans second.functions⟩

theorem lookup?_eq (alike : Alike name scope other) : scope.lookup? name = other.lookup? name := by
  simp only [lookup?, alike.texts, alike.numbers, alike.booleans]

theorem number?_eq (alike : Alike name scope other) : scope.number? name = other.number? name := by
  simp only [number?, alike.texts, alike.numbers, alike.booleans]

theorem inserted?_eq (alike : Alike name scope other) :
    scope.inserted? name = other.inserted? name := by
  simp only [inserted?, alike.lookup?_eq]

theorem text?_eq (alike : Alike name scope other) : scope.text? name = other.text? name := by
  simp only [text?, alike.inserted?_eq]

theorem argument_eq (alike : Alike name scope other) :
    scope.argument name = other.argument name := by
  simp only [argument, alike.lookup?_eq]

theorem find?_insert {α : Type} {table others : Table α}
    (alike : table.find? name = others.find? name) (key : Text) (entry : α) :
    (table.insert key entry).find? name = (others.insert key entry).find? name := by
  by_cases same : name = key
  · subst same
    rw [Table.find?_insert_self, Table.find?_insert_self]
  · rw [Table.find?_insert_of_ne _ _ same, Table.find?_insert_of_ne _ _ same, alike]

theorem bind (alike : Alike name scope other) (key : Text) (value : Value) :
    Alike name (scope.bind key value) (other.bind key value) := by
  cases value with
  | absent => exact alike
  | text content => exact { alike with texts := find?_insert alike.texts key content }
  | number value => exact { alike with numbers := find?_insert alike.numbers key value }
  | boolean value => exact { alike with booleans := find?_insert alike.booleans key value }

theorem define (alike : Alike name scope other) (function : Function) :
    Alike name (scope.define function) (other.define function) :=
  { alike with functions := find?_insert alike.functions _ function }

theorem of_bind (scope : Scope) {key : Text} (distinct : name ≠ key) (value : Value) :
    Alike name (scope.bind key value) scope := by
  cases value with
  | absent => exact refl name scope
  | text content => exact { refl name scope with texts := Table.find?_insert_of_ne _ _ distinct }
  | number value => exact { refl name scope with numbers := Table.find?_insert_of_ne _ _ distinct }
  | boolean value =>
      exact { refl name scope with booleans := Table.find?_insert_of_ne _ _ distinct }

theorem of_define (scope : Scope) {function : Function} (distinct : name ≠ function.header.name) :
    Alike name (scope.define function) scope :=
  { refl name scope with functions := Table.find?_insert_of_ne _ _ distinct }

end Alike

end Purr.Scope
