import Purr.Function

/-!
# Scopes

A scope holds the variables of each kind and the functions, each in a table of its own, so one name
can be bound in several tables. A table is read by look-up only; inserting replaces.
-/

namespace Purr

set_option autoImplicit false

structure Table (α : Type) where
  entries : List (Text × α)

namespace Table

variable {α : Type}

def empty : Table α := ⟨[]⟩

def find? (table : Table α) (name : Text) : Option α := table.entries.lookup name

def insert (table : Table α) (name : Text) (entry : α) : Table α :=
  ⟨(name, entry) :: table.entries.filter fun other => other.1 != name⟩

@[simp] theorem find?_empty (name : Text) : (empty : Table α).find? name = none := rfl

theorem lookup_filter_ne {entries : List (Text × α)} {name other : Text} (distinct : other ≠ name) :
    (entries.filter fun entry => entry.1 != name).lookup other = entries.lookup other := by
  induction entries with
  | nil => rfl
  | cons entry rest ih =>
    obtain ⟨key, value⟩ := entry
    by_cases same : key = name
    · subst same
      have unequal : (other == key) = false := beq_eq_false_iff_ne.2 distinct
      simp [List.lookup_cons, unequal, ih]
    · simp [same, List.lookup_cons, ih]

@[simp] theorem find?_insert_self (table : Table α) (name : Text) (entry : α) :
    (table.insert name entry).find? name = some entry := by
  simp [find?, insert]

theorem find?_insert_of_ne (table : Table α) {name other : Text} (entry : α)
    (distinct : other ≠ name) : (table.insert name entry).find? other = table.find? other := by
  have unequal : (other == name) = false := beq_eq_false_iff_ne.2 distinct
  simp [find?, insert, List.lookup_cons, unequal, lookup_filter_ne distinct]

end Table

structure Scope where
  texts : Table Text
  numbers : Table Float
  booleans : Table Bool
  functions : Table Function

namespace Scope

def empty : Scope := ⟨.empty, .empty, .empty, .empty⟩

/-- Binds a name to a value in the table of the value's kind. An absent value is not bound. -/
def bind (scope : Scope) (name : Text) : Value → Scope
  | .absent => scope
  | .text content => { scope with texts := scope.texts.insert name content }
  | .number value => { scope with numbers := scope.numbers.insert name value }
  | .boolean value => { scope with booleans := scope.booleans.insert name value }

def define (scope : Scope) (function : Function) : Scope :=
  { scope with functions := scope.functions.insert function.header.name function }

/-- The value of a variable: a text before a number, a number before a boolean. -/
def lookup? (scope : Scope) (name : Text) : Option Value :=
  match scope.texts.find? name, scope.numbers.find? name, scope.booleans.find? name with
  | some content, _, _ => some (.text content)
  | none, some value, _ => some (.number value)
  | none, none, some value => some (.boolean value)
  | none, none, none => none

/-- What a name stands for as a number: a number variable, a boolean one, a text one, or a truth
value, in this order. -/
def number? (scope : Scope) (name : Text) : Option Float :=
  match scope.numbers.find? name, scope.booleans.find? name, scope.texts.find? name with
  | some value, _, _ => some value
  | none, some value, _ => some (boolNumber value)
  | none, none, some content => some (Value.text content).toNumber
  | none, none, none => (readBool? name).map boolNumber

def lineBreak : Text := "endl".toList

def inserted? (scope : Scope) (name : Text) : Option Text :=
  if name = lineBreak then some ['\n'] else (scope.lookup? name).map Value.toText

def text? (scope : Scope) (name : Text) : Option Text :=
  match scope.inserted? name with
  | some text => some text
  | none => (readBool? name).map boolText

/-- What a name stands for as an argument. A truth value comes before every variable, and a name
that stands for nothing is absent. -/
def argument (scope : Scope) (name : Text) : Value :=
  match readBool? name with
  | some value => .boolean value
  | none => (scope.lookup? name).getD .absent

/-- Binds parameters to the arguments at their places. An argument of another kind is not bound. -/
def withArguments (scope : Scope) : List Parameter → List Value → Scope
  | parameter :: parameters, value :: values =>
      if value.kind? = some parameter.kind then
        (scope.bind parameter.name value).withArguments parameters values
      else
        scope.withArguments parameters values
  | _, _ => scope

end Scope

end Purr
