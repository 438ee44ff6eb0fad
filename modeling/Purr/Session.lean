import Purr.Script

/-!
# Sessions

Requests that are carried out one after another against one scope. A request that halts does not end
the session; what it changed before stays changed.
-/

namespace Purr

set_option autoImplicit false

namespace Session

inductive Request where
  /-- Executes a script, inside a function if one of that name is defined. -/
  | execute (source : Text) (frame : Option Text)
  | call (name : Text) (arguments : List Value)
  | bind (name : Text) (value : Value)
  | lookup (name : Text)

inductive Answer where
  | flow (flow : Flow)
  | value (value : Option Value)
  | nothing

def request (depth : Nat) : Request → Run World Answer
  | .execute source frame => fun world =>
      let function := frame.bind world.scope.functions.find?
      (Execution.lines depth function (codeLines source) >>= fun flow => pure (.flow flow)) world
  | .call name arguments => do
      let result ← World.evaluate fun scope =>
        match scope.functions.find? name with
        | some function => some <$> Execution.invoke depth function arguments scope
        | none => return none
      return .value result
  | .bind name value => do
      World.bind? name (some value)
      return .nothing
  | .lookup name => World.evaluate fun scope => return .value (scope.lookup? name)

structure Step where
  answer : Except Halt Answer
  transcript : Transcript
  scope : Scope

def run (depth : Nat) (scope : Scope) : List Request → List Step
  | [] => []
  | asked :: rest =>
      match request depth asked ⟨scope, .opened .unlimited⟩ with
      | (answer, world) =>
          ⟨answer, .ofResult answer world.console, world.scope⟩ :: run depth world.scope rest

end Session

end Purr
