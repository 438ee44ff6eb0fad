import Purr.Code
import Purr.Evaluation

/-!
# Execution

Executing code changes a scope and writes to a console. A function is carried out in a copy of its
caller's scope, which is dropped afterwards; the blocks of a branch are executed in the scope around
them. The only thing that bounds a run is how deep calls may nest.
-/

namespace Purr

set_option autoImplicit false

structure World where
  scope : Scope
  console : Console

inductive Flow where
  | proceed
  | returned (value : Value)
deriving DecidableEq

def Flow.value : Flow → Value
  | .proceed => .absent
  | .returned value => value

namespace World

def evaluate {α : Type} (evaluation : Scope → Run Console α) : Run World α := fun world =>
  match evaluation world.scope world.console with
  | (result, console) => (result, { world with console := console })

def modifyScope (change : Scope → Scope) : Run World Unit :=
  Run.modify fun world => { world with scope := change world.scope }

def bind? (name : Text) (value : Option Value) : Run World Unit :=
  match value with
  | some value => modifyScope fun scope => scope.bind name value
  | none => return ()

end World

namespace Execution

def declare (invoke : Invoke) (kind : Kind) (name : Text) (value : Fragment) : Run World Unit := do
  let declared ← World.evaluate fun scope => Evaluation.declared invoke scope kind name value
  World.bind? name declared

/-- Declares a variable by the result of a call, which has to be of the declared kind. Nothing is
declared, and nothing more reported, if no call was made. -/
def declareCall (invoke : Invoke) (kind : Kind) (name : Text) (call : Fragment) :
    Run World Unit := do
  match ← World.evaluate fun scope => Evaluation.call invoke scope call.line call.tokens with
  | some value =>
      if value.kind? = some kind then
        World.bind? name (some value)
      else
        World.evaluate fun _ =>
          Console.report call.line (.typeMismatch name kind value.returnKind)
  | none => return ()

def result (invoke : Invoke) (frame : Option Function) (line : Nat) (value : Option Fragment) :
    Run World Flow :=
  match frame with
  | some function => do
      let value ← World.evaluate fun scope =>
        Evaluation.returned invoke scope function.header value
      return .returned value
  | none => do
      World.evaluate fun _ => Console.report line .returnOutsideFunction
      return .proceed

def action (invoke : Invoke) (frame : Option Function) (line : Line) : Action → Run World Flow
  | .print expression => do
      let text ← World.evaluate fun scope => Evaluation.text invoke scope expression
      World.evaluate fun _ => Console.write text
      return .proceed
  | .declare kind name value => do
      declare invoke kind name value
      return .proceed
  | .declareCall kind name call => do
      declareCall invoke kind name call
      return .proceed
  | .call call => do
      let _ ← World.evaluate fun scope => Evaluation.call invoke scope call.line call.tokens
      return .proceed
  | .result value => result invoke frame line.number value
  | .unknown => do
      World.evaluate fun _ => Console.report line.number (.unknownCommand line.text)
      return .proceed
  | .malformed fault => do
      World.evaluate fun _ => Console.report line.number (.malformed fault)
      return .proceed

/-- Does what comes before the end of code that cannot be read. -/
def before (invoke : Invoke) (line : Line) : Prelude → Run World Unit
  | .nothing => return ()
  | .condition condition => do
      let _ ← World.evaluate fun scope => Evaluation.condition invoke scope condition
      return ()
  | .strayElse => World.evaluate fun _ => Console.report line.number .elseWithoutIf

def code (invoke : Invoke) (frame : Option Function) : Code → Run World Flow
  | .done => return .proceed
  | .action line work next => do
      match ← action invoke frame line work with
      | .proceed => code invoke frame next
      | .returned value => return .returned value
  | .definition _ function next => do
      World.modifyScope fun scope => scope.define function
      code invoke frame next
  | .branch _ condition yes no next => do
      let holds ← World.evaluate fun scope => Evaluation.condition invoke scope condition
      match ← if holds then code invoke frame yes else code invoke frame no with
      | .proceed => code invoke frame next
      | .returned value => return .returned value
  | .strayElse line next => do
      before invoke line .strayElse
      code invoke frame next
  | .broken line prelude halt => do
      before invoke line prelude
      Run.halt halt

/-- Carries out functions, where calls may nest as deep as a limit. -/
def invoke : Nat → Invoke
  | 0, _, _, _ => Run.halt .tooDeep
  | depth + 1, function, values, scope => fun console =>
      let inner := scope.withArguments function.header.parameters values
      match code (invoke depth) (some function) (Code.ofLines function.body) ⟨inner, console⟩ with
      | (.ok flow, world) => (.ok flow.value, world.console)
      | (.error halt, world) => (.error halt, world.console)

/-- Executes lines, inside a function or at the top level, where calls may nest as deep as a
limit. -/
def lines (depth : Nat) (frame : Option Function) (lines : List Line) : Run World Flow :=
  code (invoke depth) frame (Code.ofLines lines)

end Execution

end Purr
