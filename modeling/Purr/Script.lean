import Purr.Execution
import Purr.Line.Comment

/-!
# Scripts

Running a script: its lines of code from an empty scope, at the top level, and a flush of the
streams if nothing ended the run before. A trace runs a script line by line and shows each step.
-/

namespace Purr

set_option autoImplicit false

/-- What a run leaves: what the streams hold, and why it halted, if it did. -/
structure Transcript where
  output : Text
  diagnostics : Text
  halt : Option Halt
deriving DecidableEq

namespace Transcript

def ofResult {α : Type} (result : Except Halt α) (console : Console) : Transcript :=
  match result with
  | .ok _ => ⟨console.output, console.diagnostics, none⟩
  | .error halt => ⟨console.output, console.diagnostics, some halt⟩

def refused (error : FatalError) : Transcript := ⟨[], [], some (.fatal error)⟩

end Transcript

namespace Script

def defaultDepth : Nat := 1000000

/-- Runs the lines of a script, then flushes. -/
def execute (depth : Nat) (source : Text) : Run World Unit := do
  let _ ← Execution.lines depth none (codeLines source)
  World.evaluate fun _ => Console.flush

def run (depth : Nat) (streams : Streams) (source : Text) : Transcript :=
  match execute depth source ⟨.empty, .opened streams⟩ with
  | (result, world) => .ofResult result world.console

structure Step where
  line : Line
  flow : Except Halt Flow
  transcript : Transcript
  scope : Scope

/-- Executes an item from a scope, with a console of its own. -/
def step (depth : Nat) (scope : Scope) (line : Line) (code : Code) : Step :=
  match Execution.code (Execution.invoke depth) none code ⟨scope, .opened .unlimited⟩ with
  | (flow, world) => ⟨line, flow, .ofResult flow world.console, world.scope⟩

def traceSteps (depth : Nat) (scope : Scope) : List (Line × Code) → List Step
  | [] => []
  | (line, code) :: rest =>
      let executed := step depth scope line code
      match executed.flow with
      | .ok _ => executed :: traceSteps depth executed.scope rest
      | .error _ => [executed]

def trace (depth : Nat) (source : Text) : List Step :=
  traceSteps depth .empty (Code.ofLines (codeLines source)).steps

end Script

end Purr
