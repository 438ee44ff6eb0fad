import Purr.Proofs.Evaluations
import Purr.Proofs.Items
import Purr.Script

/-!
# What execution keeps

An invariant of execution is a property of functions, one of the console, what may be reported, and
a set of reasons for a halt, such that the code of every function with the property is sound. Such
an invariant holds along every run, through any nesting of branches, definitions and calls, and the
run halts for allowed reasons only.

`Built` says once what the execution of sound code does. Everything that is shown of execution, of
one run or of two of them, follows it.
-/

namespace Purr

set_option autoImplicit false

namespace Scope

/-- All functions that the scope knows have a property. -/
def Functions (good : Function → Prop) (scope : Scope) : Prop :=
  ∀ name function, scope.functions.find? name = some function → good function

namespace Functions

variable {good : Function → Prop} {scope : Scope}

theorem empty : Scope.empty.Functions good := by
  intro name function found
  cases found

theorem bind (functions : scope.Functions good) (name : Text) (value : Value) :
    (scope.bind name value).Functions good := by
  rw [Functions, functions_bind]
  exact functions

theorem define (functions : scope.Functions good) {function : Function} (new : good function) :
    (scope.define function).Functions good := by
  intro name called found
  rcases eq_or_known_of_define found with rfl | known
  · exact new
  · exact functions name called known

theorem withArguments (functions : scope.Functions good) (parameters : List Parameter)
    (values : List Value) : (scope.withArguments parameters values).Functions good := by
  have bound (scope _other : Scope) (key : Text) (value : Value)
      (functions : scope.Functions good) : (scope.bind key value).Functions good :=
    functions.bind key value
  exact @related_withArguments _ bound scope scope functions parameters values

end Functions

def Bodies (good : List Line → Prop) (scope : Scope) : Prop :=
  ∀ name function, scope.functions.find? name = some function → good function.body

theorem bodies_iff {good : List Line → Prop} {scope : Scope} :
    scope.Bodies good ↔ scope.Functions fun function => good function.body := Iff.rfl

theorem Bodies.empty {good : List Line → Prop} : Scope.empty.Bodies good :=
  bodies_iff.2 .empty

end Scope

namespace Execution

/-- A property of functions and one of the console that execution keeps, where it reports what may
be reported and halts for allowed reasons only. -/
structure Invariant (reports : Reports) (good : Function → Prop) (steady : Console → Prop)
    (allowed : Halt → Prop) : Prop where
  report : ∀ line fault, reports.lines line → reports.faults fault →
    (Console.report line fault).Keeps steady allowed
  write : ∀ text, (Console.write text).Keeps steady allowed
  tooDeep : allowed .tooDeep
  body : ∀ function, good function → (Code.ofLines function.body).Sound reports good allowed
  name : ∀ function, good function → reports.faults (.invalidBoolean function.header.name)

/-- What the invariant says of a world. -/
structure Settled (good : Function → Prop) (steady : Console → Prop) (world : World) : Prop where
  functions : world.scope.Functions good
  console : steady world.console

variable {reports : Reports} {good : Function → Prop} {steady : Console → Prop}
  {allowed : Halt → Prop}

def Obeys (good : Function → Prop) (steady : Console → Prop) (allowed : Halt → Prop)
    (invoke : Invoke) : Prop :=
  ∀ function values scope, good function → scope.Functions good →
    (invoke function values scope).Keeps steady allowed

def Framed (reports : Reports) (frame : Option Function) : Prop :=
  ∀ function, frame = some function → reports.faults (.invalidBoolean function.header.name)

theorem Framed.top : Framed reports none := by
  intro function same
  cases same

theorem Framed.any (frame : Option Function) : Framed .any frame := fun _ _ => trivial

theorem Invariant.framed (invariant : Invariant reports good steady allowed) {function : Function}
    (called : good function) : Framed reports (some function) := by
  rintro _ ⟨⟩
  exact invariant.name function called

theorem evaluate_keeps {α : Type} {evaluation : Scope → Run Console α}
    (kept : ∀ scope, scope.Functions good → (evaluation scope).Keeps steady allowed) :
    (World.evaluate evaluation).Keeps (Settled good steady) allowed := by
  intro world settled
  have ⟨console, reasons⟩ := kept world.scope settled.functions world.console settled.console
  exact ⟨⟨settled.functions, console⟩, reasons⟩

variable (reports good allowed) in
/-- Executing that does nothing but evaluate, write a text, bind a name that may be bound, define a
function with the property, and halt for an allowed reason. How functions are carried out is left
open. -/
inductive Built : {α : Type} → (Invoke → Run World α) → Prop
  | pure {α : Type} (result : α) : Built fun _ => Pure.pure result
  | halt {α : Type} {reason : Halt} : allowed reason →
      Built fun _ => (Run.halt reason : Run World α)
  | evaluate {α : Type} {evaluation : Invoke → Scope → Run Console α} :
      Evaluation.Built reports evaluation → Built fun invoke => World.evaluate (evaluation invoke)
  | write (text : Text) : Built fun _ => World.evaluate fun _ => Console.write text
  | name {name : Text} (value : Value) : reports.names name →
      Built fun _ => World.modifyScope fun scope => scope.bind name value
  | define {function : Function} : good function →
      Built fun _ => World.modifyScope fun scope => scope.define function
  | bind {α β : Type} {first : Invoke → Run World α} {next : Invoke → α → Run World β} :
      Built first → (∀ result, Built fun invoke => next invoke result) →
      Built fun invoke => first invoke >>= next invoke

theorem modifyScope_keeps {change : Scope → Scope}
    (kept : ∀ scope, scope.Functions good → (change scope).Functions good) :
    (World.modifyScope change).Keeps (Settled good steady) allowed := by
  apply Run.Keeps.modify
  intro world settled
  exact ⟨kept world.scope settled.functions, settled.console⟩

namespace Built

theorem map {α β : Type} {first : Invoke → Run World α} (built : Built reports good allowed first)
    (change : α → β) :
    Built reports good allowed fun invoke =>
      first invoke >>= fun result => Pure.pure (change result) :=
  built.bind fun _ => .pure _

theorem keeps {α : Type} {execution : Invoke → Run World α} {invoke : Invoke}
    (built : Built reports good allowed execution)
    (report : ∀ line fault, reports.lines line → reports.faults fault →
      (Console.report line fault).Keeps steady allowed)
    (write : ∀ text, (Console.write text).Keeps steady allowed)
    (obeys : Obeys good steady allowed invoke) :
    (execution invoke).Keeps (Settled good steady) allowed := by
  induction built with
  | pure result => exact .pure result
  | halt fine => exact .halt fine
  | evaluate built =>
      apply evaluate_keeps
      intro scope functions
      apply built.keeps
      refine ⟨report, ?_⟩
      intro name function values found
      exact obeys function values scope (functions name function found) functions
  | write text =>
      apply evaluate_keeps
      intro _ _
      exact write text
  | name value _ => exact modifyScope_keeps fun _ functions => functions.bind _ value
  | define new => exact modifyScope_keeps fun _ functions => functions.define new
  | bind _ _ first next => exact first.bind next

end Built

theorem report_built {line : Nat} {fault : Fault} (onLine : reports.lines line)
    (reported : reports.faults fault) :
    Built reports good allowed fun _ => World.evaluate fun _ => Console.report line fault :=
  .evaluate (.report onLine reported)

theorem bind?_built {name : Text} (bound : reports.names name) (value : Option Value) :
    Built reports good allowed fun _ => World.bind? name value := by
  cases value with
  | none => exact .pure ()
  | some value => exact .name value bound

theorem call_built {call : Fragment} (fits : call.Fits reports) :
    Built reports good allowed fun invoke =>
      World.evaluate fun scope => Evaluation.call invoke scope call.line call.tokens :=
  .evaluate (Evaluation.call_built fits.covers)

theorem condition_built {condition : Fragment} (fits : condition.Fits reports) :
    Built reports good allowed fun invoke =>
      World.evaluate fun scope => Evaluation.condition invoke scope condition :=
  .evaluate (Evaluation.condition_built fits)

theorem declare_built (kind : Kind) {name : Text} {value : Fragment} (fits : value.Fits reports)
    (bound : reports.names name) (number : reports.faults (.invalidNumber name))
    (boolean : reports.faults (.invalidBoolean name)) :
    Built reports good allowed fun invoke => declare invoke kind name value := by
  apply Built.bind
  · exact .evaluate (Evaluation.declared_built kind fits number boolean)
  · intro declared
    exact bind?_built bound declared

theorem declareCall_built {kind : Kind} {name : Text} {call : Fragment} (fits : call.Fits reports)
    (bound : reports.names name)
    (mismatch : ∀ found, reports.faults (.typeMismatch name kind found)) :
    Built reports good allowed fun invoke => declareCall invoke kind name call := by
  apply (call_built fits).bind
  intro result
  cases result with
  | none => exact .pure ()
  | some value =>
      dsimp only
      split
      next => exact bind?_built bound (some value)
      next => exact report_built fits.covers.line (mismatch _)

theorem print_built {expression : Fragment} (fits : expression.Fits reports)
    (frame : Option Function) (line : Line) :
    Built reports good allowed fun invoke => action invoke frame line (.print expression) := by
  apply Built.bind
  · exact .evaluate (Evaluation.text_built fits)
  · intro text
    exact (Built.write text).map _

theorem result_built {frame : Option Function} (framed : Framed reports frame) {line : Nat}
    {value : Option Fragment} (fits : ∀ fragment ∈ value.toList, fragment.Fits reports)
    (onLine : reports.lines line) (outside : reports.faults .returnOutsideFunction) :
    Built reports good allowed fun invoke => result invoke frame line value := by
  cases frame with
  | none => exact (report_built onLine outside).map _
  | some function =>
      apply Built.map
      exact .evaluate (Evaluation.returned_built function.header fits (framed function rfl))

theorem action_built {frame : Option Function} (framed : Framed reports frame) {line : Line}
    {work : Action} (fits : work.Fits reports line) :
    Built reports good allowed fun invoke => action invoke frame line work := by
  cases work with
  | print expression => exact print_built fits frame line
  | declare kind name value =>
      obtain ⟨value, bound, number, boolean⟩ := fits
      exact (declare_built kind value bound number boolean).map _
  | declareCall kind name call =>
      obtain ⟨call, bound, mismatch⟩ := fits
      exact (declareCall_built call bound mismatch).map _
  | call call => exact (call_built fits).map _
  | result value =>
      obtain ⟨value, onLine, outside⟩ := fits
      exact result_built framed value onLine outside
  | unknown => exact (report_built fits.1 fits.2).map _
  | malformed fault => exact (report_built fits.1 fits.2).map _

theorem before_built {line : Line} {work : Prelude} (fits : work.Fits reports line) :
    Built reports good allowed fun invoke => before invoke line work := by
  cases work with
  | nothing => exact .pure ()
  | condition condition => exact (condition_built fits).map _
  | strayElse => exact report_built fits.1 fits.2

/-- Executing sound code is built: one case for each kind of item. -/
theorem code_built {frame : Option Function} (framed : Framed reports frame) {program : Code}
    (sound : program.Sound reports good allowed) :
    Built reports good allowed fun invoke => code invoke frame program := by
  induction program with
  | done => exact .pure _
  | action line work next ih =>
      obtain ⟨fits, later⟩ := sound
      apply (action_built framed fits).bind
      intro flow
      cases flow with
      | proceed => exact ih later
      | returned value => exact .pure _
  | definition line function next ih =>
      obtain ⟨new, later⟩ := sound
      apply Built.bind
      · exact .define new
      · intro _
        exact ih later
  | branch line condition yes no next ihYes ihNo ihNext =>
      obtain ⟨fits, soundYes, soundNo, later⟩ := sound
      apply (condition_built fits).bind
      intro holds
      cases holds with
      | true =>
          apply (ihYes soundYes).bind
          intro flow
          cases flow with
          | proceed => exact ihNext later
          | returned value => exact .pure _
      | false =>
          apply (ihNo soundNo).bind
          intro flow
          cases flow with
          | proceed => exact ihNext later
          | returned value => exact .pure _
  | strayElse line next ih =>
      apply (before_built sound.1).bind
      intro _
      exact ih sound.2
  | broken line prelude halt =>
      apply (before_built sound.1).bind
      intro _
      exact .halt sound.2

theorem code_keeps (invariant : Invariant reports good steady allowed) {invoke : Invoke}
    (obeys : Obeys good steady allowed invoke) {frame : Option Function}
    (framed : Framed reports frame) {program : Code} (sound : program.Sound reports good allowed) :
    (code invoke frame program).Keeps (Settled good steady) allowed :=
  (code_built framed sound).keeps invariant.report invariant.write obeys

def carry (execute : Option Function → List Line → Run World Flow) : Invoke :=
  fun function values scope console =>
    let inner := scope.withArguments function.header.parameters values
    let ended := execute (some function) function.body ⟨inner, console⟩
    (ended.1.map Flow.value, ended.2.console)

theorem invoke_succ (depth : Nat) : invoke (depth + 1) = carry (lines depth) := by
  funext function values scope console
  rw [invoke, carry]
  dsimp only
  split
  next flow world ran =>
    rw [lines, ran]
    rfl
  next halt world ran =>
    rw [lines, ran]
    rfl

theorem eq_error_of_map {α β : Type} {change : α → β} {result : Except Halt α} {reason : Halt}
    (halted : result.map change = .error reason) : result = .error reason := by
  cases result with
  | error halt =>
      cases halted
      rfl
  | ok value => cases halted

theorem carry_obeys {execute : Option Function → List Line → Run World Flow}
    (kept : ∀ function, good function →
      (execute (some function) function.body).Keeps (Settled good steady) allowed) :
    Obeys good steady allowed (carry execute) := by
  intro function values scope called functions console holds
  have inner := functions.withArguments function.header.parameters values
  have ⟨settled, reasons⟩ := kept function called
    ⟨scope.withArguments function.header.parameters values, console⟩ ⟨inner, holds⟩
  refine ⟨settled.console, ?_⟩
  intro reason halted
  exact reasons reason (eq_error_of_map halted)

/-- Calls keep the invariant, however deep they may nest: by induction on the limit, since the body
of a call runs with a smaller one. -/
theorem invoke_obeys (invariant : Invariant reports good steady allowed) (depth : Nat) :
    Obeys good steady allowed (invoke depth) := by
  induction depth with
  | zero =>
      intro function values scope _ _
      exact .halt invariant.tooDeep
  | succ depth ih =>
      rw [invoke_succ]
      apply carry_obeys
      intro function called
      exact code_keeps invariant ih (invariant.framed called) (invariant.body function called)

/-- Executing lines whose code is sound keeps the invariant. -/
theorem lines_keeps (invariant : Invariant reports good steady allowed) (depth : Nat)
    {frame : Option Function} (framed : Framed reports frame) {program : List Line}
    (sound : (Code.ofLines program).Sound reports good allowed) :
    (lines depth frame program).Keeps (Settled good steady) allowed :=
  code_keeps invariant (invoke_obeys invariant depth) framed sound

end Execution

theorem Console.report_keeps (allowed : Halt → Prop) (line : Nat) (fault : Fault) :
    (Console.report line fault).Keeps (fun _ => True) allowed :=
  .modify fun _ _ => trivial

theorem Console.write_keeps {steady : Console → Prop} {allowed : Halt → Prop}
    (wrote : ∀ console text, steady console → steady (console.add (.wrote text)))
    (full : allowed (.fatal (.output .full))) (text : Text) :
    (Console.write text).Keeps steady allowed := by
  intro console holds
  unfold Console.write
  split
  next => exact ⟨holds, nofun⟩
  next =>
    split
    next => exact ⟨wrote console text holds, nofun⟩
    next =>
      refine ⟨holds, ?_⟩
      intro halt halted
      cases halted
      exact full

theorem Console.flush_keeps {steady : Console → Prop} {allowed : Halt → Prop}
    (notFlushed : allowed (.fatal (.output .notFlushed))) :
    Console.flush.Keeps steady allowed := by
  intro console holds
  unfold Console.flush
  split
  next => exact ⟨holds, nofun⟩
  next =>
    refine ⟨holds, ?_⟩
    intro halt halted
    cases halted
    exact notFlushed

theorem Script.run_eq (depth : Nat) (streams : Streams) (source : Text) :
    run depth streams source =
      .ofResult (execute depth source ⟨.empty, .opened streams⟩).1
        (execute depth source ⟨.empty, .opened streams⟩).2.console := rfl

namespace Transcript

variable {α : Type}

theorem output_ofResult (result : Except Halt α) (console : Console) :
    (ofResult result console).output = console.output := by
  cases result <;> rfl

theorem diagnostics_ofResult (result : Except Halt α) (console : Console) :
    (ofResult result console).diagnostics = console.diagnostics := by
  cases result <;> rfl

theorem halt_ofResult (result : Except Halt α) (console other : Console) :
    (ofResult result console).halt = (ofResult result other).halt := by
  cases result <;> rfl

end Transcript

theorem Script.execute_keeps {reports : Reports} {good : Function → Prop} {steady : Console → Prop}
    {allowed : Halt → Prop} (invariant : Execution.Invariant reports good steady allowed)
    (flush : Console.flush.Keeps steady allowed) (depth : Nat) {source : Text}
    (sound : (Code.ofLines (codeLines source)).Sound reports good allowed) :
    (execute depth source).Keeps (Execution.Settled good steady) allowed := by
  apply (Execution.lines_keeps invariant depth .top sound).bind
  intro _
  apply Execution.evaluate_keeps
  intro _ _
  exact flush

theorem Script.run_halt {reports : Reports} {good : Function → Prop} {steady : Console → Prop}
    {allowed : Halt → Prop} (invariant : Execution.Invariant reports good steady allowed)
    (flush : Console.flush.Keeps steady allowed) (depth : Nat) {streams : Streams} {source : Text}
    (opened : steady (.opened streams))
    (sound : (Code.ofLines (codeLines source)).Sound reports good allowed) {halt : Halt}
    (halted : (run depth streams source).halt = some halt) : allowed halt := by
  have ⟨_, reasons⟩ := execute_keeps invariant flush depth sound ⟨.empty, .opened streams⟩
    ⟨.empty, opened⟩
  rw [run] at halted
  split at halted
  next result world ran =>
    rw [ran] at reasons
    cases result with
    | ok value => cases halted
    | error reason =>
        cases halted
        exact reasons halt rfl

end Purr
