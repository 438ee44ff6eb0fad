import Purr.Proofs.Cuts
import Purr.Proofs.LineByLine

/-!
# Two runs side by side

The same code is run twice, from states that agree in what matters. Either both runs end in the same
way and their states agree again, or the second one halts where the first one goes on. To tell which
pairs of states agree and how they are apart afterwards is enough: reports and writes have to
respect it, and everything that is executed then does, calls of any depth included.
-/

namespace Purr

set_option autoImplicit false

/-- From states that agree both runs give the same result and reach states that agree, or the second
one has halted and the states are apart. States that are apart stay so, whatever the first run goes
on to do. -/
structure Run.Simulates {σ τ α : Type} (agree : σ → τ → Prop) (apart : Halt → σ → τ → Prop)
    (first : Run σ α) (second : Run τ α) : Prop where
  together : ∀ state other, agree state other →
    ((first state).1 = (second other).1 ∧ agree (first state).2 (second other).2) ∨
      ∃ reason, (second other).1 = .error reason ∧ apart reason (first state).2 (second other).2
  onward : ∀ reason state other, apart reason state other → apart reason (first state).2 other

def Run.never {σ τ : Type} : Halt → σ → τ → Prop := fun _ _ _ => False

theorem Run.not_never {σ τ : Type} (reason : Halt) (state : σ) (other : τ) :
    ¬ never reason state other := id

namespace Run.Simulates

variable {σ τ α β : Type} {agree : σ → τ → Prop} {apart : Halt → σ → τ → Prop}

theorem pure (result : α) :
    Run.Simulates agree apart (Pure.pure result : Run σ α) (Pure.pure result : Run τ α) where
  together _ _ agrees := .inl ⟨rfl, agrees⟩
  onward _ _ _ departed := departed

theorem halt (reason : Halt) :
    Run.Simulates agree apart (Run.halt reason : Run σ α) (Run.halt reason : Run τ α) where
  together _ _ agrees := .inl ⟨rfl, agrees⟩
  onward _ _ _ departed := departed

theorem modify {change : σ → σ} {changed : τ → τ} (kept : ∀ state other, agree state other →
      agree (change state) (changed other))
    (departing : ∀ reason state other, apart reason state other →
      apart reason (change state) other) :
    Run.Simulates agree apart (Run.modify change) (Run.modify changed) where
  together state other agrees := .inl ⟨rfl, kept state other agrees⟩
  onward := departing

theorem bind {first : Run σ α} {second : Run τ α} {next : α → Run σ β} {after : α → Run τ β}
    (before : first.Simulates agree apart second)
    (later : ∀ result, (next result).Simulates agree apart (after result)) :
    (first >>= next).Simulates agree apart (second >>= after) where
  together state other agrees := by
    have step := before.together state other agrees
    rw [Run.bind_apply, Run.bind_apply]
    generalize first state = ran at step
    generalize second other = ended at step
    obtain ⟨result, reached⟩ := ran
    obtain ⟨outcome, stopped⟩ := ended
    rcases step with ⟨same, agrees⟩ | ⟨reason, halted, departed⟩
    · dsimp only at same agrees
      subst same
      cases result with
      | ok value => exact (later value).together reached stopped agrees
      | error halt => exact .inl ⟨rfl, agrees⟩
    · dsimp only at halted departed
      subst halted
      cases result with
      | ok value => exact .inr ⟨reason, rfl, (later value).onward reason reached stopped departed⟩
      | error halt => exact .inr ⟨reason, rfl, departed⟩
  onward reason state other departed := by
    have step := before.onward reason state other departed
    rw [Run.bind_apply]
    generalize first state = ran at step
    obtain ⟨result, reached⟩ := ran
    cases result with
    | ok value => exact (later value).onward reason reached other step
    | error halt => exact step

theorem result_eq {first : Run σ α} {second : Run τ α}
    (simulates : first.Simulates agree apart second)
    (never : ∀ reason state other, ¬ apart reason state other) {state : σ} {other : τ}
    (agrees : agree state other) :
    (first state).1 = (second other).1 ∧ agree (first state).2 (second other).2 := by
  rcases simulates.together state other agrees with together | ⟨reason, _, departed⟩
  · exact together
  · exact absurd departed (never reason _ _)

/-- A run goes side by side with itself from equal states. What it means to be apart must not depend
on the state of the run that goes on. -/
theorem refl (run : Run σ α) (stops : Halt → Prop) :
    run.Simulates Eq (fun reason _ _ => stops reason) run where
  together state other agrees := by
    subst agrees
    exact .inl ⟨rfl, rfl⟩
  onward _ _ _ departed := departed

theorem eq {first second : Run σ α} (simulates : first.Simulates Eq Run.never second) :
    first = second := by
  funext state
  have ⟨result, reached⟩ := simulates.result_eq Run.not_never (Eq.refl state)
  exact Prod.ext result reached

end Run.Simulates

/-- Two evaluations that are built in the same way go side by side if reports and calls do. -/
theorem Evaluation.Paired.simulates {reports : Reports} {scope scope' : Scope} {α : Type}
    {first second : Invoke → Run Console α} {agree : Console → Console → Prop}
    {apart : Halt → Console → Console → Prop} {invoke other : Invoke}
    (paired : Paired reports scope scope' first second)
    (report : ∀ line fault, reports.lines line → reports.faults fault →
      (Console.report line fault).Simulates agree apart (Console.report line fault))
    (call : ∀ name function values, reports.names name →
      scope.functions.find? name = some function →
      (invoke function values scope).Simulates agree apart (other function values scope')) :
    (first invoke).Simulates agree apart (second other) := by
  induction paired with
  | pure result => exact .pure result
  | report line fault => exact report _ _ line fault
  | call values looked found => exact call _ _ values looked found
  | bind _ _ first next => exact first.bind next

namespace Execution

structure Abreast (good : Function → Prop) (agree : Console → Console → Prop)
    (world other : World) : Prop where
  scope : world.scope = other.scope
  functions : world.scope.Functions good
  console : agree world.console other.console

structure Apart (good : Function → Prop) (apart : Halt → Console → Console → Prop) (reason : Halt)
    (world other : World) : Prop where
  functions : world.scope.Functions good
  console : apart reason world.console other.console

variable {reports : Reports} {good : Function → Prop} {allowed : Halt → Prop}
  {agree : Console → Console → Prop} {apart : Halt → Console → Console → Prop}

theorem not_apart_never (reason : Halt) (world other : World) :
    ¬ Apart good Run.never reason world other := fun departed => departed.console

theorem evaluate_simulates {α : Type} {evaluation other : Scope → Run Console α}
    (simulates : ∀ scope, scope.Functions good →
      (evaluation scope).Simulates agree apart (other scope)) :
    (World.evaluate evaluation).Simulates (Abreast good agree) (Apart good apart)
      (World.evaluate other) where
  together world second abreast := by
    obtain ⟨scope, console⟩ := world
    obtain ⟨same, stopped⟩ := second
    obtain ⟨rfl, functions, agrees⟩ := abreast
    rcases (simulates scope functions).together console stopped agrees with
      ⟨result, reached⟩ | ⟨reason, halted, departed⟩
    · exact .inl ⟨result, rfl, functions, reached⟩
    · exact .inr ⟨reason, halted, functions, departed⟩
  onward reason world second departed :=
    ⟨departed.functions, (simulates world.scope departed.functions).onward reason world.console
      second.console departed.console⟩

theorem modifyScope_simulates {change : Scope → Scope}
    (kept : ∀ scope, scope.Functions good → (change scope).Functions good) :
    (World.modifyScope change).Simulates (Abreast good agree) (Apart good apart)
      (World.modifyScope change) := by
  apply Run.Simulates.modify
  · intro world other abreast
    exact ⟨congrArg change abreast.scope, kept world.scope abreast.functions, abreast.console⟩
  · intro reason world other departed
    exact ⟨kept world.scope departed.functions, departed.console⟩

def Match (good : Function → Prop) (agree : Console → Console → Prop)
    (apart : Halt → Console → Console → Prop) (invoke other : Invoke) : Prop :=
  ∀ function values scope, good function → scope.Functions good →
    (invoke function values scope).Simulates agree apart (other function values scope)

/-- Executing that is built goes side by side with itself if reports, writes and calls do. -/
theorem Built.simulates {α : Type} {execution : Invoke → Run World α} {invoke other : Invoke}
    (built : Built reports good allowed execution)
    (report : ∀ line fault, reports.lines line → reports.faults fault →
      (Console.report line fault).Simulates agree apart (Console.report line fault))
    (write : ∀ text, (Console.write text).Simulates agree apart (Console.write text))
    (calls : Match good agree apart invoke other) :
    (execution invoke).Simulates (Abreast good agree) (Apart good apart) (execution other) := by
  induction built with
  | pure result => exact .pure result
  | halt fine => exact .halt _
  | evaluate built =>
      apply evaluate_simulates
      intro scope functions
      apply (built scope scope fun name _ => .refl name scope).simulates report
      intro name function values _ found
      exact calls function values scope (functions name function found) functions
  | write text =>
      apply evaluate_simulates
      intro _ _
      exact write text
  | name value _ => exact modifyScope_simulates fun _ functions => functions.bind _ value
  | define new => exact modifyScope_simulates fun _ functions => functions.define new
  | bind _ _ first next => exact first.bind next

theorem carry_simulates {execute other : Option Function → List Line → Run World Flow}
    (simulates : ∀ function, good function →
      (execute (some function) function.body).Simulates (Abreast good agree) (Apart good apart)
        (other (some function) function.body)) :
    Match good agree apart (carry execute) (carry other) := by
  intro function values scope called functions
  have inner := functions.withArguments function.header.parameters values
  have body := simulates function called
  constructor
  · intro console stopped agrees
    rcases body.together ⟨_, console⟩ ⟨_, stopped⟩ ⟨rfl, inner, agrees⟩ with
      ⟨same, reached⟩ | ⟨reason, halted, departed⟩
    · exact .inl ⟨congrArg (Except.map Flow.value) same, reached.console⟩
    · exact .inr ⟨reason, congrArg (Except.map Flow.value) halted, departed.console⟩
  · intro reason console stopped departed
    exact (body.onward reason ⟨_, console⟩ ⟨scope, stopped⟩ ⟨inner, departed⟩).console

structure Parallel (agree : Console → Console → Prop) (apart : Halt → Console → Console → Prop) :
    Prop where
  report : ∀ line fault,
    (Console.report line fault).Simulates agree apart (Console.report line fault)
  write : ∀ text, (Console.write text).Simulates agree apart (Console.write text)

abbrev anyFunction : Function → Prop := fun _ => True

/-- Calls go side by side, however deep they may nest: by induction on the limit. -/
theorem invoke_match (parallel : Parallel agree apart) (depth : Nat) :
    Match anyFunction agree apart (invoke depth) (invoke depth) := by
  induction depth with
  | zero =>
      intro function values scope _ _
      exact .halt .tooDeep
  | succ depth ih =>
      rw [invoke_succ]
      apply carry_simulates
      intro function _
      exact (code_built (.any _) (Code.sound_any function.body)).simulates
        (fun line fault _ _ => parallel.report line fault) parallel.write ih

theorem code_simulates (parallel : Parallel agree apart) (depth : Nat) (frame : Option Function)
    {program : Code} (sound : program.Sound .any anyFunction allowed) :
    (code (invoke depth) frame program).Simulates (Abreast anyFunction agree)
      (Apart anyFunction apart) (code (invoke depth) frame program) :=
  (code_built (.any frame) sound).simulates (fun line fault _ _ => parallel.report line fault)
    parallel.write (invoke_match parallel depth)

theorem lines_simulates (parallel : Parallel agree apart) (depth : Nat) (frame : Option Function)
    (program : List Line) :
    (lines depth frame program).Simulates (Abreast anyFunction agree) (Apart anyFunction apart)
      (lines depth frame program) :=
  code_simulates parallel depth frame (Code.sound_any program)

theorem line_simulates (parallel : Parallel agree apart) (depth : Nat) (frame : Option Function)
    (first : Line) (cursor : Cursor) :
    (line depth frame first cursor).Simulates (Abreast anyFunction agree) (Apart anyFunction apart)
      (line depth frame first cursor) := by
  have sound : ((Item.read first cursor).alone first).Sound .any anyFunction Halt.Unclosed :=
    (Line.any_heredity.sound fun _ _ => trivial).alone fun lines _ => Code.sound_any lines
  rw [line_eq_alone]
  apply (code_simulates parallel depth frame sound).bind
  intro _
  exact .pure _

theorem line_together (parallel : Parallel agree apart) {depth : Nat} {frame : Option Function}
    {first : Line} {cursor : Cursor} {world other reached : World}
    {result : Except Halt (Flow × Cursor)}
    (executed : line depth frame first cursor world = (result, reached))
    (abreast : Abreast anyFunction agree world other) :
    (∃ after, line depth frame first cursor other = (result, after) ∧
      Abreast anyFunction agree reached after) ∨
    ∃ reason after, line depth frame first cursor other = (.error reason, after) ∧
      Apart anyFunction apart reason reached after := by
  have together := (line_simulates parallel depth frame first cursor).together world other abreast
  rw [executed] at together
  generalize line depth frame first cursor other = ran at together ⊢
  obtain ⟨outcome, after⟩ := ran
  rcases together with ⟨rfl, beside⟩ | ⟨reason, rfl, departed⟩
  · exact .inl ⟨after, rfl, beside⟩
  · exact .inr ⟨reason, after, rfl, departed⟩

/-- The second run takes the same lines as the first one and ends in the same way, or it has halted
at one of them. -/
theorem Walk.simulates (parallel : Parallel agree apart) {depth : Nat} {frame : Option Function}
    {cursor : Cursor} {world other final : World} {taken : List (Line × Cursor)}
    {ending : Except Halt Flow} (walk : Walk depth frame cursor world taken ending final)
    (abreast : Abreast anyFunction agree world other) :
    (∃ after, Walk depth frame cursor other taken ending after ∧
      Abreast anyFunction agree final after) ∨
    ∃ earlier later reason after, taken = earlier ++ later ∧
      Walk depth frame cursor other earlier (.error reason) after ∧
      Apart anyFunction apart reason final after := by
  induction walk generalizing other with
  | done world => exact .inl ⟨other, .done other, abreast⟩
  | @next first cursor rest world reached final taken ending executed walk ih =>
      rcases line_together parallel executed abreast with
        ⟨between, step, beside⟩ | ⟨reason, after, halted, departed⟩
      · rcases ih beside with
          ⟨after, walked, final⟩ | ⟨earlier, later, reason, after, same, walked, final⟩
        · exact .inl ⟨after, .next step walked, final⟩
        · exact .inr ⟨_ :: earlier, later, reason, after, congrArg (_ :: ·) same,
            .next step walked, final⟩
      · -- The first run goes on alone.
        have onward := (lines_simulates parallel depth frame rest).onward _ _ _ departed
        rw [walk.lines_eq] at onward
        exact .inr ⟨[_], taken, reason, after, rfl, .halted halted, onward⟩
  | returned executed =>
      rcases line_together parallel executed abreast with
        ⟨after, step, beside⟩ | ⟨reason, after, halted, departed⟩
      · exact .inl ⟨after, .returned step, beside⟩
      · exact .inr ⟨[_], [], reason, after, rfl, .halted halted, departed⟩
  | halted executed =>
      rcases line_together parallel executed abreast with
        ⟨after, step, beside⟩ | ⟨reason, after, halted, departed⟩
      · exact .inl ⟨after, .halted step, beside⟩
      · exact .inr ⟨[_], [], reason, after, rfl, .halted halted, departed⟩

end Execution

theorem Script.execute_simulates {agree : Console → Console → Prop}
    {apart : Halt → Console → Console → Prop} (parallel : Execution.Parallel agree apart)
    (flush : Console.flush.Simulates agree apart Console.flush) (depth : Nat) (source : Text) :
    (execute depth source).Simulates (Execution.Abreast Execution.anyFunction agree)
      (Execution.Apart Execution.anyFunction apart) (execute depth source) := by
  apply (Execution.lines_simulates parallel depth none (codeLines source)).bind
  intro _
  apply Execution.evaluate_simulates
  intro _ _
  exact flush

end Purr
