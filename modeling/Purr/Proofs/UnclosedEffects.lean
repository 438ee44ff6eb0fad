import Purr.Proofs.Collecting
import Purr.Proofs.LineByLine

/-!
# What an unclosed block leaves

A line that fails because a block is not closed has done nothing but evaluate the condition of its
branch, or report that its `else` is misplaced: both blocks of a branch are collected before one of
them is executed. `lineFrom` executes a line with the cursor as part of the state, so that the
cursor can be seen after a failure too.
-/

namespace Purr

set_option autoImplicit false

/-- What executing a line changes: the world, and the lines that are still to be read. -/
structure Reading where
  world : World
  cursor : Cursor

namespace Reading

variable {α β : Type}

def onWorld (run : Run World α) : Run Reading α := fun reading =>
  match run reading.world with
  | (result, world) => (result, { reading with world := world })

def onCursor (run : Run Cursor α) : Run Reading α := fun reading =>
  match run reading.cursor with
  | (result, cursor) => (result, { reading with cursor := cursor })

theorem of_onWorld {run : Run World α} {reading reached : Reading} {result : Except Halt α}
    (ran : onWorld run reading = (result, reached)) :
    run reading.world = (result, reached.world) ∧ reached.cursor = reading.cursor := by
  cases ran
  exact ⟨rfl, rfl⟩

theorem of_gather_error {construct : Construct} {opened : Nat} {bodyStart : Text}
    {reading reached : Reading} {halt : Halt}
    (failed : onCursor (Block.gather construct opened bodyStart) reading = (.error halt, reached)) :
    Block.Unclosed opened bodyStart reading.cursor ∧
      halt = .fatal (.unterminatedBlock construct opened) ∧ reached = ⟨reading.world, []⟩ := by
  rcases Block.collect_first construct opened bodyStart reading.cursor with
    ⟨place, first, _⟩ | ⟨unclosed, _⟩
  · rw [onCursor, Block.gather_of_first construct first] at failed
    cases failed
  · rw [onCursor, Block.gather_of_unclosed construct unclosed] at failed
    cases failed
    exact ⟨unclosed, rfl, rfl⟩

theorem of_gather_ok {construct : Construct} {opened : Nat} {bodyStart : Text}
    {reading reached : Reading} {body : List Line}
    (gathered : onCursor (Block.gather construct opened bodyStart) reading = (.ok body, reached)) :
    Block.Balanced body ∧ ∃ place : Block.Place,
      place.First 1 (Block.linesFrom opened bodyStart reading.cursor) ∧
        reached = ⟨reading.world, place.rest⟩ := by
  rcases Block.collect_first construct opened bodyStart reading.cursor with
    ⟨place, first, collected⟩ | ⟨unclosed, _⟩
  · rw [onCursor, Block.gather_of_first construct first] at gathered
    cases gathered
    exact ⟨Block.balanced_of_collect collected, place, first, rfl⟩
  · rw [onCursor, Block.gather_of_unclosed construct unclosed] at gathered
    cases gathered

theorem of_evaluate {evaluation : Scope → Run Console α} {world reached : World}
    {result : Except Halt α} (ran : World.evaluate evaluation world = (result, reached)) :
    evaluation world.scope world.console = (result, reached.console) ∧
      reached.scope = world.scope := by
  cases ran
  exact ⟨rfl, rfl⟩

/-- The same with the cursor as an argument and a result, which a halt does not give. -/
def handed (run : Run Reading α) (cursor : Cursor) : Run World (α × Cursor) := fun world =>
  match run ⟨world, cursor⟩ with
  | (.ok result, reached) => (.ok (result, reached.cursor), reached.world)
  | (.error halt, reached) => (.error halt, reached.world)

@[simp] theorem handed_pure (result : α) (cursor : Cursor) :
    handed (pure result) cursor = pure (result, cursor) := rfl

@[simp] theorem handed_halt (reason : Halt) (cursor : Cursor) :
    handed (Run.halt reason : Run Reading α) cursor = Run.halt reason := rfl

@[simp] theorem handed_bind (first : Run Reading α) (next : α → Run Reading β) (cursor : Cursor) :
    handed (first >>= next) cursor =
      handed first cursor >>= fun given => handed (next given.1) given.2 := by
  funext world
  simp only [handed, Run.bind_apply]
  rcases first ⟨world, cursor⟩ with ⟨_ | _, _⟩ <;> rfl

@[simp] theorem handed_onWorld (run : Run World α) (cursor : Cursor) :
    handed (onWorld run) cursor = run >>= fun result => pure (result, cursor) := by
  funext world
  simp only [handed, onWorld, Run.bind_apply]
  rcases run world with ⟨_ | _, _⟩ <;> rfl

@[simp] theorem handed_gather (construct : Construct) (opened : Nat) (bodyStart : Text)
    (cursor : Cursor) : handed (onCursor (Block.gather construct opened bodyStart)) cursor =
      Execution.received (Block.collect construct opened bodyStart cursor) := by
  funext world
  simp only [handed, onCursor, Block.gather_eq, Execution.received]
  cases Block.collect construct opened bodyStart cursor <;> rfl

end Reading

namespace Execution

open Reading

def alternativeFrom : Run Cursor (List Line) := fun cursor =>
  match Item.elseHeader? cursor with
  | none => (.ok [], cursor)
  | some (elseLine, bodyStart, rest) =>
      Block.gather .otherwise elseLine.number bodyStart rest

def branchFrom (depth : Nat) (frame : Option Function) (line : Line) (condition : Fragment)
    (bodyStart : Text) : Run Reading Flow := do
  let holds ← onWorld <| World.evaluate fun scope =>
    Evaluation.condition (invoke depth) scope condition
  let yes ← onCursor (Block.gather .branch line.number bodyStart)
  let no ← onCursor alternativeFrom
  onWorld (lines depth frame (if holds then yes else no))

def lineFrom (depth : Nat) (frame : Option Function) (line : Line) : Run Reading Flow :=
  match Statement.ofLine line with
  | .error (.malformed fault) => onWorld (action (invoke depth) frame line (.malformed fault))
  | .error .outOfRange => Run.halt .outOfRange
  | .ok (.function header bodyStart) => do
      let body ← onCursor (Block.gather .function line.number bodyStart)
      onWorld (World.modifyScope fun scope => scope.define ⟨header, body, line.number⟩)
      return .proceed
  | .ok (.branch condition bodyStart) => branchFrom depth frame line condition bodyStart
  | .ok (.otherwise bodyStart) => do
      onWorld (World.evaluate fun _ => Console.report line.number .elseWithoutIf)
      let _ ← onCursor (Block.gather .otherwise line.number bodyStart)
      return .proceed
  | .ok (.callDeclaration kind name call) =>
      onWorld (action (invoke depth) frame line (.declareCall kind name call))
  | .ok (.print expression) => onWorld (action (invoke depth) frame line (.print expression))
  | .ok (.declaration kind name value) =>
      onWorld (action (invoke depth) frame line (.declare kind name value))
  | .ok (.call call) => onWorld (action (invoke depth) frame line (.call call))
  | .ok (.result value) => onWorld (action (invoke depth) frame line (.result value))
  | .ok .unknown => onWorld (action (invoke depth) frame line .unknown)

theorem of_alternativeFrom_error {reading reached : Reading} {halt : Halt}
    (failed : onCursor alternativeFrom reading = (.error halt, reached)) :
    ∃ elseLine elseStart rest, Item.elseHeader? reading.cursor = some (elseLine, elseStart, rest) ∧
      Block.Unclosed elseLine.number elseStart rest ∧
        halt = .fatal (.unterminatedBlock .otherwise elseLine.number) ∧
          reached = ⟨reading.world, []⟩ := by
  unfold onCursor alternativeFrom at failed
  cases header : Item.elseHeader? reading.cursor with
  | none =>
      rw [header] at failed
      cases failed
  | some found =>
      obtain ⟨elseLine, elseStart, rest⟩ := found
      rw [header] at failed
      exact ⟨elseLine, elseStart, rest, rfl,
        @of_gather_error .otherwise _ _ ⟨reading.world, rest⟩ _ _ failed⟩

theorem of_alternativeFrom_ok {reading reached : Reading} {no : List Line}
    (gathered : onCursor alternativeFrom reading = (.ok no, reached)) :
    Block.Balanced no ∧ reached.world = reading.world := by
  unfold onCursor alternativeFrom at gathered
  cases header : Item.elseHeader? reading.cursor with
  | none =>
      rw [header] at gathered
      cases gathered
      exact ⟨rfl, rfl⟩
  | some found =>
      obtain ⟨elseLine, elseStart, rest⟩ := found
      rw [header] at gathered
      obtain ⟨balanced, _, _, same⟩ :=
        @of_gather_ok .otherwise _ _ ⟨reading.world, rest⟩ _ _ gathered
      obtain rfl : reached = ⟨reading.world, _⟩ := same
      exact ⟨balanced, rfl⟩

theorem handed_alternativeFrom (cursor : Cursor) :
    handed (onCursor alternativeFrom) cursor = received (alternative cursor) := by
  unfold alternative
  split
  next none =>
    funext world
    simp only [handed, onCursor, alternativeFrom, none]
    rfl
  next elseLine bodyStart rest header =>
    rw [← handed_gather]
    funext world
    simp only [handed, onCursor, alternativeFrom, header]

theorem line_eq_handed (depth : Nat) (frame : Option Function) (first : Line) (cursor : Cursor) :
    line depth frame first cursor = handed (lineFrom depth frame first) cursor := by
  have plain (work : Action) : plainLine depth frame first work cursor =
      handed (onWorld (action (invoke depth) frame first work)) cursor := by
    rw [handed_onWorld, plainLine]
  unfold line lineFrom
  cases Statement.ofLine first with
  | error refusal =>
      cases refusal with
      | malformed fault => exact plain _
      | outOfRange => rfl
  | ok statement =>
      cases statement with
      | function header bodyStart =>
          simp only [handed_bind, handed_gather, handed_onWorld, handed_pure, bind_assoc,
            pure_bind]
      | branch condition bodyStart =>
          simp only [branchLine, branchFrom, handed_bind, handed_gather, handed_alternativeFrom,
            handed_onWorld, bind_assoc, pure_bind]
      | otherwise bodyStart =>
          simp only [handed_bind, handed_gather, handed_onWorld, handed_pure, bind_assoc,
            pure_bind]
      | callDeclaration kind name value => exact plain _
      | print value => exact plain _
      | declaration kind name value => exact plain _
      | call value => exact plain _
      | result value => exact plain _
      | unknown => exact plain _

variable {depth : Nat} {frame : Option Function} {first : Line} {cursor : Cursor} {world : World}

variable (depth first cursor world) in
/-- The unclosed block that a line halts at: its construct, the line that opens it, and the console
until then. The second block of a branch is looked for where the first one ends. -/
inductive HaltsAt : Construct → Nat → Console → Prop
  | function {header : Header} {bodyStart : Text} :
      Statement.ofLine first = .ok (.function header bodyStart) →
      Block.Unclosed first.number bodyStart cursor →
      HaltsAt .function first.number world.console
  | branch {condition : Fragment} {bodyStart : Text} {holds : Bool} {console : Console} :
      Statement.ofLine first = .ok (.branch condition bodyStart) →
      Evaluation.condition (invoke depth) world.scope condition world.console =
        (.ok holds, console) →
      Block.Unclosed first.number bodyStart cursor → HaltsAt .branch first.number console
  | alternative {condition : Fragment} {bodyStart elseStart : Text} {holds : Bool}
      {console : Console} {place : Block.Place} {elseLine : Line} {rest : Cursor} :
      Statement.ofLine first = .ok (.branch condition bodyStart) →
      Evaluation.condition (invoke depth) world.scope condition world.console =
        (.ok holds, console) →
      place.First 1 (Block.linesFrom first.number bodyStart cursor) →
      Item.elseHeader? place.rest = some (elseLine, elseStart, rest) →
      Block.Unclosed elseLine.number elseStart rest →
      HaltsAt .otherwise elseLine.number console
  | strayElse {bodyStart : Text} : Statement.ofLine first = .ok (.otherwise bodyStart) →
      Block.Unclosed first.number bodyStart cursor →
      HaltsAt .otherwise first.number
        (Console.report first.number .elseWithoutIf world.console).2

theorem not_unclosed_of_action {work : Action} {reached : Reading} {halt : Halt}
    (asks : first.Asks work) (bodies : world.scope.Bodies Block.Balanced)
    (failed : onWorld (action (invoke depth) frame first work) ⟨world, cursor⟩ =
      (.error halt, reached)) : ¬ halt.Unclosed := by
  obtain ⟨acted, _⟩ := of_onWorld failed
  have built : Built .any Block.BalancedBody (fun halt => ¬ halt.Unclosed)
      fun invoke => action invoke frame first work :=
    action_built (.any frame) (first.fits_any.action work asks)
  exact not_unclosed_of_built built depth bodies acted

section

variable {construct : Construct} {opened : Nat} {reached : Reading}

theorem of_branchFrom_unclosed {condition : Fragment} {bodyStart : Text}
    (bodies : world.scope.Bodies Block.Balanced)
    (recognized : Statement.ofLine first = .ok (.branch condition bodyStart))
    (failed : branchFrom depth frame first condition bodyStart ⟨world, cursor⟩ =
      (.error (.fatal (.unterminatedBlock construct opened)), reached)) :
    HaltsAt depth first cursor world construct opened reached.world.console ∧
      reached.world.scope = world.scope ∧ reached.cursor = [] := by
  rcases Run.of_bind_error failed with halted | ⟨holds, ⟨judged, left⟩, evaluated, blocks⟩
  · obtain ⟨halted, _⟩ := of_onWorld halted
    have built : Built .any Block.BalancedBody (fun halt => ¬ halt.Unclosed) fun invoke =>
        World.evaluate fun scope => Evaluation.condition invoke scope condition :=
      condition_built (first.fits_any.prelude _ recognized)
    exact absurd ⟨_, _, rfl⟩ (not_unclosed_of_built built depth bodies halted)
  obtain ⟨evaluated, same⟩ := of_onWorld evaluated
  obtain rfl : left = cursor := same
  obtain ⟨written, kept⟩ := of_evaluate evaluated
  rcases Run.of_bind_error blocks with halted | ⟨yes, between, collected, others⟩
  · obtain ⟨nowhere, same, rfl⟩ := of_gather_error halted
    cases same
    exact ⟨.branch recognized written nowhere, kept, rfl⟩
  obtain ⟨balancedYes, place, ends, rfl⟩ := of_gather_ok collected
  rcases Run.of_bind_error others with halted | ⟨no, between, collected, block⟩
  · obtain ⟨elseLine, elseStart, rest, header, nowhere, same, rfl⟩ :=
      of_alternativeFrom_error halted
    cases same
    exact ⟨.alternative recognized written ends header nowhere, kept, rfl⟩
  -- Both blocks are collected, so the one that is executed is balanced.
  obtain ⟨balancedNo, same⟩ := of_alternativeFrom_ok collected
  obtain ⟨halted, _⟩ := of_onWorld block
  have balanced : Block.Balanced (if holds then yes else no) := by
    cases holds with
    | true => exact balancedYes
    | false => exact balancedNo
  rw [same] at halted
  rw [← kept] at bodies
  exact absurd (congrArg Prod.fst halted)
    (lines_balanced depth frame balanced bodies construct opened)

/-- A line that halts for an unclosed block, among functions with balanced bodies, leaves the scope
as it was and nothing in the cursor. -/
theorem of_lineFrom_unclosed (bodies : world.scope.Bodies Block.Balanced)
    (failed : lineFrom depth frame first ⟨world, cursor⟩ =
      (.error (.fatal (.unterminatedBlock construct opened)), reached)) :
    HaltsAt depth first cursor world construct opened reached.world.console ∧
      reached.world.scope = world.scope ∧ reached.cursor = [] := by
  have unclosed : Halt.Unclosed (.fatal (.unterminatedBlock construct opened)) := ⟨_, _, rfl⟩
  unfold lineFrom at failed
  cases recognized : Statement.ofLine first with
  | error refusal =>
      rw [recognized] at failed
      cases refusal with
      | malformed fault =>
          exact absurd unclosed (not_unclosed_of_action (.malformed recognized) bodies failed)
      | outOfRange => cases failed
  | ok statement =>
      rw [recognized] at failed
      have action {work : Action} (asks : statement.action? = some work)
          (failed : onWorld (action (invoke depth) frame first work) ⟨world, cursor⟩ =
            (.error (.fatal (.unterminatedBlock construct opened)), reached)) : False :=
        not_unclosed_of_action (.statement recognized asks) bodies failed unclosed
      cases statement with
      | function header bodyStart =>
          rcases Run.of_bind_error failed with halted | ⟨_, _, _, defined⟩
          · obtain ⟨nowhere, same, rfl⟩ := of_gather_error halted
            cases same
            exact ⟨.function recognized nowhere, rfl, rfl⟩
          · cases defined
      | branch condition bodyStart => exact of_branchFrom_unclosed bodies recognized failed
      | otherwise bodyStart =>
          rcases Run.of_bind_error failed with reported | ⟨_, between, reported, failed⟩
          · cases reported
          · cases reported
            rcases Run.of_bind_error failed with halted | ⟨_, _, _, ended⟩
            · obtain ⟨nowhere, same, rfl⟩ := of_gather_error halted
              cases same
              exact ⟨.strayElse recognized nowhere, rfl, rfl⟩
            · cases ended
      | callDeclaration kind name value => exact (action rfl failed).elim
      | print value => exact (action rfl failed).elim
      | declaration kind name value => exact (action rfl failed).elim
      | call value => exact (action rfl failed).elim
      | result value => exact (action rfl failed).elim
      | unknown => exact (action rfl failed).elim

/-- Among functions with balanced bodies, a line that halts for an unclosed block has changed
nothing but the streams: no function is defined, no line of a block is executed and nothing is left
in the cursor. The halt names the construct that is not closed and the line of its header, and the
streams hold in addition what the condition of the branch, or the report of a misplaced `else`, has
written. -/
theorem unclosed_block_changes_nothing {reached : World}
    (bodies : world.scope.Bodies Block.Balanced)
    (failed : line depth frame first cursor world =
      (.error (.fatal (.unterminatedBlock construct opened)), reached)) :
    reached.scope = world.scope ∧
      lineFrom depth frame first ⟨world, cursor⟩ =
        (.error (.fatal (.unterminatedBlock construct opened)), ⟨reached, []⟩) ∧
      HaltsAt depth first cursor world construct opened reached.console := by
  rw [line_eq_handed, handed] at failed
  split at failed
  next => cases failed
  next halt last ran =>
    cases failed
    obtain ⟨halts, kept, exhausted⟩ := of_lineFrom_unclosed bodies ran
    obtain ⟨_, left⟩ := last
    obtain rfl : left = [] := exhausted
    exact ⟨kept, ran, halts⟩

theorem unclosed_else_changes_nothing :
    ∃ console, console.reports.length = 1 ∧
      line 1 none ⟨3, "if (x) \x7b".toList⟩ [⟨4, "y();".toList⟩, ⟨5, "\x7d else \x7b".toList⟩,
          ⟨6, "purr ~> \"\x7d\";".toList⟩] ⟨.empty, .opened .unlimited⟩ =
        (.error (.fatal (.unterminatedBlock .otherwise 5)), ⟨.empty, console⟩) ∧
      lineFrom 1 none ⟨3, "if (x) \x7b".toList⟩ ⟨⟨.empty, .opened .unlimited⟩,
          [⟨4, "y();".toList⟩, ⟨5, "\x7d else \x7b".toList⟩, ⟨6, "purr ~> \"\x7d\";".toList⟩]⟩ =
        (.error (.fatal (.unterminatedBlock .otherwise 5)), ⟨⟨.empty, console⟩, []⟩) := by
  obtain ⟨_, last, _⟩ := @unclosed_block_changes_nothing 1 none ⟨3, "if (x) \x7b".toList⟩
    [⟨4, "y();".toList⟩, ⟨5, "\x7d else \x7b".toList⟩, ⟨6, "purr ~> \"\x7d\";".toList⟩]
    ⟨.empty, .opened .unlimited⟩ .otherwise 5 _ Scope.Bodies.empty rfl
  exact ⟨_, rfl, rfl, last⟩

end

end Execution

end Purr
