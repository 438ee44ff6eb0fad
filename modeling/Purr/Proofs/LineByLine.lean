import Purr.Proofs.UnclosedBlocks

/-!
# Line by line

Lines are read as code before any of them is executed. `Execution.line` does not look ahead: it
takes one line, evaluates its condition or reports it, and only then collects its blocks from the
cursor. By `lines_cons` executing lines is to execute them in this way one after another, with one
cursor for all of them. `Walk` keeps what such a run takes from the cursor.
-/

namespace Purr

set_option autoImplicit false

def Flow.andThen : Flow → Run World Flow → Run World Flow
  | .proceed, next => next
  | .returned value, _ => return .returned value

@[simp] theorem Run.halt_bind {σ α β : Type} (reason : Halt) (next : α → Run σ β) :
    (Run.halt reason >>= next) = Run.halt reason := rfl

namespace Execution

def received {α : Type} (result : Except Halt α) : Run World α := fun world => (result, world)

@[simp] theorem received_ok {α : Type} (result : α) : received (.ok result) = pure result := rfl

@[simp] theorem received_error {α : Type} (reason : Halt) :
    received (.error reason : Except Halt α) = Run.halt reason := rfl

def plainLine (depth : Nat) (frame : Option Function) (line : Line) (work : Action)
    (cursor : Cursor) : Run World (Flow × Cursor) := do
  let flow ← action (invoke depth) frame line work
  return (flow, cursor)

/-- The block of the `else` header that a cursor begins with, and the cursor after it. Without such
a header the block is empty. -/
def alternative (cursor : Cursor) : Except Halt (List Line × Cursor) :=
  match Item.elseHeader? cursor with
  | none => .ok ([], cursor)
  | some (elseLine, bodyStart, rest) => Block.collect .otherwise elseLine.number bodyStart rest

/-- Executes a branch. Its condition is evaluated before any of its blocks is collected, and both
blocks are collected before one of them is executed. -/
def branchLine (depth : Nat) (frame : Option Function) (line : Line) (condition : Fragment)
    (bodyStart : Text) (cursor : Cursor) : Run World (Flow × Cursor) := do
  let holds ← World.evaluate fun scope => Evaluation.condition (invoke depth) scope condition
  let (yes, afterYes) ← received (Block.collect .branch line.number bodyStart cursor)
  let (no, rest) ← received (alternative afterYes)
  let flow ← lines depth frame (if holds then yes else no)
  return (flow, rest)

def line (depth : Nat) (frame : Option Function) (line : Line) (cursor : Cursor) :
    Run World (Flow × Cursor) :=
  match Statement.ofLine line with
  | .error (.malformed fault) => plainLine depth frame line (.malformed fault) cursor
  | .error .outOfRange => Run.halt .outOfRange
  | .ok (.function header bodyStart) => do
      let (body, rest) ← received (Block.collect .function line.number bodyStart cursor)
      World.modifyScope fun scope => scope.define ⟨header, body, line.number⟩
      return (.proceed, rest)
  | .ok (.branch condition bodyStart) => branchLine depth frame line condition bodyStart cursor
  | .ok (.otherwise bodyStart) => do
      World.evaluate fun _ => Console.report line.number .elseWithoutIf
      let (_, rest) ← received (Block.collect .otherwise line.number bodyStart cursor)
      return (.proceed, rest)
  | .ok (.callDeclaration kind name call) =>
      plainLine depth frame line (.declareCall kind name call) cursor
  | .ok (.print expression) => plainLine depth frame line (.print expression) cursor
  | .ok (.declaration kind name value) =>
      plainLine depth frame line (.declare kind name value) cursor
  | .ok (.call call) => plainLine depth frame line (.call call) cursor
  | .ok (.result value) => plainLine depth frame line (.result value) cursor
  | .ok .unknown => plainLine depth frame line .unknown cursor

end Execution

def Item.alone (line : Line) : Item → Code
  | .action work _ => .action line work .done
  | .definition header body _ => .definition line ⟨header, body, line.number⟩ .done
  | .branch condition yes no _ => .branch line condition (.ofLines yes) (.ofLines no) .done
  | .strayElse _ => .strayElse line .done
  | .broken before halt => .broken line before halt

theorem Item.Sound.alone {reports : Reports} {kept : List Line → Prop} {good : Function → Prop}
    {allowed : Halt → Prop} {line : Line} {item : Item}
    (sound : item.Sound reports kept good allowed line)
    (blocks : ∀ lines, kept lines → (Code.ofLines lines).Sound reports good allowed) :
    (item.alone line).Sound reports good allowed := by
  cases item with
  | action work rest => exact ⟨sound.1, trivial⟩
  | definition header body rest => exact ⟨sound.1, trivial⟩
  | branch condition yes no rest =>
      obtain ⟨fits, yesKept, noKept, _⟩ := sound
      exact ⟨fits, blocks yes yesKept, blocks no noKept, trivial⟩
  | strayElse rest => exact ⟨sound.1, trivial⟩
  | broken before halt => exact sound

theorem Item.Sound.rest {reports : Reports} {kept : List Line → Prop} {good : Function → Prop}
    {allowed : Halt → Prop} {line : Line} {item : Item} {rest : Cursor}
    (sound : item.Sound reports kept good allowed line) (left : item.rest? = some rest) :
    kept rest := by
  cases item with
  | action work rest => cases left; exact sound.2
  | definition header body rest => cases left; exact sound.2
  | branch condition yes no rest => cases left; exact sound.2.2.2
  | strayElse rest => cases left; exact sound.2
  | broken before halt => cases left

theorem Code.ofLines_cons (line : Line) (cursor : Cursor) :
    ofLines (line :: cursor) =
      match Item.read line cursor with
      | .action work rest => .action line work (ofLines rest)
      | .definition header body rest => .definition line ⟨header, body, line.number⟩ (ofLines rest)
      | .branch condition yes no rest =>
          .branch line condition (ofLines yes) (ofLines no) (ofLines rest)
      | .strayElse rest => .strayElse line (ofLines rest)
      | .broken before halt => .broken line before halt := by
  rw [ofLines]
  split <;> simp [*]

namespace Execution

section

variable (invoke : Invoke) (frame : Option Function)

theorem code_action (line : Line) (work : Action) (next : Code) :
    code invoke frame (.action line work next) =
      action invoke frame line work >>= fun flow => flow.andThen (code invoke frame next) := by
  rw [code]
  congr 1
  funext flow
  cases flow <;> rfl

theorem code_branch (line : Line) (condition : Fragment) (yes no next : Code) :
    code invoke frame (.branch line condition yes no next) =
      (World.evaluate fun scope => Evaluation.condition invoke scope condition) >>= fun holds =>
        (if holds then code invoke frame yes else code invoke frame no) >>= fun flow =>
          flow.andThen (code invoke frame next) := by
  rw [code]
  congr 1
  funext holds
  cases holds with
  | true =>
      simp only [if_true]
      congr 1
      funext flow
      cases flow <;> rfl
  | false =>
      simp only [Bool.false_eq_true, if_false]
      congr 1
      funext flow
      cases flow <;> rfl

theorem andThen_done (flow : Flow) :
    flow.andThen (code invoke frame .done) = pure flow := by
  cases flow <;> rfl

end

variable (depth : Nat) (frame : Option Function)

theorem lines_nil : lines depth frame [] = pure .proceed := by
  rw [lines, Code.ofLines]
  rfl

/-- Executing lines that are read before: the first item, and then what it leaves in the cursor. -/
theorem lines_cons_read (first : Line) (cursor : Cursor) :
    lines depth frame (first :: cursor) =
      code (invoke depth) frame ((Item.read first cursor).alone first) >>= fun flow =>
        flow.andThen (lines depth frame ((Item.read first cursor).rest?.getD [])) := by
  rw [lines, Code.ofLines_cons]
  cases Item.read first cursor with
  | action work rest =>
      simp only [Item.alone, code_action, bind_assoc, andThen_done, pure_bind]
      rfl
  | definition header body rest => rfl
  | branch condition yes no rest =>
      simp only [Item.alone, code_branch, bind_assoc, andThen_done, pure_bind]
      rfl
  | strayElse rest => rfl
  | broken before halt =>
      simp only [Item.alone, code, bind_assoc]
      rfl

theorem readBranch_eq (line : Line) (condition : Fragment) (bodyStart : Text) (cursor : Cursor) :
    Item.readBranch line condition bodyStart cursor =
      match Block.collect .branch line.number bodyStart cursor with
      | .error halt => .broken (.condition condition) halt
      | .ok (yes, afterYes) =>
          match alternative afterYes with
          | .error halt => .broken (.condition condition) halt
          | .ok (no, rest) => .branch condition yes no rest := by
  unfold Item.readBranch alternative
  cases Block.collect .branch line.number bodyStart cursor with
  | error halt => rfl
  | ok collected =>
      obtain ⟨yes, afterYes⟩ := collected
      dsimp only
      cases Item.elseHeader? afterYes <;> rfl

theorem branchLine_eq_alone (line : Line) (condition : Fragment) (bodyStart : Text)
    (cursor : Cursor) :
    branchLine depth frame line condition bodyStart cursor =
      code (invoke depth) frame
          ((Item.readBranch line condition bodyStart cursor).alone line) >>= fun flow =>
        pure (flow, (Item.readBranch line condition bodyStart cursor).rest?.getD []) := by
  rw [readBranch_eq, branchLine]
  cases Block.collect .branch line.number bodyStart cursor with
  | error halt =>
      simp only [Item.alone, code, before, bind_assoc, pure_bind, received_error, Run.halt_bind]
  | ok collected =>
      obtain ⟨yes, afterYes⟩ := collected
      simp only [received_ok, pure_bind]
      cases alternative afterYes with
      | error halt =>
          simp only [Item.alone, code, before, bind_assoc, pure_bind, received_error, Run.halt_bind]
      | ok collected =>
          obtain ⟨no, rest⟩ := collected
          simp only [Item.alone, code_branch, bind_assoc, received_ok, pure_bind, andThen_done]
          congr 1
          funext holds
          cases holds <;> rfl

/-- To execute a line is to read it with its blocks and to execute what was read: the cursor after
it does not depend on how its condition is evaluated. -/
theorem line_eq_alone (first : Line) (cursor : Cursor) :
    line depth frame first cursor =
      code (invoke depth) frame ((Item.read first cursor).alone first) >>= fun flow =>
        pure (flow, (Item.read first cursor).rest?.getD []) := by
  have plain (work : Action) : plainLine depth frame first work cursor =
      code (invoke depth) frame (.action first work .done) >>= fun flow => pure (flow, cursor) := by
    simp only [plainLine, code_action, bind_assoc, andThen_done, pure_bind]
  unfold line Item.read
  cases Statement.ofLine first with
  | error refusal =>
      cases refusal with
      | malformed fault => exact plain _
      | outOfRange => rfl
  | ok statement =>
      cases statement with
      | function header bodyStart =>
          dsimp only
          cases Block.collect .function first.number bodyStart cursor <;> rfl
      | branch condition bodyStart =>
          exact branchLine_eq_alone depth frame first condition bodyStart cursor
      | otherwise bodyStart =>
          dsimp only
          cases Block.collect .otherwise first.number bodyStart cursor <;> rfl
      | callDeclaration kind name value => exact plain _
      | print value => exact plain _
      | declaration kind name value => exact plain _
      | call value => exact plain _
      | result value => exact plain _
      | unknown => exact plain _

theorem lines_cons (first : Line) (cursor : Cursor) :
    lines depth frame (first :: cursor) =
      line depth frame first cursor >>= fun executed =>
        executed.1.andThen (lines depth frame executed.2) := by
  rw [lines_cons_read, line_eq_alone, bind_assoc]
  simp only [pure_bind]

variable {depth frame}

theorem code_broken_ne_ok {invoke : Invoke} {line : Line} {work : Prelude} {halt : Halt}
    {world reached : World} {flow : Flow} :
    code invoke frame (.broken line work halt) world ≠ (.ok flow, reached) := by
  rw [code, Run.bind_apply]
  split <;> simp

/-- What a line leaves in the cursor depends on the text alone. -/
theorem of_line_ok {first : Line} {cursor rest : Cursor} {world reached : World} {flow : Flow}
    (executed : line depth frame first cursor world = (.ok (flow, rest), reached)) :
    (Item.read first cursor).rest? = some rest ∧
      code (invoke depth) frame ((Item.read first cursor).alone first) world =
        (.ok flow, reached) := by
  rw [line_eq_alone, Run.bind_apply] at executed
  split at executed
  next ran =>
    cases executed
    cases read : Item.read first cursor with
    | broken before halt =>
        rw [read] at ran
        exact absurd ran code_broken_ne_ok
    | action work rest => exact ⟨rfl, by rw [← read]; exact ran⟩
    | definition header body rest => exact ⟨rfl, by rw [← read]; exact ran⟩
    | branch condition yes no rest => exact ⟨rfl, by rw [← read]; exact ran⟩
    | strayElse rest => exact ⟨rfl, by rw [← read]; exact ran⟩
  next => cases executed

theorem of_line_error {first : Line} {cursor : Cursor} {world reached : World} {halt : Halt}
    (executed : line depth frame first cursor world = (.error halt, reached)) :
    code (invoke depth) frame ((Item.read first cursor).alone first) world =
      (.error halt, reached) := by
  rw [line_eq_alone, Run.bind_apply] at executed
  split at executed
  next => cases executed
  next ran =>
    cases executed
    exact ran

theorem weight_rest_lt {first : Line} {cursor rest : Cursor}
    (left : (Item.read first cursor).rest? = some rest) :
    Cursor.weight rest < Cursor.weight (first :: cursor) := by
  have lighter := Item.weight_left_read_lt first cursor
  cases read : Item.read first cursor with
  | broken before halt =>
      rw [read] at left
      cases left
  | branch condition yes no after =>
      rw [read] at left lighter
      cases left
      simp only [Item.left, Cursor.weight_append] at lighter
      omega
  | action work after | definition header body after | strayElse after =>
      rw [read] at left lighter
      cases left
      exact lighter

variable (depth frame) in
/-- The lines that a run takes from its cursor one after another, each with what follows it in the
cursor, and how the run ends. -/
inductive Walk : Cursor → World → List (Line × Cursor) → Except Halt Flow → World → Prop
  | done (world : World) : Walk [] world [] (.ok .proceed) world
  | next {first : Line} {cursor rest : Cursor} {world reached final : World}
      {taken : List (Line × Cursor)} {ending : Except Halt Flow} :
      line depth frame first cursor world = (.ok (.proceed, rest), reached) →
      Walk rest reached taken ending final →
      Walk (first :: cursor) world ((first, cursor) :: taken) ending final
  | returned {first : Line} {cursor rest : Cursor} {world reached : World} {value : Value} :
      line depth frame first cursor world = (.ok (.returned value, rest), reached) →
      Walk (first :: cursor) world [(first, cursor)] (.ok (.returned value)) reached
  | halted {first : Line} {cursor : Cursor} {world reached : World} {halt : Halt} :
      line depth frame first cursor world = (.error halt, reached) →
      Walk (first :: cursor) world [(first, cursor)] (.error halt) reached

/-- A walk is a run of the lines that it begins with. -/
theorem Walk.lines_eq {cursor : Cursor} {world final : World} {taken : List (Line × Cursor)}
    {ending : Except Halt Flow} (walk : Walk depth frame cursor world taken ending final) :
    lines depth frame cursor world = (ending, final) := by
  induction walk with
  | done world =>
      rw [lines_nil]
      rfl
  | next executed _ ih =>
      rw [lines_cons, Run.bind_apply, executed]
      exact ih
  | returned executed =>
      rw [lines_cons, Run.bind_apply, executed]
      rfl
  | halted executed => rw [lines_cons, Run.bind_apply, executed]

theorem exists_walk (depth : Nat) (frame : Option Function) (cursor : Cursor) (world : World) :
    ∃ taken ending final, Walk depth frame cursor world taken ending final := by
  generalize size : Cursor.weight cursor = weight
  induction weight using Nat.strongRecOn generalizing cursor world with
  | ind weight ih =>
      cases cursor with
      | nil => exact ⟨_, _, _, .done world⟩
      | cons first cursor =>
          cases executed : line depth frame first cursor world with
          | mk result reached =>
              match result with
              | .error halt => exact ⟨_, _, _, .halted executed⟩
              | .ok (.returned value, rest) => exact ⟨_, _, _, .returned executed⟩
              | .ok (.proceed, rest) =>
                  have lighter := weight_rest_lt (of_line_ok executed).1
                  obtain ⟨taken, ending, final, walk⟩ :=
                    ih _ (size ▸ lighter) rest reached rfl
                  exact ⟨_, _, _, .next executed walk⟩

end Execution

end Purr
