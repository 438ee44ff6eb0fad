import Purr.Proofs.LineByLine

/-!
# Scripts one after another

A line that finds the end of its blocks finds the same end with more lines behind, and leaves them
all in the cursor. So lines that meet no unclosed block are executed in the same way whatever
follows them, as long as it does not begin with an `else` for their last branch.
-/

namespace Purr

set_option autoImplicit false

theorem Cursor.push?_append (line : Option Line) (cursor more : Cursor) :
    push? line (cursor ++ more) = push? line cursor ++ more := by
  cases line <;> rfl

namespace Block

theorem collectFrom_append {construct : Construct} {opened depth : Nat}
    {lines body rest : List Line} (more : List Line)
    (collected : collectFrom construct opened depth lines = .ok (body, rest)) :
    collectFrom construct opened depth (lines ++ more) = .ok (body, rest ++ more) := by
  induction lines generalizing depth body rest with
  | nil => cases collected
  | cons line others ih =>
      rw [List.cons_append]
      rw [collectFrom] at collected ⊢
      generalize scan? depth line.text = scanned at collected ⊢
      cases scanned with
      | none => cases collected
      | some found =>
          cases found with
          | inside deeper =>
              obtain ⟨⟨inner, after⟩, found, same⟩ := bind_eq_ok_iff.1 collected
              cases same
              simp only [ih found]
              rfl
          | closed position =>
              dsimp only at collected ⊢
              split at collected
              next cut dropped =>
                cases collected
                rw [Cursor.push?_append]
              next => cases collected

theorem collect_append {construct : Construct} {opened : Nat} {bodyStart : Text}
    {cursor body rest : Cursor} (more : List Line)
    (collected : collect construct opened bodyStart cursor = .ok (body, rest)) :
    collect construct opened bodyStart (cursor ++ more) = .ok (body, rest ++ more) := by
  rw [collect, Cursor.push?_append]
  exact collectFrom_append more collected

end Block

theorem Item.elseHeader?_cons_append (line : Line) (others more : Cursor) :
    elseHeader? (line :: others ++ more) =
      (elseHeader? (line :: others)).map fun header =>
        (header.1, header.2.1, header.2.2 ++ more) := by
  simp only [List.cons_append, elseHeader?]
  split <;> rfl

namespace Execution

theorem unclosed_of_alternative {cursor : Cursor} {halt : Halt}
    (failed : alternative cursor = .error halt) : halt.Unclosed := by
  unfold alternative at failed
  split at failed
  next => cases failed
  next => exact ⟨_, _, Block.eq_of_collect_error failed⟩

theorem alternative_append {cursor more no rest : Cursor} (noElse : Item.elseHeader? more = none)
    (found : alternative cursor = .ok (no, rest)) :
    alternative (cursor ++ more) = .ok (no, rest ++ more) := by
  cases cursor with
  | nil =>
      cases found
      rw [List.nil_append, alternative, noElse]
  | cons line others =>
      rw [alternative, Item.elseHeader?_cons_append]
      rw [alternative] at found
      cases header : Item.elseHeader? (line :: others) with
      | none =>
          rw [header] at found
          cases found
          rfl
      | some header' =>
          rw [header] at found
          exact Block.collect_append more found

variable (depth : Nat) (frame : Option Function)

theorem plainLine_append (line : Line) (work : Action) (cursor more : Cursor) :
    plainLine depth frame line work (cursor ++ more) =
      plainLine depth frame line work cursor >>= fun executed =>
        pure (executed.1, executed.2 ++ more) := by
  simp only [plainLine, bind_assoc, pure_bind]

variable {depth frame}

theorem branchLine_append {line : Line} {condition : Fragment} {bodyStart : Text}
    {cursor more : Cursor} {world : World} (noElse : Item.elseHeader? more = none)
    (closed : ∀ halt, (branchLine depth frame line condition bodyStart cursor world).1 =
      .error halt → ¬ halt.Unclosed) :
    branchLine depth frame line condition bodyStart (cursor ++ more) world =
      (branchLine depth frame line condition bodyStart cursor >>= fun executed =>
        pure (executed.1, executed.2 ++ more)) world := by
  unfold branchLine at closed ⊢
  rw [bind_assoc, Run.bind_apply, Run.bind_apply]
  rw [Run.bind_apply] at closed
  generalize (World.evaluate fun scope =>
    Evaluation.condition (invoke depth) scope condition) world = evaluated at closed ⊢
  obtain ⟨result, reached⟩ := evaluated
  cases result with
  | error halt => rfl
  | ok holds =>
      dsimp only at closed ⊢
      cases collected : Block.collect .branch line.number bodyStart cursor with
      | error halt =>
          rw [collected] at closed
          exact absurd ⟨_, _, Block.eq_of_collect_error collected⟩ (closed halt rfl)
      | ok found =>
          obtain ⟨yes, afterYes⟩ := found
          rw [collected] at closed
          rw [Block.collect_append more collected]
          simp only [received_ok, pure_bind] at closed ⊢
          cases alternated : alternative afterYes with
          | error halt =>
              rw [alternated] at closed
              exact absurd (unclosed_of_alternative alternated) (closed halt rfl)
          | ok found =>
              rw [alternative_append noElse alternated]
              simp only [received_ok, pure_bind, bind_assoc]

/-- A line that meets no unclosed block does the same with more lines behind, and leaves them. -/
theorem line_append {first : Line} {cursor more : Cursor} {world : World}
    (noElse : Item.elseHeader? more = none)
    (closed : ∀ halt, (line depth frame first cursor world).1 = .error halt → ¬ halt.Unclosed) :
    line depth frame first (cursor ++ more) world =
      (line depth frame first cursor >>= fun executed =>
        pure (executed.1, executed.2 ++ more)) world := by
  have plain (work : Action) :=
    congrFun (plainLine_append depth frame first work cursor more) world
  unfold line at closed ⊢
  cases recognized : Statement.ofLine first with
  | error refusal =>
      cases refusal with
      | malformed fault => exact plain _
      | outOfRange => rfl
  | ok statement =>
      rw [recognized] at closed
      cases statement with
      | function header bodyStart =>
          dsimp only at closed ⊢
          cases collected : Block.collect .function first.number bodyStart cursor with
          | error halt =>
              rw [collected] at closed
              exact absurd ⟨_, _, Block.eq_of_collect_error collected⟩ (closed halt rfl)
          | ok found =>
              rw [Block.collect_append more collected]
              rfl
      | branch condition bodyStart => exact branchLine_append noElse closed
      | otherwise bodyStart =>
          dsimp only at closed ⊢
          cases collected : Block.collect .otherwise first.number bodyStart cursor with
          | error halt =>
              rw [collected] at closed
              exact absurd ⟨_, _, Block.eq_of_collect_error collected⟩ (closed halt rfl)
          | ok found =>
              rw [Block.collect_append more collected]
              rfl
      | callDeclaration kind name value => exact plain _
      | print value => exact plain _
      | declaration kind name value => exact plain _
      | call value => exact plain _
      | result value => exact plain _
      | unknown => exact plain _

/-- By induction on the weight of what is left in the cursor, since a line may push a part of
itself back. -/
theorem lines_append {first second : List Line} {world : World}
    (noElse : Item.elseHeader? second = none)
    (closed : ∀ halt, (lines depth frame first world).1 = .error halt → ¬ halt.Unclosed) :
    lines depth frame (first ++ second) world =
      (lines depth frame first >>= fun flow =>
        flow.andThen (lines depth frame second)) world := by
  generalize size : Cursor.weight first = weight
  induction weight using Nat.strongRecOn generalizing first world with
  | ind weight ih =>
      cases first with
      | nil =>
          rw [lines_nil, pure_bind]
          rfl
      | cons line cursor =>
          rw [lines_cons, Run.bind_apply] at closed
          rw [List.cons_append, lines_cons, lines_cons, bind_assoc, Run.bind_apply,
            Run.bind_apply]
          have step := @line_append depth frame line cursor second world noElse
          rw [Run.bind_apply] at step
          cases executed : Execution.line depth frame line cursor world with
          | mk result reached =>
              rw [executed] at closed step
              match result with
              | .error halt =>
                  rw [step (by intro other failed; cases failed; exact closed halt rfl)]
              | .ok (.returned value, rest) =>
                  rw [step (by intro halt failed; cases failed)]
                  rfl
              | .ok (.proceed, rest) =>
                  have lighter := weight_rest_lt (of_line_ok executed).1
                  rw [step (by intro halt failed; cases failed)]
                  exact ih _ (size ▸ lighter) closed rfl

/-- Scripts compose: executing lines and then more lines, which begin with no `else` header, is
executing all of them, unless the first ones meet a block without its closing brace. -/
theorem scripts_compose (depth : Nat) (frame : Option Function) (first second : List Line)
    (world : World)
    (closed : ∀ construct opened, (lines depth frame first world).1 ≠
      .error (.fatal (.unterminatedBlock construct opened)))
    (noElse : Item.elseHeader? second = none) :
    lines depth frame (first ++ second) world =
      (lines depth frame first >>= fun flow =>
        flow.andThen (lines depth frame second)) world := by
  apply lines_append noElse
  rintro halt halted ⟨construct, opened, rfl⟩
  exact closed construct opened halted

def closedBranch : List Line :=
  [⟨1, "if (true) \x7b".toList⟩, ⟨2, "purr ~> \"a\"; \x7d".toList⟩]

theorem branch_and_output_compose :
    (∀ construct opened, (lines 0 none closedBranch ⟨.empty, .opened .unlimited⟩).1 ≠
      .error (.fatal (.unterminatedBlock construct opened))) ∧
    Item.elseHeader? [⟨3, "purr ~> \"b\";".toList⟩] = none ∧
    lines 0 none (closedBranch ++ [⟨3, "purr ~> \"b\";".toList⟩]) ⟨.empty, .opened .unlimited⟩ =
      (lines 0 none closedBranch >>= fun flow =>
        flow.andThen (lines 0 none [⟨3, "purr ~> \"b\";".toList⟩]))
        ⟨.empty, .opened .unlimited⟩ := by
  have balanced : Block.Balanced closedBranch := by
    unfold Block.Balanced
    decide
  have closed := @lines_balanced 0 none _ ⟨.empty, .opened .unlimited⟩ balanced Scope.Bodies.empty
  exact ⟨closed, rfl, scripts_compose 0 none _ _ _ closed rfl⟩

end Execution

end Purr
