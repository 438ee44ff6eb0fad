import Purr.Proofs.Composition
import Purr.Proofs.ReturnKinds
import Purr.Session

/-!
# Control structure is static

Which lines a run takes at the top level, and whether it meets a block without its closing brace,
can be told from the text. `outline` tells it without any environment: nothing that is executed on
the way, be it a condition, a branch or a call, can return from the top level, halt for an unclosed
block of its own, or move the cursor.
-/

namespace Purr

set_option autoImplicit false

def Item.after : Item → Except Halt Cursor
  | .action _ rest | .definition _ _ rest | .branch _ _ _ rest | .strayElse rest => .ok rest
  | .broken _ halt => .error halt

theorem Item.rest?_eq_some_iff {item : Item} {rest : Cursor} :
    item.rest? = some rest ↔ item.after = .ok rest := by
  cases item <;> simp [Item.rest?, Item.after]

/-- The lines at the top level of a cursor, each with what follows it in the cursor, and how they
end. It is told from the text alone. -/
def outline : Cursor → List (Line × Cursor) × Except Halt Flow
  | [] => ([], .ok .proceed)
  | first :: cursor =>
      match _ : (Item.read first cursor).after with
      | .ok rest => ((first, cursor) :: (outline rest).1, (outline rest).2)
      | .error halt => ([(first, cursor)], .error halt)
termination_by cursor => Cursor.weight cursor
decreasing_by
  all_goals exact Execution.weight_rest_lt (Item.rest?_eq_some_iff.2 (by assumption))

theorem Item.unclosed_of_after {line : Line} {cursor : Cursor} {halt : Halt}
    (failed : (Item.read line cursor).after = .error halt) : halt.Unclosed := by
  have shape := Item.read_shape line cursor
  generalize Item.read line cursor = item at failed shape
  cases shape with
  | broken _ _ unclosed =>
      cases failed
      exact ⟨_, _, Block.eq_of_collect_error unclosed⟩
  | brokenElse _ _ _ unclosed =>
      cases failed
      exact ⟨_, _, Block.eq_of_collect_error unclosed⟩
  | action | definition | branch | alternative | strayElse => cases failed

theorem outline_ending (cursor : Cursor) :
    (outline cursor).2 = .ok .proceed ∨
      ∃ halt, (outline cursor).2 = .error halt ∧ halt.Unclosed := by
  fun_induction outline cursor with
  | case1 => exact .inl rfl
  | case2 first cursor rest left ih => exact ih
  | case3 first cursor halt failed => exact .inr ⟨halt, rfl, Item.unclosed_of_after failed⟩

/-- The scopes that a session can reach: by executing scripts, calling functions and binding
variables one after another. -/
inductive Scope.Reached : Scope → Prop
  | empty : Scope.Reached .empty
  | request (depth : Nat) (asked : Session.Request) {world : World} : Scope.Reached world.scope →
      Scope.Reached (Session.request depth asked world).2.scope

theorem Run.bind_pure_snd {σ α β : Type} (first : Run σ α) (result : α → β) (state : σ) :
    (first >>= fun value => pure (result value)) state =
      ((first state).1.map result, (first state).2) := by
  rw [Run.bind_apply]
  rcases first state with ⟨_ | _, _⟩ <;> rfl

theorem Scope.Reached.bodies {scope : Scope} (reached : scope.Reached) :
    scope.Bodies Block.Balanced := by
  induction reached with
  | empty => exact .empty
  | @request depth asked world _ ih =>
      cases asked with
      | execute source frame =>
          simp only [Session.request, Run.bind_pure_snd]
          exact Execution.lines_bodies depth _ (codeLines source) ih
      | call name arguments =>
          simp only [Session.request, Run.bind_pure_snd]
          exact ih
      | bind name value => exact Scope.Functions.bind ih name value
      | lookup name => exact ih

namespace Execution

/-- The run came to its end: its calls were not nested too deep, and the output stream refused no
write. -/
def Finishes (ending : Except Halt Flow) : Prop :=
  ending ≠ .error .tooDeep ∧ ending ≠ .error (.fatal (.output .full))

def LineHalt (first : Line) (cursor : Cursor) (halt : Halt) : Prop :=
  halt = .tooDeep ∨ halt = .fatal (.output .full) ∨ (Item.read first cursor).after = .error halt

theorem alone_sound (first : Line) (cursor : Cursor) :
    ((Item.read first cursor).alone first).Sound .any Block.BalancedBody
      (LineHalt first cursor) := by
  have fits := first.fits_any
  have shape := Item.read_shape first cursor
  generalize read : Item.read first cursor = item at shape
  have block {body : List Line} (balanced : Block.Balanced body) :
      (Code.ofLines body).Sound .any Block.BalancedBody (LineHalt first cursor) :=
    balanced.sound.mono fun _ => False.elim
  cases shape with
  | action asked => exact ⟨fits.action _ asked, trivial⟩
  | definition recognized collected => exact ⟨Block.balanced_of_collect collected, trivial⟩
  | branch recognized collected =>
      exact ⟨fits.prelude _ recognized, block (Block.balanced_of_collect collected), block rfl,
        trivial⟩
  | alternative recognized collected elseOpens elseCollected =>
      exact ⟨fits.prelude _ recognized, block (Block.balanced_of_collect collected),
        block (Block.balanced_of_collect elseCollected), trivial⟩
  | strayElse recognized collected => exact ⟨fits.prelude _ recognized, trivial⟩
  | broken recognized opens failed =>
      exact ⟨fits.prelude _ recognized, .inr (.inr (by rw [read]; rfl))⟩
  | brokenElse recognized collected elseOpens failed =>
      exact ⟨fits.prelude _ recognized, .inr (.inr (by rw [read]; rfl))⟩

theorem alone_keeps (depth : Nat) (first : Line) (cursor : Cursor) :
    (code (invoke depth) none ((Item.read first cursor).alone first)).Keeps
      (Settled Block.BalancedBody fun _ => True) (LineHalt first cursor) := by
  have invariant : Invariant .any Block.BalancedBody (fun _ => True) (LineHalt first cursor) :=
    balanced_invariant (.inr (.inl rfl)) (.inl rfl)
  exact code_keeps invariant (invoke_obeys invariant depth) .top (alone_sound first cursor)

/-- A run that comes to its end takes the lines of the outline and ends like it: by induction on the
outline, with balanced bodies as the invariant. -/
theorem walk_outline (depth : Nat) (cursor : Cursor) {world : World}
    (bodies : world.scope.Bodies Block.Balanced)
    (finishes : Finishes (lines depth none cursor world).1) :
    ∃ final, Walk depth none cursor world (outline cursor).1 (outline cursor).2 final := by
  fun_induction outline cursor generalizing world with
  | case1 => exact ⟨world, .done world⟩
  | case2 first cursor rest left ih =>
      rw [lines_cons, Run.bind_apply] at finishes
      have kept := alone_keeps depth first cursor world ⟨bodies, trivial⟩
      cases executed : line depth none first cursor world with
      | mk result reached =>
          rw [executed] at finishes
          cases result with
          | error halt =>
              rw [of_line_error executed] at kept
              rcases kept.2 halt rfl with rfl | rfl | failed
              · exact absurd rfl finishes.1
              · exact absurd rfl finishes.2
              · rw [left] at failed
                cases failed
          | ok ended =>
              obtain ⟨flow, after⟩ := ended
              obtain ⟨same, ran⟩ := of_line_ok executed
              rw [ran] at kept
              rw [Item.rest?_eq_some_iff, left] at same
              cases same
              cases (code_ends _ none _ _ _ _ ran).eq_proceed
              obtain ⟨final, walk⟩ := ih kept.1.functions finishes
              exact ⟨final, .next executed walk⟩
  | case3 first cursor halt failed =>
      rw [lines_cons, Run.bind_apply] at finishes
      have kept := alone_keeps depth first cursor world ⟨bodies, trivial⟩
      cases executed : line depth none first cursor world with
      | mk result reached =>
          rw [executed] at finishes
          cases result with
          | error reason =>
              rw [of_line_error executed] at kept
              rcases kept.2 reason rfl with rfl | rfl | same
              · exact absurd rfl finishes.1
              · exact absurd rfl finishes.2
              · rw [failed] at same
                cases same
                exact ⟨reached, .halted executed⟩
          | ok ended =>
              obtain ⟨flow, after⟩ := ended
              have same := (of_line_ok executed).1
              rw [Item.rest?_eq_some_iff, failed] at same
              cases same

/-- The lines that a script takes at the top level and the way it ends are the same in all
environments. It ends at its end, or with the same construct and line where a block is not
closed. -/
theorem control_structure_is_static (source : Text) :
    ∃ taken ending,
      (ending = .ok .proceed ∨
        ∃ construct opened, ending = .error (.fatal (.unterminatedBlock construct opened))) ∧
      ∀ depth world, world.scope.Reached → Finishes (lines depth none (codeLines source) world).1 →
        ∃ final, Walk depth none (codeLines source) world taken ending final ∧
          lines depth none (codeLines source) world = (ending, final) := by
  refine ⟨(outline (codeLines source)).1, (outline (codeLines source)).2, ?_, ?_⟩
  · rcases outline_ending (codeLines source) with ends | ⟨halt, ends, construct, opened, rfl⟩
    · exact .inl ends
    · exact .inr ⟨construct, opened, ends⟩
  · intro depth world reached finishes
    obtain ⟨final, walk⟩ := walk_outline depth (codeLines source) reached.bodies finishes
    exact ⟨final, walk, walk.lines_eq⟩

def unclosedBranch : Text := "if (x) \x7b".toList

theorem lines_unclosedBranch (world : World) :
    (lines 0 none (codeLines unclosedBranch) world) =
      (before (invoke 0) ⟨1, unclosedBranch⟩ (.condition ⟨['x'], [⟨.name ['x'], 0, 1, by decide⟩], 1⟩)
        >>= fun _ => Run.halt (.fatal (.unterminatedBlock .branch 1))) world := by
  have only : codeLines unclosedBranch = [⟨1, unclosedBranch⟩] := by decide +kernel
  have read : Item.read ⟨1, unclosedBranch⟩ [] =
      .broken (.condition ⟨['x'], [⟨.name ['x'], 0, 1, by decide⟩], 1⟩)
        (.fatal (.unterminatedBlock .branch 1)) := rfl
  rw [lines, only, Code.ofLines_broken read]
  rfl

theorem unclosed_branch_is_static :
    ∃ taken ending,
      (∃ final, Walk 0 none (codeLines unclosedBranch) ⟨.empty, .opened .unlimited⟩ taken ending
        final) ∧
      ∃ final, Walk 0 none (codeLines unclosedBranch)
        ⟨Scope.empty.bind ['x'] (.boolean true), .opened .unlimited⟩ taken ending final := by
  obtain ⟨taken, ending, _, static⟩ := control_structure_is_static unclosedBranch
  have bound : (Scope.empty.bind ['x'] (.boolean true)).Reached :=
    @Scope.Reached.request 0 (.bind ['x'] (.boolean true)) ⟨.empty, .opened .unlimited⟩ .empty
  obtain ⟨first, walk, _⟩ := static 0 ⟨.empty, .opened .unlimited⟩ .empty (by
    rw [lines_unclosedBranch]
    exact ⟨nofun, nofun⟩)
  obtain ⟨second, other, _⟩ := static 0 ⟨_, .opened .unlimited⟩ bound (by
    rw [lines_unclosedBranch]
    exact ⟨nofun, nofun⟩)
  exact ⟨taken, ending, ⟨first, walk⟩, second, other⟩

end Execution

end Purr
