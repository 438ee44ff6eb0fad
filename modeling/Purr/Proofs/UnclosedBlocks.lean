import Purr.Proofs.Executions
import Purr.Proofs.Heredity

/-!
# Blocks that are not closed

The body of a block is balanced: every brace that its lines open they close, and they close no
other. So wherever a body is read again, be it as a branch or in a call, every block in it is
closed, although its lines are cut, pushed back and counted anew. Only a header at the top level of
a script can lack its closing brace.
-/

namespace Purr

set_option autoImplicit false

def Item.rest? : Item → Option Cursor
  | .action _ rest | .definition _ _ rest | .branch _ _ _ rest | .strayElse rest => some rest
  | .broken _ _ => none

/-- Reading items from a cursor takes a line from the cursor itself and leaves some lines in it. The
lines of blocks are not taken in this sense, only the headers before them. -/
inductive Taken : Cursor → Line → Cursor → Prop
  | first (line : Line) (cursor : Cursor) : Taken (line :: cursor) line cursor
  | later {line taken : Line} {cursor rest left : Cursor} :
      (Item.read line cursor).rest? = some rest → Taken rest taken left →
      Taken (line :: cursor) taken left
  | elseHeader {line taken : Line} {cursor left : Cursor} {bodyStart : Text} {yes : List Line} :
      line.Opens .branch bodyStart →
      Block.collect .branch line.number bodyStart cursor = .ok (yes, taken :: left) →
      Taken (line :: cursor) taken left

/-- An unclosed block, if there is one, is one whose header was taken from the lines. -/
def UnclosedIn (lines : Cursor) (halt : Halt) : Prop :=
  ∀ construct opened, halt = .fatal (.unterminatedBlock construct opened) →
    ∃ header cursor bodyStart, Taken lines header cursor ∧ header.Opens construct bodyStart ∧
      header.number = opened ∧
      Block.collect construct opened bodyStart cursor =
        .error (.fatal (.unterminatedBlock construct opened))

namespace Block

def BalancedBody (function : Function) : Prop := Balanced function.body

theorem closed_heredity : Cursor.Heredity .any BalancedBody (fun _ => False) Closed where
  nil := rfl
  taken _ _ closed := closed.tail
  collect _ _ _ _ _ _ closed opens collected :=
    ⟨(balanced_of_collect collected).closed, (closed.collect opens).1 _ _ collected⟩
  allows line _ _ := Reports.allows_any line
  function _ _ _ _ _ _ _ _ collected := balanced_of_collect collected
  unclosed _ _ _ _ halt closed opens failed := (closed.collect opens).2 halt failed

theorem Balanced.sound {body : List Line} (balanced : Balanced body) :
    (Code.ofLines body).Sound .any BalancedBody (fun _ => False) :=
  closed_heredity.code balanced.closed

/-- Along a cursor of a script either all braces are closed, or the lines that reading takes are
taken from the script itself. -/
def Along (script lines : Cursor) : Prop :=
  Closed lines ∨ ∀ header cursor, Taken lines header cursor → Taken script header cursor

theorem Along.sound {script : Cursor} {line : Line} {cursor : Cursor}
    (along : Along script (line :: cursor)) :
    (Item.read line cursor).Sound .any (Along script) BalancedBody (UnclosedIn script) line := by
  rcases along with closed | taken
  · exact (closed_heredity.sound closed).mono (fun _ => .inl) (fun _ => False.elim)
  · have later {rest : Cursor} (left : (Item.read line cursor).rest? = some rest) :
        Along script rest :=
      .inr fun header after inner => taken header after (.later left inner)
    have fits := line.fits_any
    have shape := Item.read_shape line cursor
    generalize Item.read line cursor = item at shape later
    cases shape with
    | action asked => exact ⟨fits.action _ asked, later rfl⟩
    | definition recognized collected => exact ⟨balanced_of_collect collected, later rfl⟩
    | branch recognized collected =>
        have body := balanced_of_collect collected
        exact ⟨fits.prelude _ recognized, .inl body.closed, .inl rfl, later rfl⟩
    | alternative recognized collected elseOpens elseCollected =>
        have body := balanced_of_collect collected
        have elseBody := balanced_of_collect elseCollected
        exact ⟨fits.prelude _ recognized, .inl body.closed, .inl elseBody.closed, later rfl⟩
    | strayElse recognized collected => exact ⟨fits.prelude _ recognized, later rfl⟩
    | @broken statement construct bodyStart halt recognized opens failed =>
        refine ⟨fits.prelude _ recognized, ?_⟩
        intro other opened same
        subst same
        cases eq_of_collect_error failed
        exact ⟨line, cursor, bodyStart, taken line cursor (.first line cursor),
          ⟨statement, recognized, opens⟩, rfl, failed⟩
    | @brokenElse condition bodyStart elseStart elseLine yes between halt recognized collected
        elseOpens failed =>
        refine ⟨fits.prelude _ recognized, ?_⟩
        intro other opened same
        subst same
        cases eq_of_collect_error failed
        have header := taken elseLine between (.elseHeader ⟨_, recognized, rfl⟩ collected)
        exact ⟨elseLine, between, elseStart, header, elseOpens, rfl, failed⟩

end Block

namespace Execution

theorem balanced_invariant {allowed : Halt → Prop} (full : allowed (.fatal (.output .full)))
    (tooDeep : allowed .tooDeep) :
    Invariant .any Block.BalancedBody (fun _ => True) allowed where
  report line fault _ _ := Console.report_keeps allowed line fault
  write := Console.write_keeps (fun _ _ _ => trivial) full
  tooDeep := tooDeep
  body _ balanced := (Block.Balanced.sound balanced).mono fun _ => False.elim
  name _ _ := trivial

theorem unclosed_invariant (program : Cursor) :
    Invariant .any Block.BalancedBody (fun _ => True) (UnclosedIn program) := by
  apply balanced_invariant
  · intro _ _ same
    cases same
  · intro _ _ same
    cases same

theorem sound_unclosed (program : List Line) :
    (Code.ofLines program).Sound .any Block.BalancedBody (UnclosedIn program) := by
  have start : Block.Along program program := .inr fun _ _ taken => taken
  exact Code.sound_ofLines (fun _ _ along => along.sound) start

theorem lines_bodies (depth : Nat) (frame : Option Function) (program : List Line) {world : World}
    (bodies : world.scope.Bodies Block.Balanced) :
    (lines depth frame program world).2.scope.Bodies Block.Balanced := by
  have kept := lines_keeps (unclosed_invariant program) depth (.any frame) (sound_unclosed program)
  have ⟨settled, _⟩ := kept world ⟨bodies, trivial⟩
  exact settled.functions

theorem not_unclosed_of_built {α : Type} {execution : Invoke → Run World α}
    (built : Built .any Block.BalancedBody (fun halt => ¬ halt.Unclosed) execution) (depth : Nat)
    {world reached : World} {halt : Halt} (bodies : world.scope.Bodies Block.Balanced)
    (failed : execution (invoke depth) world = (.error halt, reached)) : ¬ halt.Unclosed := by
  have other : Invariant .any Block.BalancedBody (fun _ => True) fun halt => ¬ halt.Unclosed := by
    apply balanced_invariant <;> rintro ⟨_, _, same⟩ <;> cases same
  have kept := built.keeps other.report other.write (invoke_obeys other depth)
  have ⟨_, reasons⟩ := kept world ⟨bodies, trivial⟩
  exact reasons halt (congrArg Prod.fst failed)

/-- Balanced lines among functions with balanced bodies never meet an unclosed block. -/
theorem lines_balanced (depth : Nat) (frame : Option Function) {program : List Line} {world : World}
    (balanced : Block.Balanced program) (bodies : world.scope.Bodies Block.Balanced)
    (construct : Construct) (opened : Nat) :
    (lines depth frame program world).1 ≠ .error (.fatal (.unterminatedBlock construct opened)) := by
  intro failed
  have sound : (Code.ofLines program).Sound .any Block.BalancedBody fun halt => ¬ halt.Unclosed :=
    balanced.sound.mono fun _ => False.elim
  have built := code_built (.any frame) sound
  exact not_unclosed_of_built built depth bodies (Prod.ext failed rfl) ⟨construct, opened, rfl⟩

end Execution

/-- Bodies are balanced, every run leaves functions with balanced bodies only, and executing
balanced lines among such functions never meets an unclosed block. So if a script has one, then its
header is at the top level. -/
theorem unclosed_blocks_at_top_level :
    (∀ construct opened bodyStart cursor body rest,
      Block.collect construct opened bodyStart cursor = .ok (body, rest) → Block.Balanced body) ∧
    (∀ depth frame program world, world.scope.Bodies Block.Balanced →
      (Block.Balanced program → ∀ construct opened, (Execution.lines depth frame program world).1 ≠
        .error (.fatal (.unterminatedBlock construct opened))) ∧
      (Execution.lines depth frame program world).2.scope.Bodies Block.Balanced) ∧
    ∀ depth streams source construct opened,
      (Script.run depth streams source).halt =
        some (.fatal (.unterminatedBlock construct opened)) →
      ∃ header cursor bodyStart, Taken (codeLines source) header cursor ∧
        header.Opens construct bodyStart ∧ header.number = opened ∧
        Block.collect construct opened bodyStart cursor =
          .error (.fatal (.unterminatedBlock construct opened)) := by
  refine ⟨?_, ?_, ?_⟩
  · intro construct opened bodyStart cursor body rest collected
    exact Block.balanced_of_collect collected
  · intro depth frame program world bodies
    constructor
    · intro balanced
      exact Execution.lines_balanced depth frame balanced bodies
    · exact Execution.lines_bodies depth frame program bodies
  · intro depth streams source construct opened halted
    have flush : Console.flush.Keeps (fun _ => True) (UnclosedIn (codeLines source)) := by
      apply Console.flush_keeps
      intro _ _ same
      cases same
    have unclosed := Script.run_halt (Execution.unclosed_invariant (codeLines source)) flush depth
      trivial (Execution.sound_unclosed (codeLines source)) halted
    exact unclosed construct opened rfl

theorem Code.ofLines_broken {line : Line} {cursor : Cursor} {before : Prelude} {halt : Halt}
    (read : Item.read line cursor = .broken before halt) :
    ofLines (line :: cursor) = .broken line before halt := by
  rw [ofLines]
  split <;> simp_all

def unclosedFunction : Text := "void f() \x7b".toList

theorem halt_unclosedFunction :
    (Script.run 0 .unlimited unclosedFunction).halt =
      some (.fatal (.unterminatedBlock .function 1)) := by
  have lines : codeLines unclosedFunction = [⟨1, unclosedFunction⟩] := by decide +kernel
  have read : Item.read ⟨1, unclosedFunction⟩ [] =
      .broken .nothing (.fatal (.unterminatedBlock .function 1)) := rfl
  rw [Script.run, Script.execute, Execution.lines, lines, Code.ofLines_broken read]
  rfl

theorem unclosed_function_at_top_level :
    Block.Balanced [⟨1, "purr 1;".toList⟩] ∧
    (∀ construct opened, (Execution.lines 9 none
        [⟨1, "if (true) \x7b purr \"\x7b\"; \x7d".toList⟩] ⟨.empty, .opened .unlimited⟩).1 ≠
      .error (.fatal (.unterminatedBlock construct opened))) ∧
    ∃ header cursor bodyStart, Taken (codeLines unclosedFunction) header cursor ∧
      header.Opens .function bodyStart ∧ header.number = 1 ∧
      Block.collect .function 1 bodyStart cursor =
        .error (.fatal (.unterminatedBlock .function 1)) := by
  obtain ⟨bodies, runs, scripts⟩ := unclosed_blocks_at_top_level
  have balanced : Block.Balanced [⟨1, "if (true) \x7b purr \"\x7b\"; \x7d".toList⟩] := by
    unfold Block.Balanced
    decide
  refine ⟨?_, ?_, ?_⟩
  · exact bodies .function 1 "purr 1; \x7d purr 2;".toList [] _ [⟨1, "purr 2;".toList⟩] rfl
  · exact (runs 9 none _ ⟨.empty, .opened .unlimited⟩ Scope.Bodies.empty).1 balanced
  · exact scripts 0 .unlimited unclosedFunction .function 1 halt_unclosedFunction

end Purr
