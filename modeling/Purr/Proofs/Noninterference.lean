import Purr.Proofs.Simulation

/-!
# Diagnostics do not interfere

What the diagnostics stream does with a diagnostic, and whether it takes it at all, is seen by
nothing else: neither by the output, nor by the scope, nor by how a line or a run ends. Whatever a
stream decides by, its answers along one run are a sequence; so two streams are two sequences of
answers.
-/

namespace Purr

set_option autoImplicit false

/-- The consoles differ in their diagnostics only: in what the stream answers and in what was tried
and reported. -/
structure Console.SameOutput (console other : Console) : Prop where
  streams : ∃ accepts, other.streams = { console.streams with acceptsDiagnostic := accepts }
  writes : other.writes = console.writes

namespace Console

theorem SameOutput.output_eq {console other : Console} (same : SameOutput console other) :
    console.output = other.output := by
  rw [output, output, same.writes]

theorem SameOutput.accepts_eq {console other : Console} (same : SameOutput console other)
    (text : Text) : other.accepts text = console.accepts text := by
  obtain ⟨accepting, streams⟩ := same.streams
  rw [Console.accepts, Console.accepts, held, held, same.output_eq, streams]

theorem report_sameOutput (line : Nat) (fault : Fault) :
    (report line fault).Simulates SameOutput Run.never (report line fault) := by
  apply Run.Simulates.modify
  · intro console other same
    exact ⟨same.streams, by simpa using same.writes⟩
  · intro _ _ _ departed
    exact departed

theorem write_sameOutput (text : Text) :
    (write text).Simulates SameOutput Run.never (write text) where
  together := by
    intro console other same
    left
    unfold write
    rw [same.accepts_eq]
    split
    next => exact ⟨rfl, same⟩
    next =>
      split
      next => exact ⟨rfl, same.streams, congrArg (text :: ·) same.writes⟩
      next => exact ⟨rfl, same⟩
  onward _ _ _ departed := departed

theorem flush_sameOutput : flush.Simulates SameOutput Run.never flush where
  together := by
    intro console other same
    obtain ⟨accepting, streams⟩ := same.streams
    left
    unfold flush
    rw [streams]
    split
    next => exact ⟨rfl, same⟩
    next => exact ⟨rfl, same⟩
  onward _ _ _ departed := departed

theorem sameOutput_parallel : Execution.Parallel SameOutput Run.never :=
  ⟨report_sameOutput, write_sameOutput⟩

theorem SameOutput.opened (streams : Streams) (accepts : Nat → Bool) :
    SameOutput (.opened streams) (.opened { streams with acceptsDiagnostic := accepts }) :=
  ⟨⟨accepts, rfl⟩, rfl⟩

end Console

namespace Execution

abbrev Undisturbed (world other : World) : Prop :=
  Abreast anyFunction Console.SameOutput world other

theorem Walk.beside {depth : Nat} {frame : Option Function} {cursor : Cursor}
    {world other final : World} {taken : List (Line × Cursor)} {ending : Except Halt Flow}
    (walk : Walk depth frame cursor world taken ending final)
    (undisturbed : Undisturbed world other) :
    ∃ after, Walk depth frame cursor other taken ending after ∧ Undisturbed final after := by
  rcases walk.simulates Console.sameOutput_parallel undisturbed with
    beside | ⟨_, _, _, _, _, _, departed⟩
  · exact beside
  · exact absurd departed (not_apart_never _ _ _)

end Execution

theorem Script.run_undisturbed (depth : Nat) (streams : Streams) (accepts : Nat → Bool)
    (source : Text) :
    (run depth streams source).output =
      (run depth { streams with acceptsDiagnostic := accepts } source).output ∧
    (run depth streams source).halt =
      (run depth { streams with acceptsDiagnostic := accepts } source).halt := by
  have simulates := execute_simulates Console.sameOutput_parallel Console.flush_sameOutput depth
    source
  have start : Execution.Undisturbed ⟨.empty, .opened streams⟩
      ⟨.empty, .opened { streams with acceptsDiagnostic := accepts }⟩ :=
    ⟨rfl, fun _ _ _ => trivial, Console.SameOutput.opened streams accepts⟩
  have ⟨same, beside⟩ := simulates.result_eq Execution.not_apart_never start
  rw [run_eq, run_eq, Transcript.output_ofResult, Transcript.output_ofResult, ← same]
  exact ⟨beside.console.output_eq, Transcript.halt_ofResult _ _ _⟩

/-- The output stream takes everything, and both streams flush. -/
structure Console.Sturdy (console : Console) : Prop where
  limit : console.streams.outputLimit = none
  outputFlushes : console.streams.outputFlushes = true
  diagnosticsFlush : console.streams.diagnosticsFlush = true

def Halt.NoStream (halt : Halt) : Prop := ∀ failure, halt ≠ .fatal (.output failure)

theorem Halt.Unclosed.noStream {halt : Halt} (unclosed : halt.Unclosed) : halt.NoStream := by
  obtain ⟨construct, opened, rfl⟩ := unclosed
  intro failure
  simp

namespace Console

theorem write_sturdy (text : Text) : (write text).Keeps Sturdy Halt.NoStream := by
  intro console sturdy
  have room : console.accepts text = true := by rw [accepts, sturdy.limit]
  unfold write
  rw [if_pos room]
  split
  next => exact ⟨sturdy, nofun⟩
  next => exact ⟨⟨sturdy.limit, sturdy.outputFlushes, sturdy.diagnosticsFlush⟩, nofun⟩

theorem flush_sturdy : flush.Keeps Sturdy Halt.NoStream := by
  intro console sturdy
  rw [flush, sturdy.outputFlushes, sturdy.diagnosticsFlush]
  exact ⟨sturdy, nofun⟩

end Console

theorem Execution.sturdy_invariant :
    Invariant .any anyFunction Console.Sturdy Halt.NoStream where
  report line fault _ _ := .modify fun _ sturdy =>
    ⟨sturdy.limit, sturdy.outputFlushes, sturdy.diagnosticsFlush⟩
  write := Console.write_sturdy
  tooDeep := by simp [Halt.NoStream]
  body function _ := (Code.sound_any function.body).mono fun _ => Halt.Unclosed.noStream
  name _ _ := trivial

/-- Where the output stream takes everything and both streams flush, a script never ends with an
error of a stream, however the diagnostics stream answers. -/
theorem Script.output_never_fails (depth : Nat) (accepts : Nat → Bool) (source : Text)
    (failure : StreamFailure) :
    (run depth ⟨none, accepts, true, true⟩ source).halt ≠ some (.fatal (.output failure)) := by
  intro halted
  have sound := (Code.sound_any (codeLines source)).mono fun _ => Halt.Unclosed.noStream
  have opened : Console.Sturdy (.opened ⟨none, accepts, true, true⟩) := ⟨rfl, rfl, rfl⟩
  exact run_halt Execution.sturdy_invariant Console.flush_sturdy depth opened sound halted failure
    rfl

/-- Diagnostics never influence execution. Two runs whose diagnostics streams differ take the same
lines and end in the same way, with the same scope and the same output; so do two runs of a whole
script. In particular no diagnostic makes a script end with an error of a stream. -/
theorem diagnostics_never_interfere (depth : Nat) (frame : Option Function) (source : Text)
    (scope : Scope) (streams : Streams) (accepts : Nat → Bool) :
    (∃ taken ending first second,
      Execution.Walk depth frame (codeLines source) ⟨scope, .opened streams⟩ taken ending first ∧
      Execution.Walk depth frame (codeLines source)
        ⟨scope, .opened { streams with acceptsDiagnostic := accepts }⟩ taken ending second ∧
      first.scope = second.scope ∧ first.console.output = second.console.output) ∧
    (Script.run depth streams source).output =
      (Script.run depth { streams with acceptsDiagnostic := accepts } source).output ∧
    (Script.run depth streams source).halt =
      (Script.run depth { streams with acceptsDiagnostic := accepts } source).halt ∧
    ∀ failure, (Script.run depth ⟨none, accepts, true, true⟩ source).halt ≠
      some (.fatal (.output failure)) := by
  have start : Execution.Undisturbed ⟨scope, .opened streams⟩
      ⟨scope, .opened { streams with acceptsDiagnostic := accepts }⟩ :=
    ⟨rfl, fun _ _ _ => trivial, Console.SameOutput.opened streams accepts⟩
  obtain ⟨taken, ending, first, walk⟩ :=
    Execution.exists_walk depth frame (codeLines source) ⟨scope, .opened streams⟩
  obtain ⟨second, other, beside⟩ := walk.beside start
  have ⟨output, halt⟩ := Script.run_undisturbed depth streams accepts source
  exact ⟨⟨taken, ending, first, second, walk, other, beside.scope, beside.console.output_eq⟩,
    output, halt, Script.output_never_fails depth accepts source⟩

end Purr
