import Purr.Proofs.Simulation

/-!
# A limit for the output

A script is run twice, once with an output stream that takes everything and once with one that
holds at most a number of bytes. The runs are the same until a text does not fit. That text is
refused as a whole and the second run ends there, be it in a call made from within an expression; so
what it has written and reported is what the first run did before that text.
-/

namespace Purr

set_option autoImplicit false

def Streams.limited (streams : Streams) (limit : Option Nat) : Streams :=
  { streams with outputLimit := limit }

namespace Console

theorem held_add_wrote (console : Console) (text : Text) :
    (console.add (.wrote text)).held = console.held + text.byteLength := by
  simp only [held, output, writes_add_wrote, List.reverse_cons, List.flatten_append,
    List.flatten_singleton, Text.byteLength_append]

theorem writes_eq_log (console : Console) :
    console.writes.reverse = console.log.reverse.filterMap Event.text? :=
  List.filterMap_reverse.symm

theorem reports_eq_log (console : Console) :
    console.reports.reverse = console.log.reverse.filterMap Event.report? :=
  List.filterMap_reverse.symm

def limitedTo (limit : Nat) (console : Console) : Console :=
  { console with streams := console.streams.limited (some limit) }

/-- The console takes every text, and holds none that is empty. -/
structure Free (console : Console) : Prop where
  unlimited : console.streams.outputLimit = none
  texts : ∀ text ∈ console.writes, text ≠ []

/-- What the first console holds is within the limit of the second, which is the same otherwise. -/
structure Within (limit : Nat) (console other : Console) : Prop where
  free : console.Free
  same : other = console.limitedTo limit
  held : console.held ≤ limit

/-- The second console has refused a text that the first one has taken. Up to there the same has
been done to both; what was done to the first one later is not known. -/
structure Refused (limit : Nat) (reason : Halt) (console other : Console) : Prop where
  free : console.Free
  full : reason = .fatal (.output .full)
  held : other.held ≤ limit
  first : ∃ text later, console.log = later ++ .wrote text :: other.log ∧
    limit < other.held + text.byteLength

variable {limit : Nat}

theorem Free.accepts {console : Console} (free : console.Free) (text : Text) :
    console.accepts text = true := by
  rw [Console.accepts, free.unlimited]

theorem accepts_limitedTo (console : Console) (text : Text) :
    (console.limitedTo limit).accepts text = decide (console.held + text.byteLength ≤ limit) := rfl

theorem Free.reported {console : Console} (free : console.Free) (line : Nat) (fault : Fault) :
    (report line fault console).2.Free where
  unlimited := free.unlimited
  texts := by
    intro text member
    apply free.texts text
    rwa [← console.writes_add_attempt line fault]

theorem Free.wrote {console : Console} (free : console.Free) {text : Text} (written : text ≠ []) :
    (console.add (.wrote text)).Free where
  unlimited := free.unlimited
  texts := by
    intro other member
    rcases List.mem_cons.1 member with rfl | member
    · exact written
    · exact free.texts other member

theorem Free.write {console : Console} (free : console.Free) {text : Text} (written : text ≠ []) :
    write text console = (.ok (), console.add (.wrote text)) := by
  rw [Console.write, if_neg (by simpa using written), if_pos (free.accepts text)]

theorem Refused.add {reason : Halt} {console other : Console}
    (refused : Refused limit reason console other) {event : Event}
    (free : (console.add event).Free) : Refused limit reason (console.add event) other := by
  obtain ⟨text, later, log, tooLong⟩ := refused.first
  exact ⟨free, refused.full, refused.held, text, event :: later, congrArg (event :: ·) log, tooLong⟩

theorem held_add_attempt (console : Console) (line : Nat) (fault : Fault) :
    (console.add (console.attempt line fault)).held = console.held := by
  simp only [held, output, writes_add_attempt]

theorem report_within (line : Nat) (fault : Fault) :
    (report line fault).Simulates (Within limit) (Refused limit) (report line fault) := by
  apply Run.Simulates.modify
  · rintro console _ ⟨free, rfl, held⟩
    refine ⟨free.reported line fault, rfl, ?_⟩
    rwa [held_add_attempt]
  · intro _ console _ refused
    exact refused.add (refused.free.reported line fault)

/-- A write is where the consoles part: if the text does not fit. -/
theorem write_within (text : Text) :
    (write text).Simulates (Within limit) (Refused limit) (write text) where
  together := by
    rintro console _ ⟨free, rfl, held⟩
    by_cases empty : text = []
    · subst empty
      exact .inl ⟨rfl, free, rfl, held⟩
    · rw [free.write empty, write, if_neg (by simpa using empty), accepts_limitedTo]
      by_cases fits : console.held + text.byteLength ≤ limit
      · rw [if_pos (decide_eq_true fits)]
        refine .inl ⟨rfl, free.wrote empty, rfl, ?_⟩
        rw [held_add_wrote]
        exact fits
      · rw [if_neg (by simpa using fits)]
        exact .inr ⟨.fatal (.output .full), rfl, free.wrote empty, rfl, held, text, [], rfl,
          Nat.lt_of_not_le fits⟩
  onward := by
    intro reason console other refused
    by_cases empty : text = []
    · subst empty
      exact refused
    · rw [refused.free.write empty]
      exact refused.add (refused.free.wrote empty)

theorem flush_apply (console : Console) :
    flush console =
      (if console.streams.outputFlushes && console.streams.diagnosticsFlush then .ok ()
        else .error (.fatal (.output .notFlushed)), console) := by
  rw [flush]
  split <;> rfl

theorem Within.flush {console other : Console} (within : Within limit console other) :
    (flush console).1 = (flush other).1 ∧ Within limit (flush console).2 (flush other).2 := by
  obtain ⟨free, rfl, held⟩ := within
  rw [flush_apply, flush_apply]
  exact ⟨rfl, free, rfl, held⟩

theorem Refused.flush {reason : Halt} {console other : Console}
    (refused : Refused limit reason console other) :
    Refused limit reason (Console.flush console).2 other := by
  rw [flush_apply]
  exact refused

theorem within_parallel : Execution.Parallel (Within limit) (Refused limit) :=
  ⟨report_within, write_within⟩

theorem Within.opened (streams : Streams) :
    Within limit (.opened (streams.limited none)) (.opened (streams.limited (some limit))) :=
  ⟨⟨rfl, nofun⟩, rfl, Nat.zero_le _⟩

theorem Within.output_eq {console other : Console} (within : Within limit console other) :
    other.output = console.output := by
  obtain ⟨_, rfl, _⟩ := within
  rfl

theorem Within.log_eq {console other : Console} (within : Within limit console other) :
    other.log = console.log := by
  obtain ⟨_, rfl, _⟩ := within
  rfl

theorem Within.ofResult_eq {α : Type} {console other : Console}
    (within : Within limit console other) (result : Except Halt α) :
    Transcript.ofResult result other = Transcript.ofResult result console := by
  obtain ⟨_, rfl, _⟩ := within
  cases result <;> rfl

theorem Free.writes_ne_nil {console : Console} (free : console.Free) :
    ∀ text ∈ console.writes.reverse, text ≠ [] :=
  fun text member => free.texts text (List.mem_reverse.1 member)

/-- What has been done to the second console was done to the first one before it took the text that
the second one refused. -/
theorem Refused.log_eq {reason : Halt} {console other : Console}
    (refused : Refused limit reason console other) :
    ∃ text later, console.log.reverse = other.log.reverse ++ .wrote text :: later ∧
      limit < other.held + text.byteLength := by
  obtain ⟨text, later, log, tooLong⟩ := refused.first
  refine ⟨text, later.reverse, ?_, tooLong⟩
  simp [log]

theorem Refused.output_eq {reason : Halt} {console other : Console}
    (refused : Refused limit reason console other) :
    ∃ count < console.writes.reverse.length,
      other.output = (console.writes.reverse.take count).flatten ∧
      other.output.byteLength ≤ limit ∧
      limit < Text.byteLength (console.writes.reverse.take (count + 1)).flatten ∧
      ∃ text later, console.writes.reverse[count]? = some text ∧
        console.log.reverse = other.log.reverse ++ .wrote text :: later := by
  obtain ⟨text, later, log, tooLong⟩ := refused.log_eq
  have texts : console.writes.reverse =
      other.writes.reverse ++ text :: later.filterMap Event.text? := by
    rw [writes_eq_log, log, List.filterMap_append, ← writes_eq_log]
    rfl
  refine ⟨other.writes.reverse.length, ?_, ?_, refused.held, ?_, text, later, ?_, log⟩
  · simp [texts]
  · rw [texts, List.take_left]
    rfl
  · rw [texts, List.take_length_add_append, List.flatten_append, Text.byteLength_append]
    simpa [Console.held, Console.output] using tooLong
  · simp [texts]

theorem Refused.diagnostics_prefix {reason : Halt} {console other : Console}
    (refused : Refused limit reason console other) :
    other.diagnostics <+: console.diagnostics := by
  obtain ⟨text, later, log, _⟩ := refused.log_eq
  rw [diagnostics, diagnostics, reports_eq_log console, log, List.filterMap_append,
    ← reports_eq_log, List.map_append, List.flatten_append]
  exact List.prefix_append _ _

end Console

namespace Script

abbrev start (streams : Streams) (limit : Option Nat) : World :=
  ⟨.empty, .opened (streams.limited limit)⟩

/-- The texts that a script writes where its output is not limited, first to last. -/
def writes (depth : Nat) (streams : Streams) (source : Text) : List Text :=
  (execute depth source (start streams none)).2.console.writes.reverse

/-- What a script does to its streams, first to last. -/
def events (depth : Nat) (streams : Streams) (source : Text) : List Event :=
  (execute depth source ⟨.empty, .opened streams⟩).2.console.log.reverse

def finalScope (depth : Nat) (streams : Streams) (source : Text) : Scope :=
  (execute depth source ⟨.empty, .opened streams⟩).2.scope

theorem start_within (limit : Nat) (streams : Streams) :
    Execution.Abreast Execution.anyFunction (Console.Within limit) (start streams none)
      (start streams (some limit)) :=
  ⟨rfl, fun _ _ _ => trivial, .opened streams⟩

theorem execute_of_walk {depth : Nat} {source : Text} {world final : World}
    {taken : List (Line × Cursor)} {ending : Except Halt Flow}
    (walk : Execution.Walk depth none (codeLines source) world taken ending final) :
    execute depth source world =
      match ending with
      | .ok _ => World.evaluate (fun _ => Console.flush) final
      | .error reason => (.error reason, final) := by
  rw [execute, Run.bind_apply, walk.lines_eq]
  cases ending <;> rfl

/-- The run with a limit ended because of it: at one of the lines that the run without a limit
took, and before all the lines that it took later. -/
def CutShort (depth limit : Nat) (streams : Streams) (source : Text) : Prop :=
  ∃ taken later ending final cut,
    Execution.Walk depth none (codeLines source) (start streams none) (taken ++ later) ending
      final ∧
    Execution.Walk depth none (codeLines source) (start streams (some limit)) taken
      (.error (.fatal (.output .full))) cut

/-- A run without a limit and one with it go side by side to the end, flush included, or the second
one is cut short. -/
theorem execute_within (depth limit : Nat) (streams : Streams) (source : Text) :
    (execute depth source (start streams none)).1 =
        (execute depth source (start streams (some limit))).1 ∧
      Execution.Abreast Execution.anyFunction (Console.Within limit)
        (execute depth source (start streams none)).2
        (execute depth source (start streams (some limit))).2 ∨
    CutShort depth limit streams source ∧
      (execute depth source (start streams (some limit))).1 = .error (.fatal (.output .full)) ∧
      ∃ reason, Console.Refused limit reason (execute depth source (start streams none)).2.console
        (execute depth source (start streams (some limit))).2.console := by
  obtain ⟨taken, ending, final, walk⟩ :=
    Execution.exists_walk depth none (codeLines source) (start streams none)
  rw [execute_of_walk walk]
  rcases walk.simulates Console.within_parallel (start_within limit streams) with
    ⟨cut, walked, abreast⟩ | ⟨earlier, later, reason, cut, rfl, walked, apart⟩
  · rw [execute_of_walk walked]
    left
    cases ending with
    | error reason => exact ⟨rfl, abreast⟩
    | ok flow =>
        obtain ⟨same, within⟩ := abreast.console.flush
        exact ⟨same, abreast.scope, abreast.functions, within⟩
  · rw [execute_of_walk walked]
    right
    obtain rfl := apart.console.full
    refine ⟨⟨earlier, later, ending, final, cut, walk, walked⟩, rfl,
      .fatal (.output .full), ?_⟩
    cases ending with
    | error reason => exact apart.console
    | ok flow => exact apart.console.flush

theorem run_eq_events (depth : Nat) (streams : Streams) (source : Text) :
    (run depth streams source).output =
      ((events depth streams source).filterMap Event.text?).flatten ∧
    (run depth streams source).diagnostics =
      (((events depth streams source).filterMap Event.report?).map fun report =>
        report.message ++ ['\n']).flatten := by
  rw [run_eq, Transcript.output_ofResult, Transcript.diagnostics_ofResult, events,
    ← Console.writes_eq_log, ← Console.reports_eq_log]
  exact ⟨rfl, rfl⟩

/-- A limit for the output cuts it off after as many texts as fit. Either all of them do and the
runs are the same, or the run with the limit ends with an error where the first text does not
fit: it has done what the other run did before it wrote that text, and nothing else. -/
theorem output_cut_at_limit (depth limit : Nat) (streams : Streams) (source : Text) :
    (∀ text ∈ writes depth streams source, text ≠ []) ∧
    (run depth (streams.limited none) source).output = (writes depth streams source).flatten ∧
    (∀ most,
      (run depth (streams.limited most) source).output =
        ((events depth (streams.limited most) source).filterMap Event.text?).flatten ∧
      (run depth (streams.limited most) source).diagnostics =
        (((events depth (streams.limited most) source).filterMap Event.report?).map fun report =>
          report.message ++ ['\n']).flatten) ∧
    ∃ count ≤ (writes depth streams source).length,
      (run depth (streams.limited (some limit)) source).output =
        ((writes depth streams source).take count).flatten ∧
      Text.byteLength ((writes depth streams source).take count).flatten ≤ limit ∧
      (count = (writes depth streams source).length ∧
          run depth (streams.limited (some limit)) source =
            run depth (streams.limited none) source ∧
          finalScope depth (streams.limited (some limit)) source =
            finalScope depth (streams.limited none) source ∧
          events depth (streams.limited (some limit)) source =
            events depth (streams.limited none) source ∨
        count < (writes depth streams source).length ∧
          limit < Text.byteLength ((writes depth streams source).take (count + 1)).flatten ∧
          (run depth (streams.limited (some limit)) source).halt =
            some (.fatal (.output .full)) ∧
          (∃ refused later, (writes depth streams source)[count]? = some refused ∧
            events depth (streams.limited none) source =
              events depth (streams.limited (some limit)) source ++ .wrote refused :: later) ∧
          (run depth (streams.limited (some limit)) source).diagnostics <+:
            (run depth (streams.limited none) source).diagnostics ∧
          CutShort depth limit streams source) := by
  have ran := execute_within depth limit streams source
  have held := fun most => run_eq_events depth (streams.limited most) source
  rw [run_eq, run_eq, Transcript.output_ofResult, Transcript.output_ofResult, writes, finalScope,
    finalScope, events, events]
  generalize execute depth source (start streams none) = free at ran ⊢
  generalize execute depth source (start streams (some limit)) = cut at ran ⊢
  obtain ⟨result, world⟩ := free
  obtain ⟨ending, stopped⟩ := cut
  dsimp only at ran ⊢
  rcases ran with ⟨rfl, scope, _, within⟩ | ⟨short, rfl, reason, refused⟩
  · refine ⟨within.free.writes_ne_nil, rfl, held, _, Nat.le_refl _, ?_, ?_,
      .inl ⟨rfl, ?_, scope.symm, ?_⟩⟩
    · rw [List.take_length]
      exact within.output_eq
    · rw [List.take_length]
      exact within.held
    · exact within.ofResult_eq result
    · exact congrArg List.reverse within.log_eq
  · obtain ⟨count, lost, output, fits, tooLong, text, later, stands, log⟩ := refused.output_eq
    refine ⟨refused.free.writes_ne_nil, rfl, held, count, Nat.le_of_lt lost, output,
      output ▸ fits, .inr ⟨lost, tooLong, rfl, ⟨text, later, stands, log⟩, ?_, short⟩⟩
    rw [Transcript.diagnostics_ofResult, Transcript.diagnostics_ofResult]
    exact refused.diagnostics_prefix

end Script

end Purr
