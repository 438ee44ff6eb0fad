import Purr.Proofs.Heredity
import Purr.Proofs.LineByLine

/-!
# Where lines come from

A line is cut, pushed back, kept in a body and read anew by every call, and all the while it stays
part of the line of the script whose number it has. `Line.From` says so, and every way of making a
line from another keeps it. So whatever a run executes and reports is of some line of the script,
and the diagnostics are messages of one line each.
-/

namespace Purr

set_option autoImplicit false

namespace Text

theorem trimStart_of_prefix {part text : Text} (begins : part <+: text.trimStart) :
    part.trimStart = part := by
  cases part with
  | nil => rfl
  | cons c rest =>
      obtain ⟨more, same⟩ := begins
      have first : (c :: rest ++ more).head?.all fun c => !isBlank c := by
        rw [same]
        have head := List.head?_dropWhile_not isBlank text
        unfold trimStart
        split at head
        next found => simp [found, head]
        next none => simp [none]
      exact List.dropWhile_cons_of_neg (by simpa using first)

theorem isPrefix_trimEnd (text : Text) : text.trimEnd <+: text := by
  have suffix := List.dropWhile_suffix (l := text.reverse) isBlank
  exact List.reverse_suffix.1 (by rwa [trimEnd, List.reverse_reverse])

theorem trim_trim (text : Text) : text.trim.trim = text.trim := by
  have start : text.trim.trimStart = text.trim :=
    trimStart_of_prefix (isPrefix_trimEnd text.trimStart)
  rw [trim, start, trim, trimEnd, trimEnd, List.reverse_reverse,
    trimStart_of_prefix (List.prefix_refl _)]

end Text

/-- The line is a part of a line of a script and has its number; it is trimmed and not blank. -/
structure Line.From (source : Text) (line : Line) : Prop where
  origin : ∃ origin ∈ codeLines source, origin.number = line.number ∧ line.text <:+: origin.text
  trimmed : line.text.trim = line.text
  nonblank : line.text.trim ≠ []

def Cursor.From (source : Text) (cursor : Cursor) : Prop := ∀ line ∈ cursor, line.From source

variable {source : Text}

theorem Line.trim_of_trimmed? {number : Nat} {text : Text} {line : Line}
    (kept : trimmed? number text = some line) :
    line.text.trim = line.text ∧ line.text.trim ≠ [] := by
  obtain ⟨rfl, nonblank⟩ := of_trimmed? kept
  refine ⟨Text.trim_trim text, ?_⟩
  rw [Text.trim_trim]
  exact nonblank

theorem codeLines_from (source : Text) : Cursor.From source (codeLines source) := by
  intro line member
  obtain ⟨text, _, kept⟩ := exists_of_mem_numbered member
  obtain ⟨trimmed, nonblank⟩ := Line.trim_of_trimmed? kept
  exact ⟨⟨line, member, rfl, List.infix_refl _⟩, trimmed, nonblank⟩

namespace Line.From

variable {line : Line}

theorem part (kept : line.From source) {text : Text} (within : text <:+: line.text) {other : Line}
    (made : Line.trimmed? line.number text = some other) : other.From source := by
  obtain ⟨trimmed, nonblank⟩ := Line.trim_of_trimmed? made
  obtain ⟨rfl, _⟩ := Line.of_trimmed? made
  obtain ⟨origin, member, number, inside⟩ := kept.origin
  have whole := (Text.trim_infix text).trans (within.trans inside)
  exact ⟨⟨origin, member, number, whole⟩, trimmed, nonblank⟩

theorem lineFeed_not_mem (kept : line.From source) : '\n' ∉ line.text := by
  obtain ⟨origin, member, _, inside⟩ := kept.origin
  obtain ⟨text, code, trimmed⟩ := exists_of_mem_numbered member
  obtain ⟨same, _⟩ := Line.of_trimmed? trimmed
  obtain ⟨physical, among, sublist⟩ := Comment.exists_of_mem_stripLines code
  intro found
  apply Text.lineFeed_not_mem_of_mem_lines source physical among
  apply sublist.subset
  apply (Text.trim_infix text).subset
  rw [same] at inside
  exact inside.subset found

end Line.From

theorem Line.from_inherited (source : Text) : Inherited (Line.From source) :=
  fun _ _ _ kept within made => kept.part within made

/-- What a run of a script may report: something for one of its lines, of which a message shows no
line feed. -/
def Reports.ofSource (source : Text) : Reports where
  lines number := ∃ line ∈ codeLines source, line.number = number
  faults fault := '\n' ∉ fault.shown
  names _ := True

/-- A block that is not closed is one of a header on a line of the script. -/
def UnclosedOnLine (source : Text) (halt : Halt) : Prop :=
  ∀ construct number, halt = .fatal (.unterminatedBlock construct number) →
    ∃ line ∈ codeLines source, line.number = number

structure Function.From (source : Text) (function : Function) : Prop where
  body : Cursor.From source function.body
  name : '\n' ∉ function.header.name

namespace Line.From

variable {line : Line}

theorem onLine (kept : line.From source) : (Reports.ofSource source).lines line.number := by
  obtain ⟨origin, member, number, _⟩ := kept.origin
  exact ⟨origin, member, number⟩

theorem covers (kept : line.From source) {tokens : List Token}
    (plain : ∀ token ∈ tokens, '\n' ∉ token.shown) :
    (Reports.ofSource source).Covers line.number tokens where
  line := kept.onLine
  names _ _ := trivial
  «variable» name member := plain (.name name) member
  function name member := plain (.name name) member
  malformed fault among := by
    cases fault with
    | invalid text => exact among.elim
    | unexpected token | inArguments token | afterEnd token => exact plain token among
    | notACall | unexpectedEnd | unclosed => exact List.not_mem_nil

theorem allows (kept : line.From source) : (Reports.ofSource source).Allows line where
  onLine := kept.onLine
  outside := List.not_mem_nil
  stray := List.not_mem_nil
  command := kept.lineFeed_not_mem
  malformed part stuck := fun found => kept.lineFeed_not_mem (stuck.isInfix.subset found)
  fragment found fragment cut inner := by
    have plain := cut.lineFeed_not_mem_shown kept.lineFeed_not_mem
    refine ⟨inner.placed, ?_, ?_⟩
    · rw [inner.line]
      exact kept.covers fun token member => plain token (inner.tokens member)
    · exact fun shown => kept.lineFeed_not_mem (inner.source.subset shown)
  declared found name cut member := by
    have plain := cut.lineFeed_not_mem_shown kept.lineFeed_not_mem (.name name) member
    exact ⟨trivial, plain, plain, fun _ _ => plain⟩

theorem function (kept : line.From source) {header : Header} {bodyStart : Text} {body : List Line}
    (recognized : Statement.ofLine line = .ok (.function header bodyStart))
    (bodyFrom : Cursor.From source body) : Function.From source ⟨header, body, line.number⟩ := by
  obtain ⟨found, cut, placed⟩ := Statement.ofLine_ok_placed recognized
  have named := placed.names header.name List.mem_cons_self
  exact ⟨bodyFrom, cut.lineFeed_not_mem_shown kept.lineFeed_not_mem _ named⟩

end Line.From

theorem Line.from_heredity (source : Text) :
    Heredity (.ofSource source) (Function.From source) (UnclosedOnLine source)
      (Line.From source) where
  inherited := from_inherited source
  allows _ kept := kept.allows
  function _ _ _ _ kept recognized body := kept.function recognized body
  unclosed line construct kept := by
    rintro _ _ ⟨⟩
    exact kept.onLine

theorem Cursor.From.code {lines : List Line} (kept : Cursor.From source lines) :
    (Code.ofLines lines).Sound (.ofSource source) (Function.From source) (UnclosedOnLine source) :=
  (Line.from_heredity source).code kept

def Console.From (source : Text) (console : Console) : Prop :=
  ∀ report ∈ console.reports,
    (Reports.ofSource source).lines report.line ∧ (Reports.ofSource source).faults report.fault

theorem Console.report_from {allowed : Halt → Prop} {line : Nat} {fault : Fault}
    (onLine : (Reports.ofSource source).lines line)
    (plain : (Reports.ofSource source).faults fault) :
    (Console.report line fault).Keeps (Console.From source) allowed := by
  apply Run.Keeps.modify
  intro console kept report member
  rw [reports_add_attempt] at member
  split at member
  next =>
    rcases List.mem_cons.1 member with rfl | earlier
    · exact ⟨onLine, plain⟩
    · exact kept report earlier
  next => exact kept report member

namespace Execution

/-- Provenance is an invariant of execution, with any property of the console that reports and
writes keep. -/
theorem from_invariant (source : Text) {steady : Console → Prop}
    (report : ∀ line fault, (Reports.ofSource source).lines line →
      (Reports.ofSource source).faults fault →
      (Console.report line fault).Keeps steady (UnclosedOnLine source))
    (wrote : ∀ console text, steady console → steady (console.add (.wrote text))) :
    Invariant (.ofSource source) (Function.From source) steady (UnclosedOnLine source) where
  report := report
  write := Console.write_keeps wrote nofun
  tooDeep := nofun
  body _ kept := kept.body.code
  name _ kept := kept.name

end Execution

/-- The cursors that reading a cursor leads to: what is left when a line is taken, and, if the line
is a header, what its block is collected from, the block, and what is left after it. -/
inductive Leads : Cursor → Cursor → Prop
  | start (cursor : Cursor) : Leads cursor cursor
  | taken {cursor rest : Cursor} {line : Line} : Leads cursor (line :: rest) → Leads cursor rest
  | opened {cursor rest : Cursor} {line : Line} {construct : Construct} {bodyStart : Text} :
      Leads cursor (line :: rest) → line.Opens construct bodyStart →
      Leads cursor (Cursor.push? (Line.trimmed? line.number bodyStart) rest)
  | block {cursor rest body after : Cursor} {line : Line} {construct : Construct}
      {bodyStart : Text} : Leads cursor (line :: rest) → line.Opens construct bodyStart →
      Block.collect construct line.number bodyStart rest = .ok (body, after) → Leads cursor body
  | after {cursor rest body after : Cursor} {line : Line} {construct : Construct}
      {bodyStart : Text} : Leads cursor (line :: rest) → line.Opens construct bodyStart →
      Block.collect construct line.number bodyStart rest = .ok (body, after) → Leads cursor after

theorem Leads.inherited {kept : Line → Prop} {cursor pending : Cursor}
    (leads : Leads cursor pending) (inherited : Line.InheritedByPieces kept)
    (all : ∀ line ∈ cursor, kept line) : ∀ line ∈ pending, kept line := by
  induction leads with
  | start => exact all
  | taken _ ih => exact (List.forall_mem_cons.1 ih).2
  | opened _ opens ih =>
      obtain ⟨first, later⟩ := List.forall_mem_cons.1 ih
      exact inherited.push? first later opens.piece
  | block _ opens collected ih => exact (inherited.collect ih opens collected).1
  | after _ opens collected ih => exact (inherited.collect ih opens collected).2

theorem Leads.kept {cursor pending : Cursor} (leads : Leads cursor pending)
    (kept : Cursor.From source cursor) : Cursor.From source pending :=
  leads.inherited (Line.from_inherited source).byPieces kept

namespace Execution

/-- The states that a run of a script reaches between two lines: how deep calls may still nest, the
function that the lines belong to, the lines still to be executed, and the world. A line may call
any function that its scope knows; the values that are passed and what the line has written by then
are left open. -/
inductive Reached (depth : Nat) (streams : Streams) (source : Text) :
    Nat → Option Function → Cursor → World → Prop
  | start : Reached depth streams source depth none (codeLines source) ⟨.empty, .opened streams⟩
  | next {inner : Nat} {frame : Option Function} {first : Line} {cursor rest : Cursor}
      {world after : World} : Reached depth streams source inner frame (first :: cursor) world →
      line inner frame first cursor world = (.ok (.proceed, rest), after) →
      Reached depth streams source inner frame rest after
  | block {inner : Nat} {frame : Option Function} {first : Line} {cursor rest : Cursor}
      {condition : Fragment} {yes no : List Line} {holds : Bool} {world after : World} :
      Reached depth streams source inner frame (first :: cursor) world →
      Item.read first cursor = .branch condition yes no rest →
      World.evaluate (fun scope => Evaluation.condition (invoke inner) scope condition) world =
        (.ok holds, after) →
      Reached depth streams source inner frame (if holds then yes else no) after
  | call {inner : Nat} {frame : Option Function} {first : Line} {cursor : Cursor} {world : World}
      {name : Text} {function : Function} (values : List Value) (console : Console) :
      Reached depth streams source (inner + 1) frame (first :: cursor) world →
      world.scope.functions.find? name = some function →
      Reached depth streams source inner (some function) function.body
        ⟨world.scope.withArguments function.header.parameters values, console⟩

section

variable {reports : Reports} {good : Function → Prop} {allowed : Halt → Prop}
  {kept : Cursor → Prop}

theorem line_handed (heredity : Cursor.Heredity reports good allowed kept)
    (invariant : Invariant reports good (fun _ => True) allowed) {depth : Nat}
    {frame : Option Function} {first : Line} {cursor rest : Cursor} {world after : World}
    {flow : Flow} (start : kept (first :: cursor))
    (framed : ∀ function, frame = some function → good function)
    (functions : world.scope.Functions good)
    (executed : line depth frame first cursor world = (.ok (flow, rest), after)) :
    kept rest ∧ after.scope.Functions good := by
  obtain ⟨left, ran⟩ := of_line_ok executed
  have sound := heredity.sound start
  have program := sound.alone fun _ lines => heredity.code lines
  have named : Framed reports frame := fun function same =>
    invariant.name function (framed function same)
  have ⟨settled, _⟩ := code_keeps invariant (invoke_obeys invariant depth) named program world
    ⟨functions, trivial⟩
  rw [ran] at settled
  exact ⟨sound.rest left, settled.functions⟩

/-- In every state that is reached the lines still to be executed and all functions have the
properties that are handed on: one case for each way to go on. -/
theorem Reached.handed (heredity : Cursor.Heredity reports good allowed kept)
    (invariant : Invariant reports good (fun _ => True) allowed)
    (body : ∀ function, good function → kept function.body) (start : kept (codeLines source))
    {depth inner : Nat} {streams : Streams} {frame : Option Function} {cursor : Cursor}
    {world : World} (reached : Reached depth streams source inner frame cursor world) :
    kept cursor ∧ (∀ function, frame = some function → good function) ∧
      world.scope.Functions good := by
  induction reached with
  | start => exact ⟨start, nofun, .empty⟩
  | next _ executed ih =>
      obtain ⟨lines, framed, functions⟩ := ih
      obtain ⟨rest, after⟩ := line_handed heredity invariant lines framed functions executed
      exact ⟨rest, framed, after⟩
  | @block inner frame first cursor rest condition yes no holds world after _ read evaluated ih =>
      obtain ⟨lines, framed, functions⟩ := ih
      have sound := heredity.sound lines
      rw [read] at sound
      obtain ⟨_, yesKept, noKept, _⟩ := sound
      have same : after.scope = world.scope :=
        congrArg (fun executed => executed.2.scope) evaluated.symm
      rw [same]
      refine ⟨?_, framed, functions⟩
      cases holds with
      | true => exact yesKept
      | false => exact noKept
  | call values console _ found ih =>
      obtain ⟨_, _, functions⟩ := ih
      have called := functions _ _ found
      refine ⟨body _ called, ?_, functions.withArguments _ values⟩
      rintro _ ⟨⟩
      exact called

end

theorem Reached.inherited {kept : Line → Prop} (inherited : Line.InheritedByPieces kept)
    (start : ∀ line ∈ codeLines source, kept line) {depth inner : Nat} {streams : Streams}
    {frame : Option Function} {cursor : Cursor} {world : World}
    (reached : Reached depth streams source inner frame cursor world) :
    (∀ line ∈ cursor, kept line) ∧
      (∀ function, frame = some function → ∀ line ∈ function.body, kept line) ∧
      world.scope.Bodies fun body => ∀ line ∈ body, kept line := by
  have heredity := inherited.heredity
  apply reached.handed heredity
  · exact
      { report := fun _ _ _ _ => Console.report_keeps _ _ _
        write := Console.write_keeps (fun _ _ _ => trivial) trivial
        tooDeep := trivial
        body := fun _ kept => heredity.code kept
        name := fun _ _ => trivial }
  · exact fun _ kept => kept
  · exact start

theorem Reached.kept {depth inner : Nat} {streams : Streams} {frame : Option Function}
    {cursor : Cursor} {world : World}
    (reached : Reached depth streams source inner frame cursor world) :
    Cursor.From source cursor ∧
      (∀ function, frame = some function → Function.From source function) ∧
      world.scope.Functions (Function.From source) := by
  apply reached.handed (Line.from_heredity source).cursor
  · exact from_invariant source (fun _ _ _ _ => Console.report_keeps _ _ _) fun _ _ _ => trivial
  · exact fun function kept => kept.body
  · exact codeLines_from source

end Execution

/-- What the diagnostics stream holds: messages of one line each, about lines of the script. -/
theorem Console.From.messages {console : Console} (kept : console.From source) :
    ∃ messages : List Text, console.diagnostics = (messages.map (· ++ ['\n'])).flatten ∧
      ∀ message ∈ messages, '\n' ∉ message ∧ ∃ line ∈ codeLines source,
        "Error on line ".toList ++ Text.ofNat line.number ++ ": ".toList <+: message := by
  refine ⟨console.reports.reverse.map Diagnostic.message, ?_, ?_⟩
  · rw [List.map_map]
    rfl
  · intro message member
    obtain ⟨report, found, rfl⟩ := List.mem_map.1 member
    obtain ⟨⟨line, among, number⟩, plain⟩ := kept report (List.mem_reverse.1 found)
    refine ⟨Diagnostic.lineFeed_not_mem_message plain, line, among, ?_⟩
    rw [number]
    exact List.prefix_append _ _

namespace Script

theorem console_invariant (source : Text) :
    Execution.Invariant (.ofSource source) (Function.From source) (Console.From source)
      (UnclosedOnLine source) :=
  Execution.from_invariant source (fun _ _ onLine plain => Console.report_from onLine plain)
    fun _ _ kept => kept

end Script

namespace Execution

/-- In every state that a run of a script reaches, every line that its cursor leads to and every
line of a stored body is a part of a line of the script and has its number. So the diagnostics are
messages of one line each, each with the number of a line of the script, and so is the error for a
block that is not closed. -/
theorem lines_come_from_source (depth : Nat) (streams : Streams) (source : Text) :
    (∀ inner frame cursor world, Reached depth streams source inner frame cursor world →
      (∀ pending, Leads cursor pending → ∀ line ∈ pending, line.From source) ∧
      (∀ function, frame = some function → ∀ line ∈ function.body, line.From source) ∧
      world.scope.Bodies fun body => ∀ line ∈ body, line.From source) ∧
    (∃ messages : List Text,
      (Script.run depth streams source).diagnostics = (messages.map (· ++ ['\n'])).flatten ∧
      ∀ message ∈ messages, '\n' ∉ message ∧ ∃ line ∈ codeLines source,
        "Error on line ".toList ++ Text.ofNat line.number ++ ": ".toList <+: message) ∧
    ∀ construct number,
      (Script.run depth streams source).halt =
        some (.fatal (.unterminatedBlock construct number)) →
      ∃ line ∈ codeLines source, line.number = number := by
  have invariant := Script.console_invariant source
  have sound := (codeLines_from source).code
  have flush : Console.flush.Keeps (Console.From source) (UnclosedOnLine source) :=
    Console.flush_keeps nofun
  refine ⟨?_, ?_, ?_⟩
  · intro inner frame cursor world reached
    obtain ⟨lines, framed, functions⟩ := reached.kept
    refine ⟨fun pending leads => leads.kept lines, ?_, ?_⟩
    · intro function same
      exact (framed function same).body
    · intro name function found
      exact (functions name function found).body
  · have ⟨settled, _⟩ := Script.execute_keeps invariant flush depth sound
      ⟨.empty, .opened streams⟩ ⟨.empty, nofun⟩
    rw [Script.run_eq, Transcript.diagnostics_ofResult]
    exact settled.console.messages
  · intro construct number halted
    exact Script.run_halt invariant flush depth nofun sound halted construct number rfl

def openBranch : Text := "void f() \x7b purr y; \x7d\nif (x) \x7b nya".toList

theorem codeLines_openBranch : codeLines openBranch =
    [⟨1, "void f() \x7b purr y; \x7d".toList⟩, ⟨2, "if (x) \x7b nya".toList⟩] := by
  decide +kernel

theorem halt_openBranch :
    (Script.run 0 .unlimited openBranch).halt = some (.fatal (.unterminatedBlock .branch 2)) := by
  have read : Item.read ⟨1, "void f() \x7b purr y; \x7d".toList⟩
      [⟨2, "if (x) \x7b nya".toList⟩] = .definition ⟨['f'], .nothing, []⟩
        [⟨1, "purr y;".toList⟩] [⟨2, "if (x) \x7b nya".toList⟩] := rfl
  have broken : Item.read ⟨2, "if (x) \x7b nya".toList⟩ [] =
      .broken (.condition ⟨['x'], [⟨.name ['x'], 0, 1, by decide⟩], 2⟩)
        (.fatal (.unterminatedBlock .branch 2)) := rfl
  rw [Script.run, Script.execute, codeLines_openBranch, lines, Code.ofLines_cons, read]
  dsimp only
  rw [Code.ofLines_broken broken]
  rfl

theorem open_branch_comes_from_source :
    (⟨1, "purr y;".toList⟩ : Line).From openBranch ∧ (⟨2, "nya".toList⟩ : Line).From openBranch ∧
    ∃ line ∈ codeLines openBranch, line.number = 2 := by
  obtain ⟨states, _, halts⟩ := lines_come_from_source 0 .unlimited openBranch
  have first := @Reached.start 0 .unlimited openBranch
  rw [codeLines_openBranch] at first
  obtain ⟨pending, _, bodies⟩ := states _ _ _ _ (first.next rfl)
  refine ⟨?_, ?_, ?_⟩
  · exact bodies ['f'] _ rfl _ List.mem_cons_self
  · exact pending _ (.opened (.start _) ⟨_, rfl, rfl⟩) _ List.mem_cons_self
  · exact halts .branch 2 halt_openBranch

end Execution

end Purr
