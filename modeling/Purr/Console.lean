import Purr.Run

/-!
# The console

Output goes to one stream and diagnostics to another. A write to the output stream succeeds as a
whole or is refused as a whole, and a refusal ends the run. Whether a diagnostic can be written
makes no difference to the run. `Streams` says what the streams accept; `Console` adds one log of
what has been done to them.
-/

namespace Purr

set_option autoImplicit false

structure Streams where
  /-- The most bytes that the output stream holds; no limit if absent. -/
  outputLimit : Option Nat
  /-- Whether the attempt with a number to write a diagnostic succeeds. -/
  acceptsDiagnostic : Nat → Bool
  outputFlushes : Bool
  diagnosticsFlush : Bool

namespace Streams

def unlimited : Streams := ⟨none, fun _ => true, true, true⟩

end Streams

/-- What a run does to its streams. A diagnostic that the stream refuses is lost. -/
inductive Event where
  | wrote (text : Text)
  | reported (diagnostic : Diagnostic)
  | lost (diagnostic : Diagnostic)
deriving DecidableEq

namespace Event

def text? : Event → Option Text
  | .wrote text => some text
  | .reported _ | .lost _ => none

def report? : Event → Option Diagnostic
  | .reported diagnostic => some diagnostic
  | .wrote _ | .lost _ => none

def isAttempt : Event → Bool
  | .wrote _ => false
  | .reported _ | .lost _ => true

end Event

/-- The streams of a run and what has been done to them, the latest first. -/
structure Console where
  streams : Streams
  log : List Event

namespace Console

def opened (streams : Streams) : Console := ⟨streams, []⟩

def add (event : Event) (console : Console) : Console :=
  { console with log := event :: console.log }

def writes (console : Console) : List Text := console.log.filterMap Event.text?

def reports (console : Console) : List Diagnostic := console.log.filterMap Event.report?

def attempts (console : Console) : Nat := console.log.countP Event.isAttempt

def output (console : Console) : Text := console.writes.reverse.flatten

def diagnostics (console : Console) : Text :=
  (console.reports.reverse.map fun report => report.message ++ ['\n']).flatten

def held (console : Console) : Nat := console.output.byteLength

def accepts (console : Console) (text : Text) : Bool :=
  match console.streams.outputLimit with
  | none => true
  | some limit => console.held + text.byteLength ≤ limit

/-- Writes a text. An empty text is no write at all. -/
def write (text : Text) : Run Console Unit := fun console =>
  if text.isEmpty then (.ok (), console)
  else if console.accepts text then (.ok (), console.add (.wrote text))
  else (.error (.fatal (.output .full)), console)

def attempt (line : Nat) (fault : Fault) (console : Console) : Event :=
  if console.streams.acceptsDiagnostic console.attempts then .reported ⟨line, fault⟩
  else .lost ⟨line, fault⟩

def report (line : Nat) (fault : Fault) : Run Console Unit :=
  Run.modify fun console => console.add (console.attempt line fault)

/-- Flushes the output stream, then the diagnostics stream. -/
def flush : Run Console Unit := fun console =>
  if console.streams.outputFlushes && console.streams.diagnosticsFlush then (.ok (), console)
  else (.error (.fatal (.output .notFlushed)), console)

section

variable (console : Console) (line : Nat) (fault : Fault)

@[simp] theorem writes_add_wrote (text : Text) :
    (console.add (.wrote text)).writes = text :: console.writes := rfl

@[simp] theorem writes_add_attempt :
    (console.add (console.attempt line fault)).writes = console.writes := by
  unfold attempt
  split <;> rfl

@[simp] theorem reports_add_attempt : (console.add (console.attempt line fault)).reports =
    if console.streams.acceptsDiagnostic console.attempts then ⟨line, fault⟩ :: console.reports
    else console.reports := by
  unfold attempt
  split <;> rfl

@[simp] theorem attempts_add_attempt :
    (console.add (console.attempt line fault)).attempts = console.attempts + 1 := by
  unfold attempt
  split <;> exact List.countP_cons_of_pos rfl

end

end Console

end Purr
