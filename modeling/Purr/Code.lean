import Purr.Block
import Purr.Function
import Purr.Statement.Lemmas

/-!
# Code

How the lines of a script or of a function body hang together, before any of them is executed: which
lines are the block of which header, and which `else` belongs to which `if`. `Item.read` takes the
first line and the lines of its blocks from a cursor; `Code.ofLines` does so to the end. Both depend
on the text alone.

Where a block is not closed nothing can be read any more, so the code ends there. What its header
does before the end is noticed is kept: a condition is evaluated and a misplaced `else` reported.
-/

namespace Purr

set_option autoImplicit false

inductive Action where
  | print (expression : Fragment)
  | declare (kind : Kind) (name : Text) (value : Fragment)
  | declareCall (kind : Kind) (name : Text) (call : Fragment)
  | call (call : Fragment)
  | result (value : Option Fragment)
  | unknown
  | malformed (fault : SyntaxFault)

/-- What is still executed before code ends because it cannot be read. -/
inductive Prelude where
  | nothing
  | condition (condition : Fragment)
  | strayElse

inductive Item where
  | action (action : Action) (rest : Cursor)
  | definition (header : Header) (body : List Line) (rest : Cursor)
  | branch (condition : Fragment) (yes no : List Line) (rest : Cursor)
  | strayElse (rest : Cursor)
  | broken (before : Prelude) (halt : Halt)

namespace Item

def elseHeader? (cursor : Cursor) : Option (Line × Text × Cursor) :=
  match cursor with
  | [] => none
  | line :: rest =>
      match Statement.ofLine line with
      | .ok (.otherwise bodyStart) => some (line, bodyStart, rest)
      | _ => none

def readBranch (line : Line) (condition : Fragment) (bodyStart : Text) (cursor : Cursor) : Item :=
  match Block.collect .branch line.number bodyStart cursor with
  | .error halt => .broken (.condition condition) halt
  | .ok (yes, afterYes) =>
      match elseHeader? afterYes with
      | none => .branch condition yes [] afterYes
      | some (elseLine, elseStart, afterElse) =>
          match Block.collect .otherwise elseLine.number elseStart afterElse with
          | .error halt => .broken (.condition condition) halt
          | .ok (no, rest) => .branch condition yes no rest

/-- The item of a line, which may take lines from the cursor. -/
def read (line : Line) (cursor : Cursor) : Item :=
  match Statement.ofLine line with
  | .error (.malformed fault) => .action (.malformed fault) cursor
  | .error .outOfRange => .broken .nothing .outOfRange
  | .ok (.function header bodyStart) =>
      match Block.collect .function line.number bodyStart cursor with
      | .error halt => .broken .nothing halt
      | .ok (body, rest) => .definition header body rest
  | .ok (.branch condition bodyStart) => readBranch line condition bodyStart cursor
  | .ok (.otherwise bodyStart) =>
      match Block.collect .otherwise line.number bodyStart cursor with
      | .error halt => .broken .strayElse halt
      | .ok (_, rest) => .strayElse rest
  | .ok (.callDeclaration kind name call) => .action (.declareCall kind name call) cursor
  | .ok (.print expression) => .action (.print expression) cursor
  | .ok (.declaration kind name value) => .action (.declare kind name value) cursor
  | .ok (.call call) => .action (.call call) cursor
  | .ok (.result value) => .action (.result value) cursor
  | .ok .unknown => .action .unknown cursor

def left : Item → List Line
  | .action _ rest | .definition _ _ rest | .strayElse rest => rest
  | .branch _ yes no rest => yes ++ no ++ rest
  | .broken _ _ => []

theorem weight_of_elseHeader? {cursor rest : Cursor} {line : Line} {bodyStart : Text}
    (header : elseHeader? cursor = some (line, bodyStart, rest)) :
    bodyStart.length + 1 + Cursor.weight rest ≤ Cursor.weight cursor := by
  cases cursor with
  | nil => cases header
  | cons first others =>
    simp only [elseHeader?] at header
    split at header
    case h_1 start recognized =>
      cases header
      have := Statement.length_lt_of_ofLine recognized rfl
      simp only [Cursor.weight_cons, Line.weight]
      omega
    case h_2 => cases header

theorem weight_readBranch_le (line : Line) (condition : Fragment) (bodyStart : Text)
    (cursor : Cursor) :
    Cursor.weight (readBranch line condition bodyStart cursor).left ≤
      bodyStart.length + 1 + Cursor.weight cursor := by
  unfold readBranch
  split
  case h_1 => simp [left]
  case h_2 yes afterYes collected =>
    have first := Block.weight_collect_le collected
    split
    case h_1 => simpa [left, Cursor.weight_append] using first
    case h_2 elseLine elseStart afterElse header =>
      have second := weight_of_elseHeader? header
      split
      case h_1 => simp [left]
      case h_2 no rest collectedElse =>
        have third := Block.weight_collect_le collectedElse
        simp only [left, Cursor.weight_append]
        omega

theorem weight_left_read_lt (line : Line) (cursor : Cursor) :
    Cursor.weight (read line cursor).left < Cursor.weight (line :: cursor) := by
  have positive : 0 < Cursor.weight (line :: cursor) := by
    rw [Cursor.weight_cons, Line.weight]; omega
  have lighter : Cursor.weight cursor < Cursor.weight (line :: cursor) := by
    simp [Line.weight]
  unfold read
  split <;> try exact lighter
  case h_2 => exact positive
  case h_3 header bodyStart recognized =>
    have start := Statement.length_lt_of_ofLine recognized rfl
    split
    case h_1 => exact positive
    case h_2 body rest collected =>
      have := Block.weight_collect_le collected
      simp only [left, Cursor.weight_cons, Line.weight]
      omega
  case h_4 condition bodyStart recognized =>
    have start := Statement.length_lt_of_ofLine recognized rfl
    have := weight_readBranch_le line condition bodyStart cursor
    simp only [Cursor.weight_cons, Line.weight]
    omega
  case h_5 bodyStart recognized =>
    have start := Statement.length_lt_of_ofLine recognized rfl
    split
    case h_1 => exact positive
    case h_2 body rest collected =>
      have := Block.weight_collect_le collected
      simp only [left, Cursor.weight_cons, Line.weight]
      omega

end Item

/-- Lines as they are executed. Each item holds the line it comes from and what follows it. -/
inductive Code where
  | done
  | action (line : Line) (action : Action) (next : Code)
  | definition (line : Line) (function : Function) (next : Code)
  | branch (line : Line) (condition : Fragment) (yes no next : Code)
  | strayElse (line : Line) (next : Code)
  | broken (line : Line) (before : Prelude) (halt : Halt)

namespace Code

def ofLines : List Line → Code
  | [] => .done
  | line :: cursor =>
      match _ : Item.read line cursor with
      | .action work rest => .action line work (ofLines rest)
      | .definition header body rest =>
          .definition line ⟨header, body, line.number⟩ (ofLines rest)
      | .branch condition yes no rest =>
          .branch line condition (ofLines yes) (ofLines no) (ofLines rest)
      | .strayElse rest => .strayElse line (ofLines rest)
      | .broken before halt => .broken line before halt
termination_by lines => Cursor.weight lines
decreasing_by
  all_goals
    have lighter := Item.weight_left_read_lt line cursor
    rw [‹Item.read line cursor = _›] at lighter
    simp only [Item.left, Cursor.weight_append] at lighter
    omega

def steps : Code → List (Line × Code)
  | .done => []
  | .action line work next => (line, .action line work .done) :: next.steps
  | .definition line function next => (line, .definition line function .done) :: next.steps
  | .branch line condition yes no next => (line, .branch line condition yes no .done) :: next.steps
  | .strayElse line next => (line, .strayElse line .done) :: next.steps
  | .broken line before halt => [(line, .broken line before halt)]

end Code

end Purr
