import Purr.Diagnostic
import Purr.Line

/-!
# Blocks

The block of a header is everything up to the brace that closes it. Braces are counted outside of
text literals; a line begins outside of every literal. On the line of the closing brace the text
before it belongs to the block and the text after it is read next.
-/

namespace Purr

set_option autoImplicit false

namespace Block

inductive Scan where
  | inside (depth : Nat)
  | closed (position : Nat)
deriving DecidableEq, Repr

/-- Counts the braces of a text from a place on: inside a literal or not, at a depth, at a byte
position. It fails when a brace closes at depth zero. -/
def scanFrom (inLiteral : Bool) (depth position : Nat) : Text → Option Scan
  | [] => some (.inside depth)
  | c :: rest =>
      let next := position + c.utf8Size
      if c = '"' then scanFrom (!inLiteral) depth next rest
      else if inLiteral then scanFrom inLiteral depth next rest
      else if c = '\x7b' then scanFrom inLiteral (depth + 1) next rest
      else if c = '\x7d' then
        match depth with
        | 0 => none
        | 1 => some (.closed position)
        | depth + 2 => scanFrom inLiteral (depth + 1) next rest
      else scanFrom inLiteral depth next rest

def scan? (depth : Nat) (text : Text) : Option Scan := scanFrom false depth 0 text

def collectFrom (construct : Construct) (opened depth : Nat) :
    List Line → Except Halt (List Line × Cursor)
  | [] => .error (.fatal (.unterminatedBlock construct opened))
  | line :: rest =>
      match scan? depth line.text with
      | some (.inside depth) => do
          let (body, after) ← collectFrom construct opened depth rest
          return (line :: body, after)
      | some (.closed position) =>
          match line.text.cutAt? position, line.text.dropBytes? (position + 1) with
          | some (head, _), some tail =>
              .ok ((Line.trimmed? line.number head).toList,
                Cursor.push? (Line.trimmed? line.number tail) rest)
          | _, _ => .error .outOfRange
      | none => .error .outOfRange

/-- Collects the block of a header on a line with a number, which begins with the text after the
header's brace: its lines, and the cursor after it. -/
def collect (construct : Construct) (opened : Nat) (bodyStart : Text) (cursor : Cursor) :
    Except Halt (List Line × Cursor) :=
  collectFrom construct opened 1 (Cursor.push? (Line.trimmed? opened bodyStart) cursor)

theorem length_lt_of_closed {text head tail rest : Text} {position : Nat}
    (cut : text.cutAt? position = some (head, tail))
    (dropped : text.dropBytes? (position + 1) = some rest) :
    head.length + rest.length < text.length := by
  obtain ⟨rfl, width⟩ := Text.cutAt?_eq_some_iff.1 cut
  simp only [Text.dropBytes?, Option.map_eq_some_iff, Prod.exists, exists_eq_right] at dropped
  obtain ⟨before, second⟩ := dropped
  obtain ⟨same, longer⟩ := Text.cutAt?_eq_some_iff.1 second
  rcases List.append_eq_append_iff.1 same with ⟨more, rfl, rfl⟩ | ⟨more, rfl, rfl⟩
  · cases more with
    | nil => rw [List.append_nil] at longer; omega
    | cons c more => simp only [List.length_append, List.length_cons]; omega
  · rw [Text.byteLength_append] at width
    omega

theorem weight_collectFrom_le {construct : Construct} {opened depth : Nat}
    {lines body rest : List Line}
    (collected : collectFrom construct opened depth lines = .ok (body, rest)) :
    Cursor.weight body + Cursor.weight rest ≤ Cursor.weight lines := by
  induction lines generalizing depth body rest with
  | nil => cases collected
  | cons line others ih =>
    unfold collectFrom at collected
    split at collected
    case h_1 depth' _ =>
      cases inner : collectFrom construct opened depth' others with
      | error halt => simp [inner, bind, Except.bind] at collected
      | ok result =>
        obtain ⟨innerBody, innerRest⟩ := result
        simp only [inner, bind, Except.bind, pure, Except.pure, Except.ok.injEq,
          Prod.mk.injEq] at collected
        obtain ⟨rfl, rfl⟩ := collected
        have := ih inner
        simp only [Cursor.weight_cons]
        omega
    case h_2 position _ =>
      split at collected
      case h_1 head _ tail cut dropped =>
        cases collected
        have lengths := length_lt_of_closed cut dropped
        have headWeight := Cursor.weight_toList_trimmed?_le line.number head
        have tailWeight := Cursor.weight_push?_trimmed?_le line.number tail others
        simp only [Cursor.weight_cons, Line.weight]
        omega
      case h_2 => cases collected
    case h_3 => cases collected

theorem weight_collect_le {construct : Construct} {opened : Nat} {bodyStart : Text}
    {cursor body rest : Cursor}
    (collected : collect construct opened bodyStart cursor = .ok (body, rest)) :
    Cursor.weight body + Cursor.weight rest ≤ bodyStart.length + 1 + Cursor.weight cursor :=
  Nat.le_trans (weight_collectFrom_le collected) (Cursor.weight_push?_trimmed?_le _ _ _)

end Block

end Purr
