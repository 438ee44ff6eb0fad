import Purr.Text.Blank

/-!
# Lines

A line of code is a trimmed text with its number in the script. A cursor is the list of lines still
to be read; a line that is pushed back is read next.
-/

namespace Purr

set_option autoImplicit false

/-- A line of code. Its text has no comments and no blanks at its ends. -/
structure Line where
  number : Nat
  text : Text
deriving DecidableEq

namespace Line

def trimmed (number : Nat) (text : Text) : Line := ⟨number, text.trim⟩

def trimmed? (number : Nat) (text : Text) : Option Line :=
  if text.trim.isEmpty then none else some (trimmed number text)

/-- What a line weighs: its characters and one more. Every step of reading makes the lines
lighter. -/
def weight (line : Line) : Nat := line.text.length + 1

theorem weight_trimmed?_le {number : Nat} {text : Text} {line : Line}
    (kept : trimmed? number text = some line) : line.weight ≤ text.length + 1 := by
  unfold trimmed? at kept
  split at kept
  · cases kept
  · cases kept
    exact Nat.succ_le_succ text.length_trim_le

end Line

/-- The lines still to be read, the next one first. -/
abbrev Cursor := List Line

namespace Cursor

def next? : Cursor → Option (Line × Cursor)
  | [] => none
  | line :: rest => some (line, rest)

def peek? (cursor : Cursor) : Option Line := cursor.head?

def push (line : Line) (cursor : Cursor) : Cursor := line :: cursor

def push? (line : Option Line) (cursor : Cursor) : Cursor :=
  match line with
  | some line => cursor.push line
  | none => cursor

def weight : Cursor → Nat
  | [] => 0
  | line :: rest => line.weight + weight rest

@[simp] theorem weight_cons (line : Line) (rest : Cursor) :
    weight (line :: rest) = line.weight + weight rest := rfl

@[simp] theorem weight_nil : weight [] = 0 := rfl

theorem weight_append (first second : Cursor) :
    weight (first ++ second) = weight first + weight second := by
  induction first with
  | nil => simp
  | cons line rest ih => simp [ih, Nat.add_assoc]

theorem weight_toList_trimmed?_le (number : Nat) (text : Text) :
    weight (Line.trimmed? number text).toList ≤ text.length + 1 := by
  cases kept : Line.trimmed? number text with
  | none => simp
  | some line => simpa using Line.weight_trimmed?_le kept

theorem weight_push?_trimmed?_le (number : Nat) (text : Text) (cursor : Cursor) :
    weight (push? (Line.trimmed? number text) cursor) ≤ text.length + 1 + weight cursor := by
  cases kept : Line.trimmed? number text with
  | none => simp [push?]
  | some line =>
    have := Line.weight_trimmed?_le kept
    simp only [push?, push, weight_cons]
    omega

end Cursor

end Purr
