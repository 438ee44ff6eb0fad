import Purr.Proofs.Items
import Purr.Proofs.Literals

/-!
# Collecting

Which lines a block takes, told without a scan: a brace closes the block if it stands outside of
every literal and the braces before it leave the block one deep, and the first such brace ends it.
What stands before that brace is the body, what stands behind it is left to be read, and nothing is
lost or read twice. Without such a brace all lines are taken, which `gather` shows, since it keeps
the cursor also when it fails.
-/

namespace Purr

set_option autoImplicit false

namespace Block

def gatherFrom (construct : Construct) (opened depth : Nat) :
    List Line → Except Halt (List Line) × Cursor
  | [] => (.error (.fatal (.unterminatedBlock construct opened)), [])
  | line :: rest =>
      match scan? depth line.text with
      | some (.inside depth) =>
          let (body, left) := gatherFrom construct opened depth rest
          (body.map (line :: ·), left)
      | some (.closed position) =>
          match line.text.cutAt? position, line.text.dropBytes? (position + 1) with
          | some (head, _), some tail =>
              (.ok (Line.trimmed? line.number head).toList,
                Cursor.push? (Line.trimmed? line.number tail) rest)
          | _, _ => (.error .outOfRange, rest)
      | none => (.error .outOfRange, rest)

def gather (construct : Construct) (opened : Nat) (bodyStart : Text) : Run Cursor (List Line) :=
  fun cursor =>
    gatherFrom construct opened 1 (Cursor.push? (Line.trimmed? opened bodyStart) cursor)

/-- To gather a block is to collect it; a cursor from which it cannot be collected is exhausted. -/
theorem gatherFrom_eq (construct : Construct) (opened : Nat) {depth : Nat} (positive : 0 < depth)
    (lines : List Line) :
    gatherFrom construct opened depth lines =
      match collectFrom construct opened depth lines with
      | .ok (body, rest) => (.ok body, rest)
      | .error halt => (.error halt, []) := by
  induction lines generalizing depth with
  | nil => rfl
  | cons line rest ih =>
      rw [gatherFrom, collectFrom]
      cases scanned : scan? depth line.text with
      | none => exact absurd scanned (scanFrom_ne_none false positive 0 line.text)
      | some found =>
          cases found with
          | inside reached =>
              dsimp only
              rw [ih (openFrom_of_inside positive scanned).1]
              cases collectFrom construct opened reached rest <;> rfl
          | closed position =>
              obtain ⟨head, tail, _, _, _, cut, dropped⟩ := parts_of_closed scanned
              simp only [cut, dropped]

theorem gather_eq (construct : Construct) (opened : Nat) (bodyStart : Text) (cursor : Cursor) :
    gather construct opened bodyStart cursor =
      match collect construct opened bodyStart cursor with
      | .ok (body, rest) => (.ok body, rest)
      | .error halt => (.error halt, []) :=
  gatherFrom_eq construct opened Nat.one_pos _

def gain (text : Text) : Int :=
  (bracesFrom false 0 text).countP (fun brace => brace.opens) -
    (bracesFrom false 0 text).countP fun brace => !brace.opens

theorem gain_of_inside {depth reached : Nat} {text : Text}
    (inside : scan? depth text = some (.inside reached)) : (reached : Int) = depth + gain text := by
  rw [scan?, scanFrom_eq_countBraces] at inside
  have counts := depth_of_countBraces inside
  rw [gain]
  omega

theorem depth_pos_of_inside {depth reached : Nat} {head tail : Text} (positive : 0 < depth)
    (inside : scan? depth (head ++ tail) = some (.inside reached)) : 0 < depth + gain head := by
  obtain ⟨between, before, _⟩ := inside_of_inside_append inside
  have counted := gain_of_inside before
  have deep := (openFrom_of_inside positive before).1
  omega

theorem depth_ne_one_of_inside {depth reached : Nat} {head tail : Text}
    (outside : literalAfter false head = false)
    (inside : scan? depth (head ++ '\x7d' :: tail) = some (.inside reached)) :
    depth + gain head ≠ 1 := by
  obtain ⟨between, before, closing⟩ := inside_of_inside_append inside
  have counted := gain_of_inside before
  intro one
  obtain rfl : between = 1 := by omega
  rw [outside] at closing
  cases closing

/-- A place in lines: the lines before it, the number of its own line with what stands before and
behind the place, and the lines after it. -/
structure Place where
  before : List Line
  number : Nat
  head : Text
  tail : Text
  after : List Line

namespace Place

def around (place : Place) (part : Text) : List Line :=
  place.before ++ ⟨place.number, place.head ++ part ++ place.tail⟩ :: place.after

/-- The depth at the place in a block. No literal goes on from one line to the next. -/
def depth (start : Int) (place : Place) : Int :=
  place.before.foldl (fun depth line => depth + gain line.text) start + gain place.head

def Precedes (place other : Place) : Prop :=
  place.before.length < other.before.length ∨
    place.before.length = other.before.length ∧ place.head.length < other.head.length

/-- A brace at the place closes a block that the lines begin inside of. -/
structure Closes (start : Int) (lines : List Line) (place : Place) : Prop where
  brace : lines = place.around ['\x7d']
  outside : literalAfter false place.head = false
  depth : place.depth start = 1

/-- The brace at the place is the first one that closes the block. -/
structure First (start : Int) (lines : List Line) (place : Place) : Prop
    extends place.Closes start lines where
  first : ∀ other : Place, other.Closes start lines → ¬ other.Precedes place

def body (place : Place) : List Line :=
  place.before ++ (Line.trimmed? place.number place.head).toList

/-- The text behind the brace, if it is not blank, and the lines after it. -/
def rest (place : Place) : Cursor :=
  Cursor.push? (Line.trimmed? place.number place.tail) place.after

def behind (line : Line) (place : Place) : Place := { place with before := line :: place.before }

@[simp] theorem around_behind (line : Line) (place : Place) (part : Text) :
    (place.behind line).around part = line :: place.around part := rfl

@[simp] theorem body_behind (line : Line) (place : Place) :
    (place.behind line).body = line :: place.body := rfl

@[simp] theorem rest_behind (line : Line) (place : Place) :
    (place.behind line).rest = place.rest := rfl

@[simp] theorem depth_behind (start : Int) (line : Line) (place : Place) :
    (place.behind line).depth start = place.depth (start + gain line.text) := rfl

theorem precedes_behind (line : Line) (place other : Place) :
    (place.behind line).Precedes (other.behind line) ↔ place.Precedes other := by
  simp [Precedes, behind]

theorem around_cases {place : Place} {line : Line} {lines : List Line} {part : Text}
    (same : line :: lines = place.around part) :
    place.before = [] ∧ line.text = place.head ++ part ++ place.tail ∧ place.after = lines ∨
      ∃ inner : Place, place = inner.behind line ∧ lines = inner.around part := by
  obtain ⟨before, number, head, tail, after⟩ := place
  cases before with
  | nil =>
      obtain ⟨rfl, rfl⟩ := List.cons.inj same
      exact .inl ⟨rfl, rfl, rfl⟩
  | cons first others =>
      obtain ⟨rfl, rfl⟩ := List.cons.inj same
      exact .inr ⟨⟨others, number, head, tail, after⟩, rfl, rfl⟩

variable {start : Nat} {lines : List Line}

theorem eq_of_not_precedes {place other : Place} {part : Text}
    (same : place.around part = other.around part) (notBefore : ¬ place.Precedes other)
    (notBehind : ¬ other.Precedes place) : place = other := by
  obtain ⟨before, number, head, tail, after⟩ := place
  obtain ⟨before', number', head', tail', after'⟩ := other
  simp only [Precedes] at notBefore notBehind
  have level : before.length = before'.length := by omega
  obtain ⟨rfl, later⟩ := List.append_inj same level
  simp only [List.cons.injEq, Line.mk.injEq, List.append_assoc] at later
  obtain ⟨⟨rfl, texts⟩, rfl⟩ := later
  obtain ⟨rfl, tails⟩ := List.append_inj texts (by omega)
  obtain rfl := List.append_cancel_left tails
  rfl

theorem First.unique {place other : Place} (one : place.First start lines)
    (two : other.First start lines) : place = other :=
  eq_of_not_precedes (one.brace.symm.trans two.brace) (two.first place one.toCloses)
    (one.first other two.toCloses)

theorem closes_behind {line : Line} {reached : Nat}
    (inside : scan? start line.text = some (.inside reached)) (place : Place) :
    place.Closes start (line :: lines) ↔
      ∃ inner : Place, place = inner.behind line ∧ inner.Closes reached lines := by
  have counted := gain_of_inside inside
  constructor
  · rintro ⟨brace, outside, depth⟩
    rcases around_cases brace with ⟨none, text, _⟩ | ⟨inner, rfl, same⟩
    · rw [text, List.append_assoc] at inside
      rw [Place.depth, none] at depth
      exact absurd depth (depth_ne_one_of_inside outside inside)
    · rw [depth_behind, ← counted] at depth
      exact ⟨inner, rfl, same, outside, depth⟩
  · rintro ⟨inner, rfl, brace, outside, depth⟩
    refine ⟨congrArg (line :: ·) brace, outside, ?_⟩
    rw [depth_behind, ← counted]
    exact depth

/-- A brace that a scan of the first line finds is the first one that closes the block. -/
theorem first_of_closed {line : Line} {head tail : Text} (text : line.text = head ++ '\x7d' :: tail)
    (outside : literalAfter false head = false) (before : scan? start head = some (.inside 1)) :
    Place.First start (line :: lines) ⟨[], line.number, head, tail, lines⟩ := by
  have counted := gain_of_inside before
  refine ⟨⟨?_, outside, ?_⟩, ?_⟩
  · simp [around, ← text]
  · rw [depth, List.foldl_nil]
    dsimp only
    omega
  · rintro other closes (fewer | ⟨none, shorter⟩)
    · exact absurd fewer (Nat.not_lt_zero _)
    · -- Then the other brace stands in the text before this one, which closes no block.
      have level := List.length_eq_zero_iff.1 none
      rcases around_cases closes.brace with ⟨_, same, _⟩ | ⟨inner, rfl, _⟩
      · rw [text, List.append_assoc] at same
        rcases List.append_eq_append_iff.1 same with ⟨more, longer, _⟩ | ⟨more, rfl, rest⟩
        · have longer := congrArg List.length longer
          rw [List.length_append] at longer
          dsimp only at shorter
          omega
        · cases more with
          | nil => simp at shorter
          | cons c more =>
              obtain ⟨rfl, _⟩ := List.cons.inj rest
              have depth := closes.depth
              rw [Place.depth, level] at depth
              exact depth_ne_one_of_inside closes.outside before depth
      · cases none

theorem First.behind {line : Line} {reached : Nat} {place : Place}
    (inside : scan? start line.text = some (.inside reached)) (first : place.First reached lines) :
    (place.behind line).First start (line :: lines) := by
  refine ⟨(closes_behind inside _).2 ⟨place, rfl, first.toCloses⟩, ?_⟩
  intro other closes
  obtain ⟨inner, rfl, within⟩ := (closes_behind inside other).1 closes
  rw [precedes_behind]
  exact first.first inner within

theorem not_closes_nil (place : Place) : ¬ place.Closes start [] := by
  intro closes
  exact List.append_ne_nil_of_right_ne_nil _ (List.cons_ne_nil _ _) closes.brace.symm

theorem depth_pos {place : Place} (positive : 0 < start) (here : lines = place.around [])
    (notBehind : ∀ other : Place, other.Closes start lines → ¬ other.Precedes place) :
    0 < place.depth start := by
  induction lines generalizing start place with
  | nil => exact absurd here.symm (List.append_ne_nil_of_right_ne_nil _ (List.cons_ne_nil _ _))
  | cons line rest ih =>
      cases scanned : scan? start line.text with
      | none => exact absurd scanned (scanFrom_ne_none false positive 0 line.text)
      | some found =>
          cases found with
          | inside reached =>
              rcases around_cases here with ⟨none, text, _⟩ | ⟨inner, rfl, same⟩
              · rw [text, List.append_nil] at scanned
                rw [Place.depth, none]
                exact depth_pos_of_inside positive scanned
              · rw [depth_behind, ← gain_of_inside scanned]
                apply ih (openFrom_of_inside positive scanned).1 same
                intro other closes
                rw [← precedes_behind line]
                exact notBehind _ ((closes_behind scanned _).2 ⟨other, rfl, closes⟩)
          | closed position =>
              obtain ⟨head, tail, text, before, outside, _⟩ := parts_of_closed scanned
              have notBefore := notBehind _ (first_of_closed text outside before).toCloses
              simp only [Precedes, List.length_nil, not_or, not_and, Nat.not_lt] at notBefore
              obtain ⟨none, shorter⟩ := notBefore
              rcases around_cases here with ⟨first, same, _⟩ | ⟨inner, rfl, _⟩
              · replace shorter := shorter (by rw [first, List.length_nil])
                rw [text, List.append_nil] at same
                obtain ⟨more, rfl⟩ : place.head <+: head :=
                  List.prefix_of_prefix_length_le ⟨_, same.symm⟩ ⟨_, rfl⟩ shorter
                rw [Place.depth, first]
                exact depth_pos_of_inside positive before
              · exact absurd none (Nat.not_succ_le_zero _)

end Place

/-- Collecting ends at the first brace that closes the block, or fails since there is none. -/
theorem collectFrom_first (construct : Construct) (opened : Nat) {depth : Nat}
    (positive : 0 < depth) (lines : List Line) :
    (∃ place : Place, place.First depth lines ∧
      collectFrom construct opened depth lines = .ok (place.body, place.rest)) ∨
    (∀ place : Place, ¬ place.Closes depth lines) ∧
      collectFrom construct opened depth lines =
        .error (.fatal (.unterminatedBlock construct opened)) := by
  induction lines generalizing depth with
  | nil => exact .inr ⟨Place.not_closes_nil, rfl⟩
  | cons line rest ih =>
      rw [collectFrom]
      cases scanned : scan? depth line.text with
      | none => exact absurd scanned (scanFrom_ne_none false positive 0 line.text)
      | some found =>
          cases found with
          | inside reached =>
              rcases ih (openFrom_of_inside positive scanned).1 with
                ⟨place, first, collected⟩ | ⟨none, failed⟩
              · left
                refine ⟨place.behind line, first.behind scanned, ?_⟩
                simp only [collected]
                rfl
              · right
                refine ⟨?_, by simp only [failed]; rfl⟩
                intro place closes
                obtain ⟨inner, _, within⟩ := (Place.closes_behind scanned place).1 closes
                exact none inner within
          | closed position =>
              obtain ⟨head, tail, text, before, outside, cut, dropped⟩ := parts_of_closed scanned
              left
              refine ⟨_, Place.first_of_closed text outside before, ?_⟩
              simp only [cut, dropped]
              rfl

/-- The lines that a block is taken from: the text behind the brace of its header, if it is not
blank, and the lines of the cursor. -/
def linesFrom (opened : Nat) (bodyStart : Text) (cursor : Cursor) : List Line :=
  Cursor.push? (Line.trimmed? opened bodyStart) cursor

def Unclosed (opened : Nat) (bodyStart : Text) (cursor : Cursor) : Prop :=
  ∀ place : Place, ¬ place.Closes 1 (linesFrom opened bodyStart cursor)

section

variable (construct : Construct) {opened : Nat} {bodyStart : Text} {cursor : Cursor}

theorem collect_first (opened : Nat) (bodyStart : Text) (cursor : Cursor) :
    (∃ place : Place, place.First 1 (linesFrom opened bodyStart cursor) ∧
      collect construct opened bodyStart cursor = .ok (place.body, place.rest)) ∨
    Unclosed opened bodyStart cursor ∧ collect construct opened bodyStart cursor =
      .error (.fatal (.unterminatedBlock construct opened)) :=
  collectFrom_first construct opened Nat.one_pos _

theorem collect_of_first {place : Place}
    (first : place.First 1 (linesFrom opened bodyStart cursor)) :
    collect construct opened bodyStart cursor = .ok (place.body, place.rest) := by
  rcases collect_first construct opened bodyStart cursor with ⟨other, found, same⟩ | ⟨none, _⟩
  · rw [first.unique found]
    exact same
  · exact absurd first.toCloses (none place)

theorem collect_of_unclosed (none : Unclosed opened bodyStart cursor) :
    collect construct opened bodyStart cursor =
      .error (.fatal (.unterminatedBlock construct opened)) := by
  rcases collect_first construct opened bodyStart cursor with ⟨place, first, _⟩ | ⟨_, failed⟩
  · exact absurd first.toCloses (none place)
  · exact failed

theorem gather_of_first {place : Place}
    (first : place.First 1 (linesFrom opened bodyStart cursor)) :
    gather construct opened bodyStart cursor = (.ok place.body, place.rest) := by
  rw [gather_eq, collect_of_first construct first]

theorem gather_of_unclosed (none : Unclosed opened bodyStart cursor) :
    gather construct opened bodyStart cursor =
      (.error (.fatal (.unterminatedBlock construct opened)), []) := by
  rw [gather_eq, collect_of_unclosed construct none]

end

/-- A block ends at the first brace that closes it. The lines before it and the trimmed text before
it are the body, the trimmed text behind it and the lines after it are left in the cursor. Where no
brace closes the block, nothing is left in the cursor. Up to there the depth never reaches zero. -/
theorem block_ends_at_first_closing_brace (construct : Construct) (opened : Nat) (bodyStart : Text)
    (cursor : Cursor) :
    (∀ place : Place, place.First 1 (linesFrom opened bodyStart cursor) →
      gather construct opened bodyStart cursor = (.ok place.body, place.rest)) ∧
    ((∀ place : Place, ¬ place.Closes 1 (linesFrom opened bodyStart cursor)) →
      gather construct opened bodyStart cursor =
        (.error (.fatal (.unterminatedBlock construct opened)), [])) ∧
    ((∃ place : Place, place.Closes 1 (linesFrom opened bodyStart cursor)) →
      ∃ place : Place, place.First 1 (linesFrom opened bodyStart cursor)) ∧
    (∀ place : Place, linesFrom opened bodyStart cursor = place.around [] →
      (∀ other : Place, other.Closes 1 (linesFrom opened bodyStart cursor) →
        ¬ other.Precedes place) → 0 < place.depth 1) ∧
    collect construct opened bodyStart cursor =
      match gather construct opened bodyStart cursor with
      | (.ok body, rest) => .ok (body, rest)
      | (.error halt, _) => .error halt := by
  refine ⟨?_, ?_, ?_, ?_, ?_⟩
  · intro place first
    exact gather_of_first construct first
  · intro none
    exact gather_of_unclosed construct none
  · rintro ⟨place, closes⟩
    rcases collect_first construct opened bodyStart cursor with ⟨found, first, _⟩ | ⟨none, _⟩
    · exact ⟨found, first⟩
    · exact absurd closes (none place)
  · intro place here notBehind
    exact Place.depth_pos Nat.one_pos here notBehind
  · rw [gather_eq]
    cases collect construct opened bodyStart cursor <;> rfl

theorem block_ends_before_else :
    gather .branch 1 " if (x) \x7b".toList
        [⟨2, "purr ~> \"\x7d\"; \x7d y(); \x7d else \x7b".toList⟩, ⟨3, "z();".toList⟩] =
      (.ok [⟨1, "if (x) \x7b".toList⟩, ⟨2, "purr ~> \"\x7d\"; \x7d y();".toList⟩],
        [⟨2, "else \x7b".toList⟩, ⟨3, "z();".toList⟩]) := by
  obtain ⟨ends, _⟩ := block_ends_at_first_closing_brace .branch 1 " if (x) \x7b".toList
    [⟨2, "purr ~> \"\x7d\"; \x7d y(); \x7d else \x7b".toList⟩, ⟨3, "z();".toList⟩]
  have closing : Place.First 2
      [⟨2, "purr ~> \"\x7d\"; \x7d y(); \x7d else \x7b".toList⟩, ⟨3, "z();".toList⟩]
      ⟨[], 2, "purr ~> \"\x7d\"; \x7d y(); ".toList, " else \x7b".toList, [⟨3, "z();".toList⟩]⟩ :=
    Place.first_of_closed (by rfl) (by rfl) (by rfl)
  have first := @Place.First.behind 1 _ ⟨1, "if (x) \x7b".toList⟩ 2 _ (by rfl) closing
  exact ends _ first

end Block

end Purr
