import Purr.Proofs.Items
import Purr.Proofs.LineFeeds

/-!
# What parts of lines inherit

A line is cut, pushed back, kept in a body and read anew by every call; what is made of it is always
trimmed out of a piece of it, which begins outside of every literal. A property of lines that such
pieces inherit therefore holds of every line that code is read from, if it holds of the lines that
reading begins with.
-/

namespace Purr

set_option autoImplicit false

/-- A part of a text that begins outside of every literal. -/
def Text.Piece (part text : Text) : Prop :=
  ∃ before after, text = before ++ part ++ after ∧ Block.literalAfter false before = false

theorem Text.Piece.isInfix {part text : Text} (piece : Text.Piece part text) : part <:+: text := by
  obtain ⟨before, after, same, _⟩ := piece
  exact ⟨before, after, same.symm⟩

theorem Text.Piece.trans {inner part text : Text} (first : Text.Piece inner part)
    (second : Text.Piece part text) : Text.Piece inner text := by
  obtain ⟨front, behind, rfl, begins⟩ := first
  obtain ⟨before, after, rfl, outside⟩ := second
  refine ⟨before ++ front, behind ++ after, by simp, ?_⟩
  rw [Block.literalAfter_append, outside, begins]

theorem Text.Piece.refl (text : Text) : Text.Piece text text := ⟨[], [], by simp, rfl⟩

theorem Text.trim_piece (text : Text) : Text.Piece text.trim text := by
  obtain ⟨before, after, same, blank, _⟩ := Block.exists_trim text
  exact ⟨before, after, same, Block.literalAfter_blank false blank⟩

theorem Text.trim_infix (text : Text) : text.trim <:+: text := (Text.trim_piece text).isInfix

theorem Line.Opens.piece {line : Line} {construct : Construct} {bodyStart : Text}
    (opens : line.Opens construct bodyStart) : Text.Piece bodyStart line.text := by
  obtain ⟨before, same, outside⟩ := opens.behind_brace
  refine ⟨before ++ ['\x7b'], [], by simp [same], ?_⟩
  rw [Block.literalAfter_append, outside]
  rfl

theorem Block.closed_pieces {depth position : Nat} {text head rest tail : Text}
    (closed : scan? depth text = some (.closed position))
    (cut : text.cutAt? position = some (head, rest))
    (dropped : text.dropBytes? (position + 1) = some tail) :
    Text.Piece head text ∧ Text.Piece tail text := by
  obtain ⟨before, after, same, width, _, outside⟩ := exists_of_closed closed
  rw [Nat.zero_add] at width
  have first : text.cutAt? position = some (before, '\x7d' :: after) := by
    rw [same, width, Text.cutAt?_byteLength_append]
  have second : text.dropBytes? (position + 1) = some after := by
    have behind := Text.dropBytes?_append (before ++ ['\x7d']) after
    rw [Text.byteLength_append, ← width, List.append_assoc] at behind
    rw [same]
    exact behind
  rw [first] at cut
  rw [second] at dropped
  cases cut
  cases dropped
  refine ⟨⟨[], '\x7d' :: tail, same, rfl⟩, head ++ ['\x7d'], [], by simp [same], ?_⟩
  rw [literalAfter_append, outside]
  rfl

/-- What holds of a line holds of everything that is trimmed out of a piece of it. -/
def Line.InheritedByPieces (kept : Line → Prop) : Prop :=
  ∀ (line other : Line) (text : Text), kept line → Text.Piece text line.text →
    Line.trimmed? line.number text = some other → kept other

namespace Line.InheritedByPieces

variable {kept : Line → Prop} {line : Line} {cursor : Cursor}

theorem trimmed? (inherited : InheritedByPieces kept) (first : kept line) {text : Text}
    (piece : Text.Piece text line.text) :
    ∀ part ∈ (Line.trimmed? line.number text).toList, kept part :=
  fun part member => inherited line part text first piece (Option.mem_toList.1 member)

theorem push? (inherited : InheritedByPieces kept) (first : kept line)
    (later : ∀ part ∈ cursor, kept part) {text : Text} (piece : Text.Piece text line.text) :
    ∀ part ∈ Cursor.push? (Line.trimmed? line.number text) cursor, kept part := by
  cases made : Line.trimmed? line.number text with
  | none => exact later
  | some part => exact List.forall_mem_cons.2 ⟨inherited line part text first piece made, later⟩

theorem collectFrom (inherited : InheritedByPieces kept) {construct : Construct}
    {opened depth : Nat} {lines body rest : List Line} (all : ∀ part ∈ lines, kept part)
    (collected : Block.collectFrom construct opened depth lines = .ok (body, rest)) :
    (∀ part ∈ body, kept part) ∧ ∀ part ∈ rest, kept part := by
  induction lines generalizing depth body rest with
  | nil => cases collected
  | cons line others ih =>
      obtain ⟨first, later⟩ := List.forall_mem_cons.1 all
      unfold Block.collectFrom at collected
      split at collected
      next deeper _ =>
        obtain ⟨⟨innerBody, innerRest⟩, inner, same⟩ := bind_eq_ok_iff.1 collected
        obtain ⟨bodyKept, restKept⟩ := ih later inner
        cases same
        exact ⟨List.forall_mem_cons.2 ⟨first, bodyKept⟩, restKept⟩
      next position closed =>
        split at collected
        next head _ tail cut dropped =>
          cases collected
          obtain ⟨headPiece, tailPiece⟩ := Block.closed_pieces closed cut dropped
          exact ⟨inherited.trimmed? first headPiece, inherited.push? first later tailPiece⟩
        next => cases collected
      next => cases collected

theorem collect (inherited : InheritedByPieces kept) {construct : Construct} {bodyStart : Text}
    {body rest : List Line} (all : ∀ part ∈ line :: cursor, kept part)
    (opens : line.Opens construct bodyStart)
    (collected : Block.collect construct line.number bodyStart cursor = .ok (body, rest)) :
    (∀ part ∈ body, kept part) ∧ ∀ part ∈ rest, kept part := by
  obtain ⟨first, later⟩ := List.forall_mem_cons.1 all
  exact inherited.collectFrom (inherited.push? first later opens.piece) collected

end Line.InheritedByPieces

def Line.Inherited (kept : Line → Prop) : Prop :=
  ∀ (line other : Line) (text : Text), kept line → text <:+: line.text →
    Line.trimmed? line.number text = some other → kept other

theorem Line.Inherited.byPieces {kept : Line → Prop} (inherited : Inherited kept) :
    InheritedByPieces kept :=
  fun line other text first piece made => inherited line other text first piece.isInfix made

/-- A property of the lines still to be read that is handed on when a line is taken and when a block
is collected. Where lines have it, what the first of them can report may be reported, a function
that it begins is a good one, and its block may lack the closing brace. -/
structure Cursor.Heredity (reports : Reports) (good : Function → Prop) (allowed : Halt → Prop)
    (kept : Cursor → Prop) : Prop where
  nil : kept []
  taken : ∀ line cursor, kept (line :: cursor) → kept cursor
  collect : ∀ line cursor construct bodyStart body rest, kept (line :: cursor) →
    line.Opens construct bodyStart →
    Block.collect construct line.number bodyStart cursor = .ok (body, rest) →
    kept body ∧ kept rest
  allows : ∀ line cursor, kept (line :: cursor) → reports.Allows line
  function : ∀ line cursor header bodyStart body rest, kept (line :: cursor) →
    Statement.ofLine line = .ok (.function header bodyStart) →
    Block.collect .function line.number bodyStart cursor = .ok (body, rest) →
    good ⟨header, body, line.number⟩
  unclosed : ∀ line cursor construct bodyStart halt, kept (line :: cursor) →
    line.Opens construct bodyStart →
    Block.collect construct line.number bodyStart cursor = .error halt → allowed halt

namespace Cursor.Heredity

variable {reports : Reports} {good : Function → Prop} {allowed : Halt → Prop}
  {kept : Cursor → Prop}

/-- Reading an item hands the property on: one case for each kind of item. -/
theorem sound (heredity : Heredity reports good allowed kept) {line : Line} {cursor : Cursor}
    (start : kept (line :: cursor)) :
    (Item.read line cursor).Sound reports kept good allowed line := by
  have fits := (heredity.allows line cursor start).fits
  have shape := Item.read_shape line cursor
  generalize Item.read line cursor = item at shape
  cases shape with
  | action asked => exact ⟨fits.action _ asked, heredity.taken _ _ start⟩
  | definition recognized collected =>
      obtain ⟨_, rest⟩ := heredity.collect _ _ _ _ _ _ start ⟨_, recognized, rfl⟩ collected
      exact ⟨heredity.function _ _ _ _ _ _ start recognized collected, rest⟩
  | branch recognized collected =>
      obtain ⟨body, rest⟩ := heredity.collect _ _ _ _ _ _ start ⟨_, recognized, rfl⟩ collected
      exact ⟨fits.prelude _ recognized, body, heredity.nil, rest⟩
  | alternative recognized collected elseOpens elseCollected =>
      obtain ⟨body, between⟩ := heredity.collect _ _ _ _ _ _ start ⟨_, recognized, rfl⟩ collected
      obtain ⟨elseBody, rest⟩ := heredity.collect _ _ _ _ _ _ between elseOpens elseCollected
      exact ⟨fits.prelude _ recognized, body, elseBody, rest⟩
  | strayElse recognized collected =>
      obtain ⟨_, rest⟩ := heredity.collect _ _ _ _ _ _ start ⟨_, recognized, rfl⟩ collected
      exact ⟨fits.prelude _ recognized, rest⟩
  | broken recognized opens failed =>
      exact ⟨fits.prelude _ recognized,
        heredity.unclosed _ _ _ _ _ start ⟨_, recognized, opens⟩ failed⟩
  | brokenElse recognized collected elseOpens failed =>
      obtain ⟨_, between⟩ := heredity.collect _ _ _ _ _ _ start ⟨_, recognized, rfl⟩ collected
      exact ⟨fits.prelude _ recognized, heredity.unclosed _ _ _ _ _ between elseOpens failed⟩

theorem code (heredity : Heredity reports good allowed kept) {lines : List Line}
    (start : kept lines) : (Code.ofLines lines).Sound reports good allowed :=
  Code.sound_ofLines (fun _ _ whole => heredity.sound whole) start

end Cursor.Heredity

theorem Line.InheritedByPieces.heredity {kept : Line → Prop}
    (inherited : Line.InheritedByPieces kept) :
    Cursor.Heredity .any (fun function => ∀ line ∈ function.body, kept line) (fun _ => True)
      fun lines => ∀ line ∈ lines, kept line where
  nil := nofun
  taken _ _ all := (List.forall_mem_cons.1 all).2
  collect _ _ _ _ _ _ all opens collected := inherited.collect all opens collected
  allows line _ _ := Reports.allows_any line
  function _ _ _ _ _ _ all recognized collected :=
    (inherited.collect all ⟨_, recognized, rfl⟩ collected).1
  unclosed _ _ _ _ _ _ _ _ := trivial

/-- A property of each line that its parts inherit. Where a line has it, what the line can report
may be reported, a function whose header is the line and whose body has the property is a good one,
and the line may be the header of a block that is not closed. -/
structure Line.Heredity (reports : Reports) (good : Function → Prop) (allowed : Halt → Prop)
    (kept : Line → Prop) : Prop where
  inherited : Line.Inherited kept
  allows : ∀ line, kept line → reports.Allows line
  function : ∀ line header bodyStart body, kept line →
    Statement.ofLine line = .ok (.function header bodyStart) → (∀ part ∈ body, kept part) →
    good ⟨header, body, line.number⟩
  unclosed : ∀ line construct, kept line →
    allowed (.fatal (.unterminatedBlock construct line.number))

namespace Line.Heredity

variable {reports : Reports} {good : Function → Prop} {allowed : Halt → Prop}
  {kept : Line → Prop}

theorem cursor (heredity : Heredity reports good allowed kept) :
    Cursor.Heredity reports good allowed fun lines => ∀ part ∈ lines, kept part where
  nil := nofun
  taken _ _ all := (List.forall_mem_cons.1 all).2
  collect _ _ _ _ _ _ all opens collected := heredity.inherited.byPieces.collect all opens collected
  allows line _ all := heredity.allows line (List.forall_mem_cons.1 all).1
  function line _ header bodyStart body _ all recognized collected := by
    have opens : line.Opens .function bodyStart := ⟨_, recognized, rfl⟩
    have inner := (heredity.inherited.byPieces.collect all opens collected).1
    have first := (List.forall_mem_cons.1 all).1
    exact heredity.function line header bodyStart body first recognized inner
  unclosed line _ construct _ _ all _ failed := by
    cases Block.eq_of_collect_error failed
    exact heredity.unclosed line construct (List.forall_mem_cons.1 all).1

theorem sound (heredity : Heredity reports good allowed kept) {line : Line} {cursor : Cursor}
    (all : ∀ part ∈ line :: cursor, kept part) :
    (Item.read line cursor).Sound reports (fun lines => ∀ part ∈ lines, kept part) good allowed
      line := heredity.cursor.sound all

theorem code (heredity : Heredity reports good allowed kept) {lines : List Line}
    (all : ∀ part ∈ lines, kept part) : (Code.ofLines lines).Sound reports good allowed :=
  heredity.cursor.code all

end Line.Heredity

end Purr
