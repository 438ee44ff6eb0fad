import Purr.Code
import Purr.Proofs.Braces
import Purr.Proofs.Evaluations
import Purr.Proofs.Statements

/-!
# Items

What reading an item from a cursor can give, in one relation, `Item.Shape`. Invariants of code are
derived from it: `Code.sound_ofLines` carries a property of lines from a cursor to every part of
their code. What a line can report is a matter of the line alone, `Line.Fits`.
-/

namespace Purr

set_option autoImplicit false

def Halt.Unclosed (halt : Halt) : Prop :=
  ∃ construct opened, halt = .fatal (.unterminatedBlock construct opened)

def Statement.opens? : Statement → Option (Construct × Text)
  | .function _ bodyStart => some (.function, bodyStart)
  | .branch _ bodyStart => some (.branch, bodyStart)
  | .otherwise bodyStart => some (.otherwise, bodyStart)
  | _ => none

theorem Statement.blockStart?_of_opens? {statement : Statement} {construct : Construct}
    {bodyStart : Text} (opens : statement.opens? = some (construct, bodyStart)) :
    statement.blockStart? = some bodyStart := by
  cases statement <;> cases opens <;> rfl

/-- The line is the header of a construct whose block begins with a text. -/
def Line.Opens (line : Line) (construct : Construct) (bodyStart : Text) : Prop :=
  ∃ statement, Statement.ofLine line = .ok statement ∧
    statement.opens? = some (construct, bodyStart)

theorem Line.Opens.behind_brace {line : Line} {construct : Construct} {bodyStart : Text}
    (opens : line.Opens construct bodyStart) :
    ∃ before, line.text = before ++ '\x7b' :: bodyStart ∧
      Block.literalAfter false before = false := by
  obtain ⟨statement, recognized, opened⟩ := opens
  obtain ⟨found, cut, placed⟩ := Statement.ofLine_ok_placed recognized
  obtain ⟨brace, member, dropped⟩ := placed.block _ (Statement.blockStart?_of_opens? opened)
  exact Block.exists_before_brace cut member dropped

namespace Block

theorem openAfter_opens_le {line : Line} {construct : Construct} {bodyStart : Text}
    (opens : line.Opens construct bodyStart) (depth : Nat) (cursor : List Line) :
    openAfter (openFrom false 1 bodyStart) cursor ≤ openAfter depth (line :: cursor) := by
  obtain ⟨before, same, outside⟩ := opens.behind_brace
  rw [openAfter, same, openFrom_brace depth bodyStart outside]
  apply openAfter_mono
  apply openFrom_mono
  omega

/-- Collecting the block of a header gives a balanced body, or the block is not closed. -/
theorem collect_cases (construct : Construct) (opened : Nat) (bodyStart : Text)
    (cursor : List Line) :
    (∃ body rest, collect construct opened bodyStart cursor = .ok (body, rest) ∧ Balanced body ∧
      openAfter 0 rest = openAfter (openFrom false 1 bodyStart) cursor) ∨
    collect construct opened bodyStart cursor =
        .error (.fatal (.unterminatedBlock construct opened)) ∧
      openAfter (openFrom false 1 bodyStart) cursor ≠ 0 := by
  have result := collectFrom_cases construct opened Nat.one_pos
    (Cursor.push? (Line.trimmed? opened bodyStart) cursor)
  rw [openAfter_push?] at result
  exact result

theorem eq_of_collect_error {construct : Construct} {opened : Nat} {bodyStart : Text}
    {cursor : Cursor} {halt : Halt}
    (failed : collect construct opened bodyStart cursor = .error halt) :
    halt = .fatal (.unterminatedBlock construct opened) := by
  rcases collect_cases construct opened bodyStart cursor with ⟨_, _, found, _⟩ | ⟨found, _⟩
  · rw [found] at failed
    cases failed
  · rw [found] at failed
    cases failed
    rfl

theorem of_collect_ok {construct : Construct} {opened : Nat} {bodyStart : Text}
    {cursor body rest : List Line}
    (collected : collect construct opened bodyStart cursor = .ok (body, rest)) :
    Balanced body ∧ openAfter 0 rest = openAfter (openFrom false 1 bodyStart) cursor := by
  rcases collect_cases construct opened bodyStart cursor with
    ⟨body', rest', found, balanced, left⟩ | ⟨failed, _⟩
  · rw [found] at collected
    cases collected
    exact ⟨balanced, left⟩
  · rw [failed] at collected
    cases collected

theorem balanced_of_collect {construct : Construct} {opened : Nat} {bodyStart : Text}
    {cursor body rest : List Line}
    (collected : collect construct opened bodyStart cursor = .ok (body, rest)) : Balanced body :=
  (of_collect_ok collected).1

theorem scanLines?_openAfter {depth reached : Nat} {lines : List Line} (positive : 0 < depth)
    (inside : scanLines? depth lines = some (.inside reached)) :
    0 < reached ∧ openAfter (depth - 1) lines = reached - 1 := by
  induction lines generalizing depth with
  | nil =>
      cases inside
      exact ⟨positive, rfl⟩
  | cons line rest ih =>
      rw [scanLines?] at inside
      split at inside
      next deeper scanned =>
        obtain ⟨still, counts⟩ := openFrom_of_inside positive scanned
        obtain ⟨final, left⟩ := ih still inside
        have count := counts 0
        rw [Nat.add_zero, Nat.add_zero] at count
        exact ⟨final, by rw [openAfter, count, left]⟩
      next stopped =>
        rw [inside] at stopped
        exact absurd rfl (stopped reached)

theorem Balanced.closed {lines : List Line} (balanced : Balanced lines) : Closed lines :=
  (scanLines?_openAfter Nat.one_pos balanced).2

theorem Closed.tail {line : Line} {cursor : List Line} (closed : Closed (line :: cursor)) :
    Closed cursor := by
  have le := openAfter_mono (Nat.zero_le (openFrom false 0 line.text)) cursor
  have zero : openAfter (openFrom false 0 line.text) cursor = 0 := closed
  rw [Closed]
  omega

theorem Closed.collect {line : Line} {construct : Construct} {bodyStart : Text}
    {cursor : List Line} (closed : Closed (line :: cursor))
    (opens : line.Opens construct bodyStart) :
    (∀ body rest, collect construct line.number bodyStart cursor = .ok (body, rest) →
      Closed rest) ∧
    ∀ halt, collect construct line.number bodyStart cursor ≠ .error halt := by
  have le := openAfter_opens_le opens 0 cursor
  have zero : openAfter 0 (line :: cursor) = 0 := closed
  constructor
  · intro body rest collected
    rw [Closed, (of_collect_ok collected).2]
    omega
  · intro halt failed
    rcases collect_cases construct line.number bodyStart cursor with
      ⟨body, rest, found, _⟩ | ⟨_, left⟩
    · rw [found] at failed
      cases failed
    · omega

end Block

def Statement.action? : Statement → Option Action
  | .callDeclaration kind name value => some (.declareCall kind name value)
  | .print value => some (.print value)
  | .declaration kind name value => some (.declare kind name value)
  | .call value => some (.call value)
  | .result value => some (.result value)
  | .unknown => some .unknown
  | .function _ _ | .branch _ _ | .otherwise _ => none

/-- What a header does before its block is collected. -/
def Statement.prelude : Statement → Prelude
  | .branch condition _ => .condition condition
  | .otherwise _ => .strayElse
  | _ => .nothing

inductive Line.Asks (line : Line) : Action → Prop
  | statement {statement : Statement} {work : Action} : Statement.ofLine line = .ok statement →
      statement.action? = some work → Line.Asks line work
  | malformed {fault : SyntaxFault} : Statement.ofLine line = .error (.malformed fault) →
      Line.Asks line (.malformed fault)

def Action.Fits (reports : Reports) (line : Line) : Action → Prop
  | .print value => value.Fits reports
  | .declare _ name value =>
      value.Fits reports ∧ reports.names name ∧ reports.faults (.invalidNumber name) ∧
        reports.faults (.invalidBoolean name)
  | .declareCall kind name value =>
      value.Fits reports ∧ reports.names name ∧
        ∀ found, reports.faults (.typeMismatch name kind found)
  | .call value => value.Fits reports
  | .result value =>
      (∀ fragment ∈ value.toList, fragment.Fits reports) ∧ reports.lines line.number ∧
        reports.faults .returnOutsideFunction
  | .unknown => reports.lines line.number ∧ reports.faults (.unknownCommand line.text)
  | .malformed fault => reports.lines line.number ∧ reports.faults (.malformed fault)

def Prelude.Fits (reports : Reports) (line : Line) : Prelude → Prop
  | .nothing => True
  | .condition value => value.Fits reports
  | .strayElse => reports.lines line.number ∧ reports.faults .elseWithoutIf

structure Line.Fits (reports : Reports) (line : Line) : Prop where
  action : ∀ work, line.Asks work → work.Fits reports line
  «prelude» : ∀ statement, Statement.ofLine line = .ok statement →
    statement.prelude.Fits reports line

/-- What a line can report of its text may be reported, whatever statement it is: the line itself,
what a fragment of it can report, and what is wrong with a name in it, which may be bound. -/
structure Reports.Allows (reports : Reports) (line : Line) : Prop where
  onLine : reports.lines line.number
  outside : reports.faults .returnOutsideFunction
  stray : reports.faults .elseWithoutIf
  command : reports.faults (.unknownCommand line.text)
  malformed : ∀ part, Lexer.Stuck line.text part → reports.faults (.malformed (.invalid part))
  fragment : ∀ found (fragment : Fragment), Lexer.Cut 0 line.text found →
    fragment.CutFrom line.text found line.number → fragment.Fits reports
  declared : ∀ found name, Lexer.Cut 0 line.text found → .name name ∈ found.map Lexeme.token →
    reports.names name ∧ reports.faults (.invalidNumber name) ∧
      reports.faults (.invalidBoolean name) ∧
      ∀ kind found, reports.faults (.typeMismatch name kind found)

theorem Reports.Allows.fits {reports : Reports} {line : Line} (allows : reports.Allows line) :
    line.Fits reports where
  action work asked := by
    cases asked with
    | malformed refused =>
        obtain ⟨part, stuck, rfl⟩ := Statement.ofLine_malformed_stuck refused
        exact ⟨allows.onLine, allows.malformed part stuck⟩
    | @statement statement work recognized asks =>
        obtain ⟨found, cut, inner, names, _⟩ := Statement.ofLine_ok_placed recognized
        have fits (fragment : Fragment) (member : fragment ∈ statement.fragments) :
            fragment.Fits reports := allows.fragment found fragment cut (inner fragment member)
        have declared (name : Text) (member : name ∈ statement.names) :=
          allows.declared found name cut (names name member)
        cases statement with
        | callDeclaration kind name value =>
            cases asks
            obtain ⟨bound, _, _, mismatch⟩ := declared name List.mem_cons_self
            exact ⟨fits value List.mem_cons_self, bound, mismatch kind⟩
        | print value =>
            cases asks
            exact fits value List.mem_cons_self
        | declaration kind name value =>
            cases asks
            obtain ⟨bound, number, boolean, _⟩ := declared name List.mem_cons_self
            exact ⟨fits value List.mem_cons_self, bound, number, boolean⟩
        | call value =>
            cases asks
            exact fits value List.mem_cons_self
        | result value =>
            cases asks
            exact ⟨fits, allows.onLine, allows.outside⟩
        | unknown =>
            cases asks
            exact ⟨allows.onLine, allows.command⟩
        | function | branch | otherwise => cases asks
  «prelude» statement recognized := by
    obtain ⟨found, cut, inner, _⟩ := Statement.ofLine_ok_placed recognized
    cases statement with
    | branch condition bodyStart =>
        exact allows.fragment found condition cut (inner condition List.mem_cons_self)
    | otherwise bodyStart => exact ⟨allows.onLine, allows.stray⟩
    | _ => trivial

theorem Reports.allows_any (line : Line) : any.Allows line where
  onLine := trivial
  outside := trivial
  stray := trivial
  command := trivial
  malformed _ _ := trivial
  fragment _ _ _ cut := cut.placed.fits_any
  declared _ _ _ _ := ⟨trivial, trivial, trivial, fun _ _ => trivial⟩

theorem Line.fits_any (line : Line) : line.Fits .any := (Reports.allows_any line).fits

namespace Item

inductive Shape (line : Line) (cursor : List Line) : Item → Prop
  | action {work : Action} : line.Asks work → Shape line cursor (.action work cursor)
  | definition {header : Header} {bodyStart : Text} {body rest : List Line} :
      Statement.ofLine line = .ok (.function header bodyStart) →
      Block.collect .function line.number bodyStart cursor = .ok (body, rest) →
      Shape line cursor (.definition header body rest)
  | branch {condition : Fragment} {bodyStart : Text} {yes rest : List Line} :
      Statement.ofLine line = .ok (.branch condition bodyStart) →
      Block.collect .branch line.number bodyStart cursor = .ok (yes, rest) →
      Shape line cursor (.branch condition yes [] rest)
  | alternative {condition : Fragment} {bodyStart elseStart : Text} {elseLine : Line}
      {yes between no rest : List Line} :
      Statement.ofLine line = .ok (.branch condition bodyStart) →
      Block.collect .branch line.number bodyStart cursor = .ok (yes, elseLine :: between) →
      elseLine.Opens .otherwise elseStart →
      Block.collect .otherwise elseLine.number elseStart between = .ok (no, rest) →
      Shape line cursor (.branch condition yes no rest)
  | strayElse {bodyStart : Text} {body rest : List Line} :
      Statement.ofLine line = .ok (.otherwise bodyStart) →
      Block.collect .otherwise line.number bodyStart cursor = .ok (body, rest) →
      Shape line cursor (.strayElse rest)
  | broken {statement : Statement} {construct : Construct} {bodyStart : Text} {halt : Halt} :
      Statement.ofLine line = .ok statement → statement.opens? = some (construct, bodyStart) →
      Block.collect construct line.number bodyStart cursor = .error halt →
      Shape line cursor (.broken statement.prelude halt)
  | brokenElse {condition : Fragment} {bodyStart elseStart : Text} {elseLine : Line}
      {yes between : List Line} {halt : Halt} :
      Statement.ofLine line = .ok (.branch condition bodyStart) →
      Block.collect .branch line.number bodyStart cursor = .ok (yes, elseLine :: between) →
      elseLine.Opens .otherwise elseStart →
      Block.collect .otherwise elseLine.number elseStart between = .error halt →
      Shape line cursor (.broken (.condition condition) halt)

theorem elseHeader?_eq_some {cursor rest : List Line} {line : Line} {bodyStart : Text}
    (found : elseHeader? cursor = some (line, bodyStart, rest)) :
    cursor = line :: rest ∧ line.Opens .otherwise bodyStart := by
  cases cursor with
  | nil => cases found
  | cons first others =>
      simp only [elseHeader?] at found
      split at found
      next start recognized =>
        cases found
        exact ⟨rfl, _, recognized, rfl⟩
      next => cases found

theorem readBranch_shape {line : Line} {condition : Fragment} {bodyStart : Text}
    (cursor : List Line) (recognized : Statement.ofLine line = .ok (.branch condition bodyStart)) :
    Shape line cursor (readBranch line condition bodyStart cursor) := by
  unfold readBranch
  split
  next halt failed => exact .broken recognized rfl failed
  next yes afterYes collected =>
    split
    next => exact .branch recognized collected
    next elseLine elseStart afterElse header =>
      obtain ⟨rfl, elseOpens⟩ := elseHeader?_eq_some header
      split
      next halt failed => exact .brokenElse recognized collected elseOpens failed
      next no rest found => exact .alternative recognized collected elseOpens found

theorem read_shape (line : Line) (cursor : List Line) : Shape line cursor (read line cursor) := by
  rcases Statement.ofLine_placed line with ⟨_, _, failed⟩ | ⟨_, statement, _, recognized, _⟩
  · rw [Item.read, failed]
    exact .action (.malformed failed)
  · rw [Item.read, recognized]
    cases statement with
    | function header bodyStart =>
        dsimp only
        split
        next failed => exact .broken recognized rfl failed
        next collected => exact .definition recognized collected
    | branch condition bodyStart => exact readBranch_shape cursor recognized
    | otherwise bodyStart =>
        dsimp only
        split
        next failed => exact .broken recognized rfl failed
        next collected => exact .strayElse recognized collected
    | callDeclaration kind name value => exact .action (.statement recognized rfl)
    | print value => exact .action (.statement recognized rfl)
    | declaration kind name value => exact .action (.statement recognized rfl)
    | call value => exact .action (.statement recognized rfl)
    | result value => exact .action (.statement recognized rfl)
    | unknown => exact .action (.statement recognized rfl)

/-- What the parts of an item of a line satisfy: what is reported, the lines that are executed or
read next, the function that is defined, and the reason of a halt. -/
def Sound (reports : Reports) (kept : List Line → Prop) (good : Function → Prop)
    (allowed : Halt → Prop) (line : Line) : Item → Prop
  | .action work rest => work.Fits reports line ∧ kept rest
  | .definition header body rest => good ⟨header, body, line.number⟩ ∧ kept rest
  | .branch condition yes no rest => condition.Fits reports ∧ kept yes ∧ kept no ∧ kept rest
  | .strayElse rest => Prelude.strayElse.Fits reports line ∧ kept rest
  | .broken before halt => before.Fits reports line ∧ allowed halt

variable {reports : Reports} {good : Function → Prop} {line : Line}

theorem Sound.mono {kept more : List Line → Prop} {allowed others : Halt → Prop} {item : Item}
    (sound : item.Sound reports kept good allowed line) (wider : ∀ lines, kept lines → more lines)
    (le : ∀ halt, allowed halt → others halt) : item.Sound reports more good others line := by
  cases item with
  | action work rest => exact ⟨sound.1, wider _ sound.2⟩
  | definition header body rest => exact ⟨sound.1, wider _ sound.2⟩
  | branch condition yes no rest =>
      obtain ⟨fits, soundYes, soundNo, later⟩ := sound
      exact ⟨fits, wider _ soundYes, wider _ soundNo, wider _ later⟩
  | strayElse rest => exact ⟨sound.1, wider _ sound.2⟩
  | broken before halt => exact ⟨sound.1, le halt sound.2⟩

end Item

namespace Code

/-- Everything that the code reports may be reported, every function that it defines has a property,
and wherever it ends early the reason is an allowed one. -/
def Sound (reports : Reports) (good : Function → Prop) (allowed : Halt → Prop) : Code → Prop
  | .done => True
  | .action line work next => work.Fits reports line ∧ Sound reports good allowed next
  | .definition _ function next => good function ∧ Sound reports good allowed next
  | .branch _ condition yes no next =>
      condition.Fits reports ∧ Sound reports good allowed yes ∧ Sound reports good allowed no ∧
        Sound reports good allowed next
  | .strayElse line next =>
      Prelude.strayElse.Fits reports line ∧ Sound reports good allowed next
  | .broken line before halt => before.Fits reports line ∧ allowed halt

variable {reports : Reports} {good : Function → Prop}

/-- Code is sound if the items of all lines with a property are, and hand the property on. -/
theorem sound_ofLines {kept : List Line → Prop} {allowed : Halt → Prop}
    (step : ∀ line cursor, kept (line :: cursor) →
      (Item.read line cursor).Sound reports kept good allowed line)
    {lines : List Line} (start : kept lines) : (ofLines lines).Sound reports good allowed := by
  fun_induction ofLines lines with
  | case1 => trivial
  | case2 line cursor work rest read ih =>
      have item := step line cursor start
      rw [read] at item
      exact ⟨item.1, ih item.2⟩
  | case3 line cursor header body rest read ih =>
      have item := step line cursor start
      rw [read] at item
      exact ⟨item.1, ih item.2⟩
  | case4 line cursor condition yes no rest read ihYes ihNo ihRest =>
      have item := step line cursor start
      rw [read] at item
      exact ⟨item.1, ihYes item.2.1, ihNo item.2.2.1, ihRest item.2.2.2⟩
  | case5 line cursor rest read ih =>
      have item := step line cursor start
      rw [read] at item
      exact ⟨item.1, ih item.2⟩
  | case6 line cursor before halt read =>
      have item := step line cursor start
      rw [read] at item
      exact item

theorem Sound.mono {allowed more : Halt → Prop} {code : Code}
    (sound : code.Sound reports good allowed) (le : ∀ halt, allowed halt → more halt) :
    code.Sound reports good more := by
  induction code with
  | done => trivial
  | action line work next ih => exact ⟨sound.1, ih sound.2⟩
  | definition line function next ih => exact ⟨sound.1, ih sound.2⟩
  | branch line condition yes no next ihYes ihNo ihNext =>
      obtain ⟨fits, soundYes, soundNo, later⟩ := sound
      exact ⟨fits, ihYes soundYes, ihNo soundNo, ihNext later⟩
  | strayElse line next ih => exact ⟨sound.1, ih sound.2⟩
  | broken line before halt => exact ⟨sound.1, le halt sound.2⟩

end Code

end Purr
