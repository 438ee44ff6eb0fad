import Purr.Proofs.Positions
import Purr.Statement

/-!
# What statements are made of

A line of any text is recognized without a cut out of range: either it is not made of tokens, or it
is a statement whose fragments are parts of the line and whose names are tokens of it. The block of
a header begins right after an opening brace of the line that is a token.
-/

namespace Purr.Statement

set_option autoImplicit false

def fragments : Statement → List Fragment
  | .callDeclaration _ _ value => [value]
  | .print value => [value]
  | .declaration _ _ value => [value]
  | .call value => [value]
  | .branch condition _ => [condition]
  | .result value => value.toList
  | .function _ _ | .otherwise _ | .unknown => []

def names : Statement → List Text
  | .function header _ => [header.name]
  | .callDeclaration _ name _ | .declaration _ name _ => [name]
  | .print _ | .call _ | .branch _ _ | .otherwise _ | .result _ | .unknown => []

/-- A statement of a text and its lexemes, on a line with a number: its fragments are cut out of the
text, the name that it declares is a token, and its block begins after an opening brace. -/
structure Placed (text : Text) (lexemes : List Lexeme) (number : Nat) (statement : Statement) :
    Prop where
  fragments : ∀ fragment ∈ statement.fragments, fragment.CutFrom text lexemes number
  names : ∀ name ∈ statement.names, .name name ∈ lexemes.map Lexeme.token
  block : ∀ bodyStart, statement.blockStart? = some bodyStart →
    ∃ brace, ⟨.leftBrace, brace⟩ ∈ lexemes ∧ text.dropBytes? brace.stop = some bodyStart

/-- A form that is tried without a cut out of range and fits placed statements only. -/
def FormPlaced (text : Text) (lexemes : List Lexeme) (number : Nat) (form : Form) : Prop :=
  ∃ found, form = .ok found ∧
    ∀ statement, found = some statement → Placed text lexemes number statement

variable {text : Text} {lexemes : List Lexeme} {number : Nat}

theorem FormPlaced.none : FormPlaced text lexemes number (.ok none) :=
  ⟨_, rfl, by intro statement same; cases same⟩

theorem FormPlaced.some {statement : Statement} (placed : Placed text lexemes number statement) :
    FormPlaced text lexemes number (.ok (some statement)) := by
  refine ⟨_, rfl, ?_⟩
  rintro other same
  obtain rfl := Option.some.inj same
  exact placed

theorem exists_of_firstOf {forms : List Form}
    (placed : ∀ form ∈ forms, FormPlaced text lexemes number form) :
    ∃ statement, firstOf forms = .ok statement ∧ Placed text lexemes number statement := by
  induction forms with
  | nil => exact ⟨.unknown, rfl, nofun, nofun, nofun⟩
  | cons form rest ih =>
      obtain ⟨first, others⟩ := List.forall_mem_cons.1 placed
      obtain ⟨found, rfl, fits⟩ := first
      cases found with
      | none => exact ih others
      | some statement => exact ⟨statement, rfl, fits statement rfl⟩

theorem prefix_of_beforeSemicolon? {before : List Lexeme}
    (found : beforeSemicolon? lexemes = some before) : before <+: lexemes := by
  unfold beforeSemicolon? at found
  split at found
  next =>
    obtain rfl := Option.some.inj found
    exact List.dropLast_prefix lexemes
  next => cases found

theorem prefix_of_beforeOnlySemicolon? {before : List Lexeme}
    (found : beforeOnlySemicolon? lexemes = some before) : before <+: lexemes := by
  obtain ⟨found, _⟩ := Option.filter_eq_some_iff.1 found
  exact prefix_of_beforeSemicolon? found

theorem infix_of_declared? {kind : Kind} {name : Text} {value : List Lexeme}
    (found : declared? lexemes = some (kind, name, value)) : value <:+: lexemes := by
  unfold declared? at found
  split at found
  next rest =>
    split at found
    next only =>
      cases found
      have part := (prefix_of_beforeOnlySemicolon? only).isInfix
      exact List.infix_cons (List.infix_cons (List.infix_cons part))
    next => cases found
  next => cases found

theorem name_mem_of_declared? {kind : Kind} {name : Text} {value : List Lexeme}
    (found : declared? lexemes = some (kind, name, value)) :
    .name name ∈ lexemes.map Lexeme.token := by
  unfold declared? at found
  split at found
  next rest =>
    split at found
    next =>
      cases found
      exact List.mem_cons_of_mem _ List.mem_cons_self
    next => cases found
  next => cases found

theorem infix_of_printed? {value : List Lexeme} (found : printed? lexemes = some value) :
    value <:+: lexemes := by
  unfold printed? at found
  split at found
  next rest =>
    have part := (prefix_of_beforeOnlySemicolon? found).isInfix
    exact List.infix_cons (List.infix_cons part)
  next => cases found

theorem infix_of_called? {value : List Lexeme} (found : called? lexemes = some value) :
    value <:+: lexemes := by
  obtain ⟨found, _⟩ := Option.filter_eq_some_iff.1 found
  exact (prefix_of_beforeSemicolon? found).isInfix

theorem infix_of_returned? {value : List Lexeme} (found : returned? lexemes = some value) :
    value <:+: lexemes := by
  unfold returned? at found
  split at found
  next rest =>
    have part : (beforeSemicolon? rest).getD rest <+: rest := by
      cases before : beforeSemicolon? rest with
      | none => exact List.prefix_refl rest
      | some part => exact prefix_of_beforeSemicolon? before
    dsimp only at found
    split at found
    next => cases found
    next =>
      obtain rfl := Option.some.inj found
      exact List.infix_cons part.isInfix
  next => cases found

theorem closingBrace?_bounds {later : List Lexeme} {opening close : Nat} {span brace : Span}
    (first : lexemes.drop opening = ⟨.leftParen, span⟩ :: later)
    (found : closingBrace? lexemes opening = some (close, brace)) :
    opening < close ∧ close < lexemes.length ∧ ⟨.leftBrace, brace⟩ ∈ lexemes := by
  unfold closingBrace? at found
  split at found
  next position closes =>
    split at found
    next braced =>
      cases found
      obtain ⟨lower, upper⟩ := matchingParen?_bounds first closes
      exact ⟨lower, upper, List.mem_of_getElem? braced⟩
    next => cases found
  next => cases found

theorem dropBytes?_of_mem {lexeme : Lexeme} (within : Within 0 text lexemes)
    (member : lexeme ∈ lexemes) : ∃ after, text.dropBytes? lexeme.span.stop = some after := by
  obtain ⟨earlier, later, rfl⟩ := List.append_of_mem member
  obtain ⟨gap, word, after, rfl, first, last, _⟩ := within.append_right
  refine ⟨after, ?_⟩
  rw [last, first, Nat.zero_add, ← Text.byteLength_append]
  exact Text.dropBytes?_append _ after

theorem withFragment_placed {run : List Lexeme} {make : Fragment → Option Statement}
    (within : Within 0 text lexemes) (part : run <:+: lexemes)
    (plain : ∀ fragment statement, make fragment = some statement →
      statement.fragments = [fragment] ∧ statement.blockStart? = none ∧
        ∀ name ∈ statement.names, .name name ∈ lexemes.map Lexeme.token) :
    FormPlaced text lexemes number (withFragment text number run make) := by
  obtain ⟨fragment, found, cut⟩ := Fragment.ofLexemes?_of_within number within part
  refine ⟨make fragment, ?_, ?_⟩
  · rw [withFragment, found]
    rfl
  · intro statement made
    obtain ⟨only, noBlock, named⟩ := plain fragment statement made
    refine ⟨?_, named, ?_⟩
    · rw [only]
      simpa using cut
    · intro bodyStart start
      rw [noBlock] at start
      cases start

theorem functionForm_placed (within : Within 0 text lexemes) :
    FormPlaced text lexemes number (functionForm text lexemes) := by
  unfold functionForm
  split
  next name returnKind close brace parts =>
    unfold functionParts? at parts
    split at parts
    next rest =>
      split at parts
      next braced =>
        cases parts
        obtain ⟨lower, upper, member⟩ := closingBrace?_bounds rfl braced
        obtain ⟨inner, between, _⟩ := between?_of_bounds _ lower (Nat.le_of_lt upper)
        obtain ⟨bodyStart, dropped⟩ := dropBytes?_of_mem within member
        rw [between, dropped]
        refine .some ⟨nofun, ?_, ?_⟩
        · intro name declared
          rw [List.mem_singleton.1 declared]
          exact List.mem_cons_of_mem _ List.mem_cons_self
        · intro start same
          cases same
          exact ⟨brace, member, dropped⟩
      next => cases parts
    next => cases parts
  next => exact .none

theorem branchForm_placed (within : Within 0 text lexemes) :
    FormPlaced text lexemes number (branchForm text number lexemes) := by
  unfold branchForm
  split
  next close brace parts =>
    unfold branchParts? at parts
    split at parts
    next rest =>
      obtain ⟨lower, upper, member⟩ := closingBrace?_bounds rfl parts
      obtain ⟨inner, between, part⟩ := between?_of_bounds _ lower (Nat.le_of_lt upper)
      obtain ⟨condition, found, cut⟩ := Fragment.ofLexemes?_of_within number within part
      obtain ⟨bodyStart, dropped⟩ := dropBytes?_of_mem within member
      simp only [between, inRange_some, pure_bind, found, dropped]
      refine .some ⟨by simpa [Statement.fragments] using cut, nofun, ?_⟩
      intro start same
      cases same
      exact ⟨brace, member, dropped⟩
    next => cases parts
  next => exact .none

theorem otherwiseForm_placed (within : Within 0 text lexemes) :
    FormPlaced text lexemes number (otherwiseForm text lexemes) := by
  unfold otherwiseForm
  split
  next brace header =>
    unfold otherwiseBrace? at header
    split at header
    next rest =>
      obtain rfl := Option.some.inj header
      obtain ⟨bodyStart, dropped⟩ :=
        dropBytes?_of_mem within (List.mem_cons_of_mem _ List.mem_cons_self)
      dsimp only at dropped
      rw [dropped]
      refine .some ⟨nofun, nofun, ?_⟩
      intro start same
      cases same
      exact ⟨_, List.mem_cons_of_mem _ List.mem_cons_self, dropped⟩
    next => cases header
  next => exact .none

theorem callDeclarationForm_placed (within : Within 0 text lexemes) :
    FormPlaced text lexemes number (callDeclarationForm text number lexemes) := by
  unfold callDeclarationForm
  split
  next declared =>
    apply withFragment_placed within (infix_of_declared? declared)
    intro fragment statement made
    split at made
    next =>
      cases made
      exact ⟨rfl, rfl, by simpa [Statement.names] using name_mem_of_declared? declared⟩
    next => cases made
  next => exact .none

theorem printForm_placed (within : Within 0 text lexemes) :
    FormPlaced text lexemes number (printForm text number lexemes) := by
  unfold printForm
  split
  next printed =>
    apply withFragment_placed within (infix_of_printed? printed)
    intro fragment statement made
    cases made
    exact ⟨rfl, rfl, nofun⟩
  next => exact .none

theorem declarationForm_placed (within : Within 0 text lexemes) :
    FormPlaced text lexemes number (declarationForm text number lexemes) := by
  unfold declarationForm
  split
  next declared =>
    apply withFragment_placed within (infix_of_declared? declared)
    intro fragment statement made
    cases made
    exact ⟨rfl, rfl, by simpa [Statement.names] using name_mem_of_declared? declared⟩
  next => exact .none

theorem callForm_placed (within : Within 0 text lexemes) :
    FormPlaced text lexemes number (callForm text number lexemes) := by
  unfold callForm
  split
  next called =>
    apply withFragment_placed within (infix_of_called? called)
    intro fragment statement made
    cases made
    exact ⟨rfl, rfl, nofun⟩
  next => exact .none

theorem resultForm_placed (within : Within 0 text lexemes) :
    FormPlaced text lexemes number (resultForm text number lexemes) := by
  unfold resultForm
  split
  next => exact .some ⟨nofun, nofun, nofun⟩
  next returned =>
    apply withFragment_placed within (infix_of_returned? returned)
    intro fragment statement made
    cases made
    exact ⟨rfl, rfl, nofun⟩
  next => exact .none

theorem forms_placed (number : Nat) (within : Within 0 text lexemes) :
    ∃ statement, ofLexemes text number lexemes = .ok statement ∧
      Placed text lexemes number statement := by
  apply exists_of_firstOf
  simp only [List.forall_mem_cons, List.not_mem_nil, false_implies, implies_true, and_true]
  exact ⟨functionForm_placed within, callDeclarationForm_placed within, printForm_placed within,
    declarationForm_placed within, callForm_placed within, branchForm_placed within,
    otherwiseForm_placed within, resultForm_placed within⟩

/-- Every line is stuck at a part of it, or a statement whose parts lie in its text. -/
theorem ofLine_placed (line : Line) :
    (∃ part, Lexer.Stuck line.text part ∧ ofLine line = .error (.malformed (.invalid part))) ∨
      ∃ found statement, Lexer.Cut 0 line.text found ∧ ofLine line = .ok statement ∧
        Placed line.text found line.number statement := by
  cases read : lexemes line.text with
  | error refusal =>
      obtain ⟨part, rfl, stuck⟩ := Lexer.lexemes_eq_error_iff.1 read
      exact .inl ⟨part, stuck, by rw [ofLine, read]; rfl⟩
  | ok found =>
      have cut := Lexer.lexemes_eq_ok_iff.1 read
      obtain ⟨statement, recognized, placed⟩ := forms_placed line.number cut.within
      exact .inr ⟨found, statement, cut, by rw [ofLine, read]; exact recognized, placed⟩

theorem ofLine_ok_placed {line : Line} {statement : Statement}
    (recognized : ofLine line = .ok statement) :
    ∃ found, Lexer.Cut 0 line.text found ∧ Placed line.text found line.number statement := by
  rcases ofLine_placed line with ⟨_, _, failed⟩ | ⟨found, other, cut, read, placed⟩
  · rw [failed] at recognized
    cases recognized
  · rw [read] at recognized
    obtain rfl := Except.ok.inj recognized
    exact ⟨found, cut, placed⟩

theorem ofLine_malformed_stuck {line : Line} {fault : SyntaxFault}
    (refused : ofLine line = .error (.malformed fault)) :
    ∃ part, Lexer.Stuck line.text part ∧ fault = .invalid part := by
  rcases ofLine_placed line with ⟨part, stuck, failed⟩ | ⟨_, _, _, read, _⟩
  · rw [failed] at refused
    cases refused
    exact ⟨part, stuck, rfl⟩
  · rw [read] at refused
    cases refused

end Purr.Statement
