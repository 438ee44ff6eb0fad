import Purr.Statement

/-!
# What lines are recognized from

A line that is recognized as a statement has the shape of the statement's form: `Recognized` says
of each form which runs of lexemes its expressions are cut out of, and behind which brace its block
begins. So a block begins with less than the text of its header's line, and reading the block of a
header comes to an end.
-/

namespace Purr

namespace Statement

set_option autoImplicit false

theorem mem_of_firstOf {forms : List Form} {statement : Statement}
    (first : firstOf forms = .ok statement) :
    statement = .unknown ∨ .ok (some statement) ∈ forms := by
  induction forms with
  | nil => cases first; exact .inl rfl
  | cons form rest ih =>
    match form, first with
    | .ok (some _), first => cases first; exact .inr (List.mem_cons_self ..)
    | .ok none, first => exact (ih first).imp_right (List.mem_cons_of_mem _)

theorem made_of_withFragment {text : Text} {number : Nat} {run : List Lexeme}
    {make : Fragment → Option Statement} {statement : Statement}
    (fits : withFragment text number run make = .ok (some statement)) :
    ∃ fragment, Fragment.ofLexemes? text run number = some fragment ∧
      make fragment = some statement := by
  obtain ⟨fragment, found, made⟩ := bind_eq_ok_iff.1 fits
  exact ⟨fragment, inRange_eq_ok_iff.1 found, pure_eq_ok_iff.1 made⟩

theorem length_lt_of_dropped {text bodyStart : Text} {brace : Span}
    (dropped : text.dropBytes? brace.stop = some bodyStart) : bodyStart.length < text.length :=
  Text.length_lt_of_dropBytes? (Nat.lt_of_le_of_lt (Nat.zero_le _) brace.nonempty) dropped

/-- What a line of each form has to be. -/
inductive Recognized (text : Text) (number : Nat) (lexemes : List Lexeme) : Statement → Prop
  | function {name : Text} {kind : ReturnKind} {close : Nat} {brace : Span} {inner : List Lexeme}
      {bodyStart : Text} : functionParts? lexemes = some (name, kind, close, brace) →
      between? lexemes 3 close = some inner → text.dropBytes? brace.stop = some bodyStart →
      Recognized text number lexemes (.function ⟨name, kind, parameters inner⟩ bodyStart)
  | callDeclaration {kind : Kind} {name : Text} {run : List Lexeme} {call : Fragment} :
      declared? lexemes = some (kind, name, run) →
      Fragment.ofLexemes? text run number = some call → isSingleCall call.lexemes = true →
      Recognized text number lexemes (.callDeclaration kind name call)
  | print {run : List Lexeme} {value : Fragment} : printed? lexemes = some run →
      Fragment.ofLexemes? text run number = some value →
      Recognized text number lexemes (.print value)
  | declaration {kind : Kind} {name : Text} {run : List Lexeme} {value : Fragment} :
      declared? lexemes = some (kind, name, run) →
      Fragment.ofLexemes? text run number = some value →
      Recognized text number lexemes (.declaration kind name value)
  | call {run : List Lexeme} {call : Fragment} : called? lexemes = some run →
      Fragment.ofLexemes? text run number = some call →
      Recognized text number lexemes (.call call)
  | branch {close : Nat} {brace : Span} {inner : List Lexeme} {condition : Fragment}
      {bodyStart : Text} : branchParts? lexemes = some (close, brace) →
      between? lexemes 2 close = some inner →
      Fragment.ofLexemes? text inner number = some condition →
      text.dropBytes? brace.stop = some bodyStart →
      Recognized text number lexemes (.branch condition bodyStart)
  | otherwise {brace : Span} {bodyStart : Text} : otherwiseBrace? lexemes = some brace →
      text.dropBytes? brace.stop = some bodyStart →
      Recognized text number lexemes (.otherwise bodyStart)
  | nothing : returned? lexemes = some [] → Recognized text number lexemes (.result none)
  | result {run : List Lexeme} {value : Fragment} : returned? lexemes = some run →
      Fragment.ofLexemes? text run number = some value →
      Recognized text number lexemes (.result (some value))
  | unknown : Recognized text number lexemes .unknown

section

variable {text : Text} {number : Nat} {lexemes : List Lexeme} {statement : Statement}

theorem recognized_function (fits : functionForm text lexemes = .ok (some statement)) :
    Recognized text number lexemes statement := by
  unfold functionForm at fits
  split at fits
  next parts =>
    simp only [bind_eq_ok_iff, inRange_eq_ok_iff, pure_eq_ok_iff, Option.some.injEq] at fits
    obtain ⟨_, between, _, dropped, rfl⟩ := fits
    exact .function parts between dropped
  next => cases fits

theorem recognized_branch (fits : branchForm text number lexemes = .ok (some statement)) :
    Recognized text number lexemes statement := by
  unfold branchForm at fits
  split at fits
  next parts =>
    simp only [bind_eq_ok_iff, inRange_eq_ok_iff, pure_eq_ok_iff, Option.some.injEq] at fits
    obtain ⟨_, between, _, found, _, dropped, rfl⟩ := fits
    exact .branch parts between found dropped
  next => cases fits

theorem recognized_otherwise (fits : otherwiseForm text lexemes = .ok (some statement)) :
    Recognized text number lexemes statement := by
  unfold otherwiseForm at fits
  split at fits
  next braced =>
    simp only [bind_eq_ok_iff, inRange_eq_ok_iff, pure_eq_ok_iff, Option.some.injEq] at fits
    obtain ⟨_, dropped, rfl⟩ := fits
    exact .otherwise braced dropped
  next => cases fits

theorem recognized_callDeclaration
    (fits : callDeclarationForm text number lexemes = .ok (some statement)) :
    Recognized text number lexemes statement := by
  unfold callDeclarationForm at fits
  split at fits
  next declared =>
    obtain ⟨_, found, made⟩ := made_of_withFragment fits
    split at made
    next single =>
      cases made
      exact .callDeclaration declared found single
    next => cases made
  next => cases fits

theorem recognized_declaration
    (fits : declarationForm text number lexemes = .ok (some statement)) :
    Recognized text number lexemes statement := by
  unfold declarationForm at fits
  split at fits
  next declared =>
    obtain ⟨_, found, made⟩ := made_of_withFragment fits
    cases made
    exact .declaration declared found
  next => cases fits

theorem recognized_print (fits : printForm text number lexemes = .ok (some statement)) :
    Recognized text number lexemes statement := by
  unfold printForm at fits
  split at fits
  next printed =>
    obtain ⟨_, found, made⟩ := made_of_withFragment fits
    cases made
    exact .print printed found
  next => cases fits

theorem recognized_call (fits : callForm text number lexemes = .ok (some statement)) :
    Recognized text number lexemes statement := by
  unfold callForm at fits
  split at fits
  next called =>
    obtain ⟨_, found, made⟩ := made_of_withFragment fits
    cases made
    exact .call called found
  next => cases fits

theorem recognized_result (fits : resultForm text number lexemes = .ok (some statement)) :
    Recognized text number lexemes statement := by
  unfold resultForm at fits
  split at fits
  next returned =>
    cases fits
    exact .nothing returned
  next returned =>
    obtain ⟨_, found, made⟩ := made_of_withFragment fits
    cases made
    exact .result returned found
  next => cases fits

theorem recognized_of_ofLexemes (read : ofLexemes text number lexemes = .ok statement) :
    Recognized text number lexemes statement := by
  rcases mem_of_firstOf read with rfl | member
  · exact .unknown
  · simp only [List.mem_cons, List.not_mem_nil, or_false, eq_comm (a := Except.ok _)] at member
    rcases member with fits | fits | fits | fits | fits | fits | fits | fits
    · exact recognized_function fits
    · exact recognized_callDeclaration fits
    · exact recognized_print fits
    · exact recognized_declaration fits
    · exact recognized_call fits
    · exact recognized_branch fits
    · exact recognized_otherwise fits
    · exact recognized_result fits

theorem Recognized.length_lt {bodyStart : Text}
    (recognized : Recognized text number lexemes statement)
    (start : statement.blockStart? = some bodyStart) : bodyStart.length < text.length := by
  cases recognized with
  | function _ _ dropped | branch _ _ _ dropped | otherwise _ dropped =>
      cases start
      exact length_lt_of_dropped dropped
  | _ => cases start

end

theorem length_lt_of_ofLine {line : Line} {bodyStart : Text} {statement : Statement}
    (recognized : ofLine line = .ok statement)
    (start : statement.blockStart? = some bodyStart) : bodyStart.length < line.text.length := by
  obtain ⟨_, _, read⟩ := bind_eq_ok_iff.1 recognized
  exact (recognized_of_ofLexemes read).length_lt start

end Statement

end Purr
