import Purr.Proofs.Headers
import Purr.Proofs.LineByLine

/-!
# Block structure

Balanced lines between a header and a closing brace are the block of the header, whatever they hold:
they are collected as they are, and what stands behind the brace is read next. So a branch executes
the one block or the other in the scope around it and then what follows, and the header of a
function only defines it.
-/

namespace Purr

set_option autoImplicit false

def closingBrace : Text := ['\x7d']

def closingElse : Text := "\x7d else \x7b".toList

namespace Block

theorem collectFrom_inside (construct : Construct) (opened : Nat) {depth reached : Nat}
    {body : List Line} (rest : List Line)
    (inside : scanLines? depth body = some (.inside reached)) :
    collectFrom construct opened depth (body ++ rest) =
      (collectFrom construct opened reached rest).map fun collected =>
        (body ++ collected.1, collected.2) := by
  induction body generalizing depth with
  | nil =>
      cases inside
      rw [List.nil_append]
      cases collectFrom construct opened reached rest <;> rfl
  | cons line others ih =>
      rw [scanLines?] at inside
      split at inside
      next deeper scanned =>
        rw [List.cons_append, collectFrom, scanned]
        dsimp only
        rw [ih inside]
        cases collectFrom construct opened reached rest <;> rfl
      next stopped =>
        rw [inside] at stopped
        exact absurd rfl (stopped reached)

theorem collectFrom_closing (construct : Construct) (opened number : Nat) (tail : Text)
    (rest : List Line) :
    collectFrom construct opened 1 (⟨number, '\x7d' :: tail⟩ :: rest) =
      .ok ([], Cursor.push? (Line.trimmed? number tail) rest) := by
  have dropped : Text.dropBytes? (0 + 1) ('\x7d' :: tail) = some tail :=
    Text.dropBytes?_append ['\x7d'] tail
  have scanned : scan? 1 ('\x7d' :: tail) = some (.closed 0) := rfl
  have cut : Text.cutAt? 0 ('\x7d' :: tail) = some ([], '\x7d' :: tail) := rfl
  rw [collectFrom, scanned]
  dsimp only
  rw [cut, dropped]
  rfl

theorem collect_balanced (construct : Construct) (opened number : Nat) {body : List Line}
    (balanced : Balanced body) (tail : Text) (rest : List Line) :
    collect construct opened [] (body ++ ⟨number, '\x7d' :: tail⟩ :: rest) =
      .ok (body, Cursor.push? (Line.trimmed? number tail) rest) := by
  have whole := collectFrom_inside construct opened (⟨number, '\x7d' :: tail⟩ :: rest) balanced
  rw [collectFrom_closing] at whole
  rw [collect]
  exact whole.trans (by rw [Except.map, List.append_nil])

end Block

namespace Execution

/-- Evaluates a condition once, executes the one block or the other in the scope around it, and then
the lines that follow, unless the block returned. -/
def branched (depth : Nat) (frame : Option Function) (condition : Fragment)
    (yes no rest : List Line) : Run World Flow := do
  let holds ← World.evaluate fun scope => Evaluation.condition (invoke depth) scope condition
  let flow ← lines depth frame (if holds then yes else no)
  flow.andThen (lines depth frame rest)

variable (depth : Nat) (frame : Option Function)

theorem lines_branch {header : Line} {condition : Fragment} {bodyStart : Text}
    {cursor yes between no rest : List Line}
    (recognized : Statement.ofLine header = .ok (.branch condition bodyStart))
    (collected : Block.collect .branch header.number bodyStart cursor = .ok (yes, between))
    (alternated : alternative between = .ok (no, rest)) :
    lines depth frame (header :: cursor) = branched depth frame condition yes no rest := by
  rw [lines_cons, line, recognized]
  simp only [branchLine, branched, collected, alternated, received_ok, pure_bind, bind_assoc]

theorem lines_function {line : Line} {header : Header} {bodyStart : Text}
    {cursor body rest : List Line}
    (recognized : Statement.ofLine line = .ok (.function header bodyStart))
    (collected : Block.collect .function line.number bodyStart cursor = .ok (body, rest)) :
    lines depth frame (line :: cursor) =
      (World.modifyScope fun scope => scope.define ⟨header, body, line.number⟩) >>= fun _ =>
        lines depth frame rest := by
  rw [lines_cons, Execution.line, recognized]
  simp only [collected, received_ok, pure_bind, bind_assoc]
  rfl

theorem alternative_balanced (between closed : Nat) {other : List Line}
    (balanced : Block.Balanced other) (rest : List Line) :
    alternative (⟨between, "else \x7b".toList⟩ :: (other ++ ⟨closed, closingBrace⟩ :: rest)) =
      .ok (other, rest) := by
  have header : Item.elseHeader?
      (⟨between, "else \x7b".toList⟩ :: (other ++ ⟨closed, closingBrace⟩ :: rest)) =
        some (⟨between, "else \x7b".toList⟩, [], other ++ ⟨closed, closingBrace⟩ :: rest) := rfl
  rw [alternative, header]
  exact Block.collect_balanced .otherwise between closed balanced [] rest

theorem alternative_of_noElse {rest : List Line} (noElse : Item.elseHeader? rest = none) :
    alternative rest = .ok ([], rest) := by
  rw [alternative, noElse]

/-- Balanced lines in braces are the block of the header before them. A branch evaluates its
condition, executes exactly the one block or the other, and goes on behind them; without an `else`
header behind it the other block is empty. The header of a function defines it with exactly the
lines of its block. -/
theorem blocks_are_structured {body : List Line} (balanced : Block.Balanced body)
    (rest : List Line) :
    (∀ other opened between closed condition, Block.Balanced other →
      Enclosed condition (branchHeader condition) →
      ∃ fragment, Fragment.ofText? condition opened = some fragment ∧
        lines depth frame (⟨opened, branchHeader condition⟩ :: (body ++
            ⟨between, closingElse⟩ :: (other ++ ⟨closed, closingBrace⟩ :: rest))) =
          branched depth frame fragment body other rest) ∧
    (∀ opened closed condition, Enclosed condition (branchHeader condition) →
      Item.elseHeader? rest = none →
      ∃ fragment, Fragment.ofText? condition opened = some fragment ∧
        lines depth frame (⟨opened, branchHeader condition⟩ :: (body ++
            ⟨closed, closingBrace⟩ :: rest)) =
          branched depth frame fragment body [] rest) ∧
    ∀ opened closed kind name inner, Lexer.Chosen name (.name name) →
      Enclosed inner (functionHeader kind name inner) →
      ∃ found, lexemes inner = .ok found ∧
        lines depth frame (⟨opened, functionHeader kind name inner⟩ :: (body ++
            ⟨closed, closingBrace⟩ :: rest)) =
          (World.modifyScope fun scope =>
              scope.define ⟨⟨name, kind, Statement.parameters found⟩, body, opened⟩) >>=
            fun _ => lines depth frame rest := by
  refine ⟨?_, ?_, ?_⟩
  · intro other opened between closed condition balancedOther enclosed
    obtain ⟨fragment, found, recognized⟩ := Statement.ofLine_branchHeader opened enclosed
    have collected := Block.collect_balanced .branch opened between balanced " else \x7b".toList
      (other ++ ⟨closed, closingBrace⟩ :: rest)
    exact ⟨fragment, found, lines_branch depth frame recognized collected
      (alternative_balanced between closed balancedOther rest)⟩
  · intro opened closed condition enclosed noElse
    obtain ⟨fragment, found, recognized⟩ := Statement.ofLine_branchHeader opened enclosed
    have collected := Block.collect_balanced .branch opened closed balanced [] rest
    exact ⟨fragment, found, lines_branch depth frame recognized collected
      (alternative_of_noElse noElse)⟩
  · intro opened closed kind name inner named enclosed
    obtain ⟨found, read, recognized⟩ := Statement.ofLine_functionHeader opened named enclosed
    have collected := Block.collect_balanced .function opened closed balanced [] rest
    exact ⟨found, read, lines_function depth frame recognized collected⟩

/-- A body whose line holds a brace in a literal, as a block of each kind. -/
theorem literal_brace_is_structured :
    (∃ fragment, Fragment.ofText? ['x'] 1 = some fragment ∧
      lines 1 none [⟨1, branchHeader ['x']⟩, ⟨2, "purr ~> \"\x7b\";".toList⟩, ⟨3, closingElse⟩,
          ⟨4, closingBrace⟩] =
        branched 1 none fragment [⟨2, "purr ~> \"\x7b\";".toList⟩] [] []) ∧
    (∃ fragment, Fragment.ofText? ['x'] 1 = some fragment ∧
      lines 1 none [⟨1, branchHeader ['x']⟩, ⟨2, "purr ~> \"\x7b\";".toList⟩, ⟨3, closingBrace⟩] =
        branched 1 none fragment [⟨2, "purr ~> \"\x7b\";".toList⟩] [] []) ∧
    ∃ found, lexemes "num n".toList = .ok found ∧
      lines 1 none [⟨1, functionHeader .nothing ['f'] "num n".toList⟩,
          ⟨2, "purr ~> \"\x7b\";".toList⟩, ⟨3, closingBrace⟩] =
        (World.modifyScope fun scope => scope.define
            ⟨⟨['f'], .nothing, Statement.parameters found⟩,
              [⟨2, "purr ~> \"\x7b\";".toList⟩], 1⟩) >>= fun _ => lines 1 none [] := by
  have balanced : Block.Balanced [⟨2, "purr ~> \"\x7b\";".toList⟩] := by
    unfold Block.Balanced
    decide
  have condition : Enclosed ['x'] (branchHeader ['x']) := by
    refine ⟨⟨_, rfl⟩, ?_⟩
    rintro found ⟨⟩
    rfl
  have parameters : Enclosed "num n".toList (functionHeader .nothing ['f'] "num n".toList) := by
    refine ⟨⟨_, rfl⟩, ?_⟩
    rintro found ⟨⟩
    rfl
  have named : Lexer.Chosen ['f'] (.name ['f']) := Lexer.chosen_name rfl (by simp) rfl
  obtain ⟨alternatives, branches, functions⟩ := blocks_are_structured 1 none balanced []
  exact ⟨alternatives [] 1 3 4 ['x'] rfl condition, branches 1 3 ['x'] condition rfl,
    functions 1 3 .nothing ['f'] "num n".toList named parameters⟩

end Execution

end Purr
