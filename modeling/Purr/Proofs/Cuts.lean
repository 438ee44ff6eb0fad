import Purr.Proofs.Executions
import Purr.Proofs.Heredity

/-!
# Cuts

No cut of a text or a list is out of range, in any run of any script. A reader that hides a failed
cut behind a fallback is covered by itself: the one that looks for an `else` hides that of a line,
and the one that recognizes a call that of a list.
-/

namespace Purr

set_option autoImplicit false

theorem lexemes_inRange (text : Text) : lexemes text ≠ .error .outOfRange := by
  intro failed
  obtain ⟨part, same, _⟩ := Lexer.lexemes_eq_error_iff.1 failed
  cases same

theorem Statement.ofLine_inRange (line : Line) : ofLine line ≠ .error .outOfRange := by
  intro failed
  rcases ofLine_placed line with ⟨_, _, same⟩ | ⟨_, statement, _, same, _⟩
  · rw [same] at failed
    cases failed
  · rw [same] at failed
    cases failed

theorem Block.collect_inRange (construct : Construct) (opened : Nat) (bodyStart : Text)
    (cursor : Cursor) : collect construct opened bodyStart cursor ≠ .error .outOfRange := by
  intro failed
  cases eq_of_collect_error failed

theorem Line.any_heredity : Heredity .any (fun _ => True) Halt.Unclosed (fun _ => True) where
  inherited _ _ _ _ _ _ := trivial
  allows line _ := Reports.allows_any line
  function _ _ _ _ _ _ _ := trivial
  unclosed line construct _ := ⟨construct, line.number, rfl⟩

theorem Code.sound_any (lines : List Line) :
    (ofLines lines).Sound .any (fun _ => True) Halt.Unclosed :=
  Line.any_heredity.code fun _ _ => trivial

theorem Code.sound_inRange (lines : List Line) :
    (ofLines lines).Sound .any (fun _ => True) (· ≠ .outOfRange) := by
  apply (sound_any lines).mono
  rintro _ ⟨_, _, rfl⟩
  simp

theorem Execution.inRange_invariant :
    Invariant .any (fun _ => True) (fun _ => True) (· ≠ .outOfRange) where
  report line fault _ _ := Console.report_keeps _ line fault
  write := Console.write_keeps (fun _ _ _ => trivial) (by simp)
  tooDeep := by simp
  body function _ := Code.sound_inRange function.body
  name _ _ := trivial

/-- No cut is out of range: where lines are read, where blocks are collected, and in a whole run of
a script. The pieces and the last index of a list of lexemes are within it. -/
theorem cuts_in_range :
    (∀ text, lexemes text ≠ .error .outOfRange) ∧
    (∀ line, Statement.ofLine line ≠ .error .outOfRange) ∧
    (∀ construct opened bodyStart cursor,
      Block.collect construct opened bodyStart cursor ≠ .error .outOfRange) ∧
    (∀ separator (lexemes : List Lexeme), ∀ piece ∈ splitTopLevel separator lexemes,
      piece <:+: lexemes) ∧
    (∀ lexemes : List Lexeme, lexemes ≠ [] → lastIndex? lexemes = some (lexemes.length - 1)) ∧
    ∀ depth streams source, (Script.run depth streams source).halt ≠ some .outOfRange := by
  refine ⟨lexemes_inRange, Statement.ofLine_inRange, Block.collect_inRange, ?_, ?_, ?_⟩
  · intro separator lexemes piece member
    exact infix_of_mem_splitTopLevel member
  · intro lexemes nonempty
    cases lexemes with
    | nil => exact absurd rfl nonempty
    | cons first rest => rfl
  · intro depth streams source halted
    have flush : Console.flush.Keeps (fun _ => True) (· ≠ Halt.outOfRange) :=
      Console.flush_keeps (by simp)
    exact Script.run_halt Execution.inRange_invariant flush depth trivial
      (Code.sound_inRange (codeLines source)) halted rfl

def sumLexemes : List Lexeme :=
  [⟨.name ['a'], ⟨0, 1, by decide⟩⟩, ⟨.operator .add, ⟨1, 2, by decide⟩⟩,
    ⟨.name ['b'], ⟨2, 3, by decide⟩⟩]

/-- The second piece of a sum, the last index of the sum, and a script with a literal of more bytes
than characters. -/
theorem cuts_of_sum_in_range :
    [⟨.name ['b'], ⟨2, 3, by decide⟩⟩] <:+: sumLexemes ∧ lastIndex? sumLexemes = some 2 ∧
    (Script.run 0 .unlimited "purr ~> \"é\" + é;".toList).halt ≠ some .outOfRange := by
  obtain ⟨_, _, _, pieces, last, runs⟩ := cuts_in_range
  refine ⟨?_, ?_, ?_⟩
  · apply pieces (.operator .add)
    simp [sumLexemes, splitTopLevel, splitFrom, isParen, extendFirst, depthAfter]
  · exact last sumLexemes (List.cons_ne_nil _ _)
  · exact runs 0 .unlimited _

end Purr
