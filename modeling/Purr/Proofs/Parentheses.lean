import Purr.Proofs.TopLevel

/-!
# Parentheses

Counting parentheses. The partner of a parenthesis, the pieces between separators and the calls that
stand alone are found by three counters; `openParens?` counts for all of them, and tells apart the
lists in which every parenthesis has its partner.
-/

namespace Purr

set_option autoImplicit false

/-- The number of parentheses that are open after tokens, if none closes that is not open. -/
def openParens? : Nat → List Token → Option Nat
  | depth, [] => some depth
  | depth, token :: rest =>
      match token, depth with
      | .leftParen, depth => openParens? (depth + 1) rest
      | .rightParen, 0 => none
      | .rightParen, depth + 1 => openParens? depth rest
      | _, depth => openParens? depth rest

def Paired (tokens : List Token) : Prop := openParens? 0 tokens = some 0

/-- The parenthesis that closes one opened before lexemes is not among them if none closes there
that is not open. -/
theorem closing?_append {depth reached : Nat} {lexemes : List Lexeme} (rest : List Lexeme)
    (opened : openParens? depth (lexemes.map Lexeme.token) = some reached) :
    closing? (depth + 1) (lexemes ++ rest) =
      (closing? (reached + 1) rest).map (· + lexemes.length) := by
  induction lexemes generalizing depth with
  | nil =>
      cases opened
      simp
  | cons lexeme later ih =>
      have shift (found : Option Nat) : (found.map (· + later.length)).map (· + 1) =
          found.map (· + (lexeme :: later).length) := by
        cases found <;> rfl
      obtain ⟨token, span⟩ := lexeme
      cases token with
      | leftParen => exact (congrArg _ (ih opened)).trans (shift _)
      | rightParen =>
          cases depth with
          | zero => cases opened
          | succ depth => exact (congrArg _ (ih opened)).trans (shift _)
      | _ => exact (congrArg _ (ih opened)).trans (shift _)

theorem closing?_of_append {depth index : Nat} {lexemes later : List Lexeme}
    (found : closing? depth (lexemes ++ later) = some index) (inside : index < lexemes.length) :
    closing? depth lexemes = some index := by
  induction lexemes generalizing depth index with
  | nil => exact absurd inside (Nat.not_lt_zero _)
  | cons lexeme rest ih =>
      have shorter {inner : Nat}
          (found : (closing? inner (rest ++ later)).map (· + 1) = some index) :
          (closing? inner rest).map (· + 1) = some index := by
        obtain ⟨position, within, rfl⟩ := Option.map_eq_some_iff.1 found
        rw [ih within (Nat.lt_of_succ_lt_succ inside)]
        rfl
      obtain ⟨token, span⟩ := lexeme
      cases token with
      | leftParen => exact shorter found
      | rightParen =>
          rcases depth with _ | _ | depth
          · cases found
          · exact found
          · exact shorter found
      | _ => exact shorter found

theorem matchingParen?_of_append {start close : Nat} {lexemes later : List Lexeme}
    (found : matchingParen? (lexemes ++ later) start = some close) (ordered : start ≤ close)
    (inside : close < lexemes.length) : matchingParen? lexemes start = some close := by
  rw [matchingParen?, List.drop_append_of_le_length (by omega)] at found
  obtain ⟨index, within, rfl⟩ := Option.map_eq_some_iff.1 found
  have shorter := closing?_of_append within (by rw [List.length_drop]; omega)
  rw [matchingParen?, shorter]
  rfl

theorem openParens?_cons {depth : Nat} {token : Token} (rest : List Token)
    (opens : token = .rightParen → depth ≠ 0) :
    openParens? depth (token :: rest) = openParens? (depthAfter depth token) rest := by
  cases token with
  | rightParen =>
      cases depth with
      | zero => exact absurd rfl (opens rfl)
      | succ depth => rfl
  | _ => rfl

theorem openParens?_append (depth : Nat) (before after : List Token) :
    openParens? depth (before ++ after) =
      (openParens? depth before).bind fun reached => openParens? reached after := by
  induction before generalizing depth with
  | nil => rfl
  | cons token rest ih =>
      by_cases opens : token = .rightParen → depth ≠ 0
      · rw [List.cons_append, openParens?_cons _ opens, openParens?_cons _ opens, ih]
      · obtain ⟨rfl, rfl⟩ : token = .rightParen ∧ depth = 0 := by simpa using opens
        rfl

theorem openParens?_succ {depth reached : Nat} {tokens : List Token}
    (opened : openParens? depth tokens = some reached) :
    openParens? (depth + 1) tokens = some (reached + 1) := by
  induction tokens generalizing depth with
  | nil =>
      cases opened
      rfl
  | cons token rest ih =>
      cases token with
      | rightParen =>
          cases depth with
          | zero => cases opened
          | succ depth => exact ih opened
      | _ => exact ih opened

theorem openParens?_add {depth reached : Nat} {tokens : List Token}
    (opened : openParens? depth tokens = some reached) (more : Nat) :
    openParens? (depth + more) tokens = some (reached + more) := by
  induction more with
  | zero => exact opened
  | succ more ih => exact openParens?_succ ih

theorem depthAt_of_openParens? {depth index reached : Nat} {lexemes : List Lexeme}
    (opened : openParens? depth ((lexemes.take index).map Lexeme.token) = some reached) :
    depthAt depth lexemes index = reached := by
  induction lexemes generalizing depth index with
  | nil =>
      rw [List.take_nil] at opened
      simpa [depthAt, openParens?] using opened
  | cons lexeme rest ih =>
      cases index with
      | zero => simpa [openParens?] using opened
      | succ index =>
          have opens : lexeme.token = .rightParen → depth ≠ 0 := by
            rintro paren rfl
            rw [List.take_succ_cons, List.map_cons, paren] at opened
            cases opened
          rw [List.take_succ_cons, List.map_cons, openParens?_cons _ opens] at opened
          rw [depthAt_succ, ih opened]

theorem Paired.append {before after : List Token} (first : Paired before)
    (second : Paired after) : Paired (before ++ after) := by
  unfold Paired at *
  rw [openParens?_append, first]
  exact second

theorem exists_openParens?_of_append {depth reached : Nat} {before after : List Token}
    (opened : openParens? depth (before ++ after) = some reached) :
    ∃ between, openParens? depth before = some between := by
  rw [openParens?_append] at opened
  obtain ⟨between, first, _⟩ := Option.bind_eq_some_iff.1 opened
  exact ⟨between, first⟩

/-- Before the partner of a parenthesis every parenthesis has its own. -/
theorem exists_of_closing? {depth index : Nat} {lexemes : List Lexeme}
    (found : closing? (depth + 1) lexemes = some index) :
    ∃ inner close after, lexemes = inner ++ ⟨.rightParen, close⟩ :: after ∧
      inner.length = index ∧ openParens? depth (inner.map Lexeme.token) = some 0 := by
  induction lexemes generalizing depth index with
  | nil => cases found
  | cons lexeme rest ih =>
      obtain ⟨token, span⟩ := lexeme
      have onward {deeper : Nat}
          (found : (closing? (deeper + 1) rest).map (· + 1) = some index)
          (counts : ∀ inner, openParens? depth (token :: inner) = openParens? deeper inner) :
          ∃ inner close after, ⟨token, span⟩ :: rest = inner ++ ⟨.rightParen, close⟩ :: after ∧
            inner.length = index ∧ openParens? depth (inner.map Lexeme.token) = some 0 := by
        obtain ⟨position, later, rfl⟩ := Option.map_eq_some_iff.1 found
        obtain ⟨inner, close, after, rfl, length, closed⟩ := ih later
        refine ⟨⟨token, span⟩ :: inner, close, after, rfl, by simpa using length, ?_⟩
        rw [List.map_cons, counts, closed]
      cases token with
      | leftParen => exact onward found fun _ => rfl
      | rightParen =>
          cases depth with
          | zero =>
              cases found
              exact ⟨[], span, rest, rfl, rfl, rfl⟩
          | succ depth => exact onward found fun _ => rfl
      | _ => exact onward found fun _ => rfl

theorem matchingParen?_call (name opening : Lexeme) (later : List Lexeme)
    (paren : opening.token = .leftParen) :
    matchingParen? (name :: opening :: later) 1 = (closing? 1 later).map (· + 2) := by
  have inner : closing? 0 (opening :: later) = (closing? 1 later).map (· + 1) := by
    rw [closing?, paren]
  rw [matchingParen?, List.drop_one, List.tail_cons, inner, Option.map_map]
  rfl

/-- A call that stands alone is a name and paired lexemes in parentheses. -/
theorem isSingleCall_iff (lexemes : List Lexeme) :
    isSingleCall lexemes = true ↔ ∃ callee first opening inner close,
      lexemes = ⟨.name callee, first⟩ :: ⟨.leftParen, opening⟩ ::
        (inner ++ [⟨.rightParen, close⟩]) ∧ Paired (inner.map Lexeme.token) := by
  constructor
  · intro single
    unfold isSingleCall at single
    split at single
    next callee first opening later =>
      rw [matchingParen?_call _ _ _ rfl] at single
      cases found : closing? 1 later with
      | none =>
          rw [found] at single
          cases single
      | some index =>
          rw [found] at single
          obtain ⟨inner, close, after, rfl, rfl, paired⟩ := exists_of_closing? found
          have final : inner.length + 2 = (inner ++ ⟨.rightParen, close⟩ :: after).length + 1 :=
            of_decide_eq_true single
          have nothing : after = [] := by
            apply List.eq_nil_of_length_eq_zero
            simp only [List.length_append, List.length_cons] at final
            omega
          subst nothing
          exact ⟨callee, first, opening, inner, close, rfl, paired⟩
    next => cases single
  · rintro ⟨callee, first, opening, inner, close, rfl, paired⟩
    have partner : closing? 1 (inner ++ [⟨.rightParen, close⟩]) = some inner.length := by
      rw [closing?_append _ paired]
      simp [closing?]
    simp [isSingleCall, matchingParen?_call, partner, lastIndex?]

theorem foldr_extendFirst (lexemes piece : List Lexeme) (pieces : List (List Lexeme)) :
    lexemes.foldr extendFirst (piece :: pieces) = (lexemes ++ piece) :: pieces := by
  induction lexemes with
  | nil => rfl
  | cons lexeme rest ih =>
      rw [List.foldr_cons, ih]
      rfl

/-- Lexemes that hold no separator outside of parentheses belong to the piece that follows. -/
theorem splitFrom_append {separator : Token} {depth reached : Nat} {lexemes : List Lexeme}
    (rest : List Lexeme) (opened : openParens? depth (lexemes.map Lexeme.token) = some reached)
    (enclosed : ∀ before mark after, mark.equals separator = true →
      lexemes.map Lexeme.token = before ++ mark :: after → openParens? depth before ≠ some 0) :
    splitFrom separator depth (lexemes ++ rest) =
      lexemes.foldr extendFirst (splitFrom separator reached rest) := by
  induction lexemes generalizing depth with
  | nil =>
      cases opened
      rfl
  | cons lexeme later ih =>
      have opens : lexeme.token = .rightParen → depth ≠ 0 := by
        rintro paren rfl
        rw [List.map_cons, paren] at opened
        cases opened
      have together : ¬ (depth = 0 && !isParen lexeme.token && lexeme.token.equals separator) := by
        intro apart
        obtain ⟨rfl, _, separates⟩ := apart_iff.1 apart
        exact enclosed [] lexeme.token (later.map Lexeme.token) separates rfl rfl
      rw [List.map_cons, openParens?_cons _ opens] at opened
      rw [List.cons_append, splitFrom, if_neg together, List.foldr_cons, ih opened]
      intro before mark after separates same
      rw [← openParens?_cons before opens]
      apply enclosed (lexeme.token :: before) mark after separates
      rw [List.map_cons, same]
      rfl

theorem splitFrom_separator {separator : Token} {depth : Nat} {before : List Lexeme}
    {mark : Lexeme} (after : List Lexeme)
    (closed : openParens? depth (before.map Lexeme.token) = some 0)
    (separates : mark.token.equals separator = true) (plain : isParen separator = false) :
    splitFrom separator depth (before ++ mark :: after) =
      splitFrom separator depth before ++ splitFrom separator 0 after := by
  apply splitFrom_exposed after _ separates plain
  apply depthAt_of_openParens?
  rwa [List.take_length]

end Purr
