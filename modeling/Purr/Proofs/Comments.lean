import Purr.Proofs.Heredity

/-!
# Comments

What stripping a line of its comments leaves: a text in which no comment begins outside of a
literal, so that stripping it once more changes nothing, and all of the line's literals as they are.
-/

namespace Purr

set_option autoImplicit false

namespace Comment

/-- No comment begins in a text outside of its literals. -/
def Unmarked (inLiteral : Bool) (text : Text) : Prop :=
  ∀ before c after, text = before ++ '/' :: c :: after → c = '/' ∨ c = '*' →
    Block.literalAfter inLiteral before = true

theorem Unmarked.nil (inLiteral : Bool) : Unmarked inLiteral [] := by
  intro before c after same
  cases before <;> cases same

theorem Unmarked.cons {inLiteral : Bool} {c : Char} {rest : Text}
    (first : inLiteral = true ∨ c ≠ '/' ∨ ∀ d ∈ rest.head?, d ≠ '/' ∧ d ≠ '*')
    (later : Unmarked (Block.literalAfter inLiteral [c]) rest) :
    Unmarked inLiteral (c :: rest) := by
  intro before d after same mark
  cases before with
  | nil =>
      obtain ⟨rfl, rfl⟩ := List.cons.inj same
      rcases first with inside | slash | follows
      · exact inside
      · exact absurd rfl slash
      · obtain ⟨slash, star⟩ := follows d rfl
        rcases mark with rfl | rfl
        · exact absurd rfl slash
        · exact absurd rfl star
  | cons c' others =>
      obtain ⟨rfl, rest⟩ := List.cons.inj same
      rw [← List.singleton_append, Block.literalAfter_append]
      exact later others d after rest mark

theorem Unmarked.piece {part text : Text} (unmarked : Unmarked false text)
    (piece : Text.Piece part text) : Unmarked false part := by
  obtain ⟨front, behind, rfl, outside⟩ := piece
  intro before c after same mark
  have whole : front ++ part ++ behind = (front ++ before) ++ '/' :: c :: (after ++ behind) := by
    simp [same]
  have inside := unmarked (front ++ before) c (after ++ behind) whole mark
  rwa [Block.literalAfter_append, outside] at inside

def Place.inLiteral : Place → Bool
  | .literal => true
  | .code | .comment => false

theorem exists_stripFrom_code {d : Char} (more : Text) (slash : d ≠ '/') :
    ∃ rest, (stripFrom .code (d :: more)).1 = d :: rest := by
  by_cases quote : d = '"'
  · subst quote
    exact ⟨(stripFrom .literal more).1, rfl⟩
  · exact ⟨(stripFrom .code more).1, by simp [stripFrom, stripFrom.keep, slash]⟩

/-- No comment is left in what stripping leaves. -/
theorem stripFrom_unmarked (place : Place) (line : Text) :
    Unmarked place.inLiteral (stripFrom place line).1 := by
  fun_induction stripFrom place line with
  | case1 => exact .nil _
  | case2 => exact .nil _
  | case3 rest ih => exact ih
  | case4 c rest _ ih => exact ih
  | case5 rest => exact .nil _
  | case6 rest ih => exact ih
  | case7 rest ih => exact .cons (.inr (.inl (by decide))) ih
  | case8 c rest slashes star quote ih =>
      refine .cons (.inr ?_) (by rw [Place.inLiteral, Block.literalAfter_char _ quote]; exact ih)
      by_cases slash : c = '/'
      · right
        cases rest with
        | nil => rintro _ ⟨⟩
        | cons d more =>
            have notSlash : d ≠ '/' := fun same => slashes more slash (by rw [same])
            have notStar : d ≠ '*' := fun same => star more slash (by rw [same])
            obtain ⟨others, kept⟩ := exists_stripFrom_code more notSlash
            rw [kept]
            rintro _ ⟨⟩
            exact ⟨notSlash, notStar⟩
      · exact .inl slash
  | case9 rest ih => exact .cons (.inl rfl) ih
  | case10 c rest quote ih =>
      exact .cons (.inl rfl) (by rw [Place.inLiteral, Block.literalAfter_char _ quote]; exact ih)

theorem Unmarked.tail {inLiteral : Bool} {c : Char} {rest : Text}
    (unmarked : Unmarked inLiteral (c :: rest)) :
    Unmarked (Block.literalAfter inLiteral [c]) rest := by
  intro before d after same mark
  have inside := unmarked (c :: before) d after (by rw [same, List.cons_append]) mark
  rwa [← List.singleton_append, Block.literalAfter_append] at inside

/-- A text in which no comment begins is left as it is. -/
theorem stripFrom_of_unmarked {place : Place} {text : Text} (outside : place ≠ .comment)
    (unmarked : Unmarked place.inLiteral text) : stripFrom place text = (text, false) := by
  fun_induction stripFrom place text with
  | case1 => exact absurd rfl outside
  | case2 => rfl
  | case3 | case4 => exact absurd rfl outside
  | case5 rest => cases unmarked [] '/' rest rfl (.inl rfl)
  | case6 rest => cases unmarked [] '*' rest rfl (.inr rfl)
  | case7 rest ih => rw [ih (by decide) unmarked.tail, stripFrom.keep]
  | case8 c rest slashes star quote ih =>
      have later := unmarked.tail
      rw [Place.inLiteral, Block.literalAfter_char _ quote] at later
      rw [ih outside later, stripFrom.keep]
  | case9 rest ih => rw [ih (by decide) unmarked.tail, stripFrom.keep]
  | case10 c rest quote ih =>
      have later := unmarked.tail
      rw [Place.inLiteral, Block.literalAfter_char _ quote] at later
      rw [ih outside later, stripFrom.keep]

theorem stripFrom_literal_cons (c : Char) (rest : Text) :
    (stripFrom .literal (c :: rest)).1 =
      c :: (stripFrom (if c = '"' then .code else .literal) rest).1 := by
  by_cases quote : c = '"'
  · subst quote
    rfl
  · simp [stripFrom, stripFrom.keep, quote]

theorem prefix_of_stripFrom_literal {content line after : Text} (closed : '"' ∉ content)
    (stripped : (stripFrom .literal line).1 = content ++ '"' :: after) :
    content ++ ['"'] <+: line := by
  induction line generalizing content with
  | nil => cases content <;> cases stripped
  | cons c rest ih =>
      rw [stripFrom_literal_cons] at stripped
      cases content with
      | nil =>
          obtain ⟨rfl, _⟩ := List.cons.inj stripped
          exact ⟨rest, rfl⟩
      | cons d more =>
          obtain ⟨rfl, later⟩ := List.cons.inj stripped
          obtain ⟨first, closed⟩ := not_or.1 (mt List.mem_cons.2 closed)
          rw [if_neg (Ne.symm first)] at later
          exact List.prefix_cons_inj c |>.2 (ih closed later)

/-- Stripping takes nothing out of a literal. -/
theorem literal_infix_of_stripFrom {place : Place} {line before content after : Text}
    (closed : '"' ∉ content) (outside : Block.literalAfter place.inLiteral before = false)
    (stripped : (stripFrom place line).1 = before ++ '"' :: content ++ '"' :: after) :
    '"' :: content ++ ['"'] <:+: line := by
  fun_induction stripFrom place line generalizing before with
  | case1 | case2 => simp at stripped
  | case3 rest ih | case6 rest ih =>
      exact List.infix_cons (List.infix_cons (ih outside stripped))
  | case4 c rest _ ih => exact List.infix_cons (ih outside stripped)
  | case5 rest => simp at stripped
  | case7 rest ih =>
      cases before with
      | nil =>
          have kept := prefix_of_stripFrom_literal closed (List.cons.inj stripped).2
          exact (List.prefix_cons_inj '"' |>.2 kept).isInfix
      | cons c others =>
          obtain ⟨rfl, later⟩ := List.cons.inj stripped
          exact List.infix_cons (ih outside later)
  | case8 c rest slashes star quote ih =>
      cases before with
      | nil => exact absurd (List.cons.inj stripped).1 quote
      | cons c' others =>
          obtain ⟨rfl, later⟩ := List.cons.inj stripped
          rw [Block.literalAfter, if_neg quote] at outside
          exact List.infix_cons (ih outside later)
  | case9 rest ih =>
      cases before with
      | nil => cases outside
      | cons c others =>
          obtain ⟨rfl, later⟩ := List.cons.inj stripped
          exact List.infix_cons (ih outside later)
  | case10 c rest quote ih =>
      cases before with
      | nil => cases outside
      | cons c' others =>
          obtain ⟨rfl, later⟩ := List.cons.inj stripped
          rw [Block.literalAfter, if_neg quote] at outside
          exact List.infix_cons (ih outside later)

theorem Place.inLiteral_begin (inComment : Bool) :
    Place.inLiteral (if inComment then .comment else .code) = false := by
  cases inComment <;> rfl

theorem strip_unmarked (inComment : Bool) (line : Text) :
    Unmarked false (strip inComment line).1 := by
  have unmarked := stripFrom_unmarked (if inComment then .comment else .code) line
  rwa [Place.inLiteral_begin] at unmarked

theorem strip_of_unmarked {text : Text} (unmarked : Unmarked false text) :
    strip false text = (text, false) :=
  stripFrom_of_unmarked (by decide) unmarked

theorem literal_infix_of_piece {inComment : Bool} {line part before content after : Text}
    (piece : Text.Piece part (strip inComment line).1)
    (same : part = before ++ ('"' :: content ++ ['"']) ++ after) (closed : '"' ∉ content)
    (outside : Block.literalAfter false before = false) : '"' :: content ++ ['"'] <:+: line := by
  obtain ⟨front, behind, whole, begins⟩ := piece
  have stripped : (strip inComment line).1 =
      (front ++ before) ++ '"' :: content ++ '"' :: (after ++ behind) := by
    rw [whole, same]
    simp
  apply literal_infix_of_stripFrom closed _ stripped
  rw [Place.inLiteral_begin, Block.literalAfter_append, begins, outside]

end Comment

end Purr
