/-!
# Text

A text is a list of characters. A position in a text is a number of bytes of its UTF-8 form, so
cutting a text at a position is a partial operation: it fails past the end and inside a character.
`cutAt?_eq_some_iff` says that a cut succeeds exactly at the border of two parts of the text.
-/

namespace Purr

set_option autoImplicit false

abbrev Text := List Char

namespace Text

def byteLength : Text → Nat
  | [] => 0
  | c :: rest => c.utf8Size + byteLength rest

@[simp] theorem byteLength_nil : byteLength [] = 0 := rfl

@[simp] theorem byteLength_cons (c : Char) (rest : Text) :
    byteLength (c :: rest) = c.utf8Size + byteLength rest := rfl

@[simp] theorem byteLength_append (a b : Text) :
    byteLength (a ++ b) = byteLength a + byteLength b := by
  induction a with
  | nil => simp
  | cons c rest ih => simp [ih, Nat.add_assoc]

def cutAt? : Nat → Text → Option (Text × Text)
  | 0, text => some ([], text)
  | _ + 1, [] => none
  | count + 1, c :: rest =>
      if c.utf8Size ≤ count + 1 then
        (cutAt? (count + 1 - c.utf8Size) rest).map fun (before, after) => (c :: before, after)
      else
        none

def dropBytes? (count : Nat) (text : Text) : Option Text :=
  (cutAt? count text).map Prod.snd

def takeBytes? (count : Nat) (text : Text) : Option Text :=
  (cutAt? count text).map Prod.fst

def slice? (text : Text) (start stop : Nat) : Option Text :=
  if start ≤ stop then
    (dropBytes? start text).bind (takeBytes? (stop - start))
  else
    none

theorem cutAt?_byteLength_append (a b : Text) : cutAt? (byteLength a) (a ++ b) = some (a, b) := by
  induction a with
  | nil => simp [cutAt?]
  | cons c rest ih =>
    have positive := c.utf8Size_pos
    obtain ⟨width, same⟩ : ∃ n, c.utf8Size = n + 1 := ⟨c.utf8Size - 1, by omega⟩
    have count : byteLength (c :: rest) = (width + byteLength rest) + 1 := by
      rw [byteLength_cons, same]; omega
    rw [count, List.cons_append, cutAt?, if_pos (by omega)]
    have remaining : width + byteLength rest + 1 - c.utf8Size = byteLength rest := by omega
    rw [remaining, ih]
    rfl

/-- A cut succeeds exactly at the border of two parts of the text. -/
theorem cutAt?_eq_some_iff {count : Nat} {text before after : Text} :
    cutAt? count text = some (before, after) ↔
      text = before ++ after ∧ count = byteLength before := by
  constructor
  · intro cut
    fun_induction cutAt? count text generalizing before after with
    | case1 text => simp_all
    | case2 => simp at cut
    | case3 count c rest fits ih =>
      simp only [Option.map_eq_some_iff, Prod.exists, Prod.mk.injEq] at cut
      obtain ⟨head, tail, inner, rfl, rfl⟩ := cut
      obtain ⟨rfl, width⟩ := ih inner
      exact ⟨rfl, by rw [byteLength_cons]; omega⟩
    | case4 => simp at cut
  · rintro ⟨rfl, rfl⟩
    exact cutAt?_byteLength_append before after

theorem length_lt_of_dropBytes? {count : Nat} {text rest : Text} (positive : 0 < count)
    (dropped : dropBytes? count text = some rest) : rest.length < text.length := by
  simp only [dropBytes?, Option.map_eq_some_iff, Prod.exists, exists_eq_right] at dropped
  obtain ⟨before, cut⟩ := dropped
  obtain ⟨rfl, width⟩ := cutAt?_eq_some_iff.1 cut
  cases before with
  | nil => rw [byteLength_nil] at width; omega
  | cons c more => rw [List.length_append, List.length_cons]; omega

/-- The physical lines. A line ends at a line feed, together with a carriage return just before
it; after the last line feed there is a line only if some text is left. -/
def lines : Text → List Text
  | [] => []
  | '\n' :: rest => [] :: lines rest
  | '\r' :: '\n' :: rest => [] :: lines rest
  | c :: rest =>
      match lines rest with
      | [] => [[c]]
      | first :: others => (c :: first) :: others

/-- The order of texts by their UTF-8 bytes, which is the order by code points: the first
character that differs decides, and a proper beginning comes first. -/
def precedes : Text → Text → Bool
  | [], [] => false
  | [], _ :: _ => true
  | _ :: _, [] => false
  | a :: left, b :: right =>
      if a.toNat < b.toNat then true
      else if b.toNat < a.toNat then false
      else precedes left right

def ofNat (n : Nat) : Text := Nat.toDigits 10 n

end Text

end Purr
