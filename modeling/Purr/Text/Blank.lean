import Purr.Text.Basic

/-!
# Blank characters

The characters of Unicode's `White_Space` property and what depends on them: blank texts and
trimming. Trimming removes blank characters at both ends and nothing in between.
-/

namespace Purr

set_option autoImplicit false

/-- The ranges of code points with the property `White_Space`, both ends included. -/
def blankRanges : List (Nat × Nat) :=
  [(0x09, 0x0D), (0x20, 0x20), (0x85, 0x85), (0xA0, 0xA0), (0x1680, 0x1680), (0x2000, 0x200A),
    (0x2028, 0x2029), (0x202F, 0x202F), (0x205F, 0x205F), (0x3000, 0x3000)]

def isBlank (c : Char) : Bool :=
  blankRanges.any fun (first, last) => first ≤ c.toNat && c.toNat ≤ last

example : isBlank ' ' ∧ isBlank '\t' ∧ isBlank '\u0085' ∧ isBlank '\u3000' := by decide

example : ¬ isBlank 'a' ∧ ¬ isBlank '\u200b' ∧ ¬ isBlank '\ufeff' := by decide

namespace Text

def trimStart (text : Text) : Text := text.dropWhile isBlank

def trimEnd (text : Text) : Text := (trimStart text.reverse).reverse

def trim (text : Text) : Text := trimEnd (trimStart text)

theorem length_trim_le (text : Text) : (trim text).length ≤ text.length := by
  have shorter (t : Text) : (trimStart t).length ≤ t.length :=
    (List.dropWhile_sublist isBlank).length_le
  have atEnd := shorter (trimStart text).reverse
  have atStart := shorter text
  simp only [trim, trimEnd, List.length_reverse] at *
  omega

end Text

end Purr
