/-
# Blanks

The characters that a source may have between its tokens: white space in the sense of the
character database, and the null character.
-/
import LL1.Text.CharRange

namespace LL1.Text

/-- The white space beyond ASCII. -/
def blankRanges : Array CharRange :=
  #[
    (0x85, 0x85), (0xa0, 0xa0), (0x1680, 0x1680), (0x2000, 0x200a), (0x2028, 0x2029),
    (0x202f, 0x202f), (0x205f, 0x205f), (0x3000, 0x3000)]

/-- Whether a character only separates tokens. -/
def isBlank (c : Char) : Bool :=
  if c.toNat < 0x80 then c.toNat == 0 || (9 ≤ c.toNat && c.toNat ≤ 13) || c.toNat == 32
  else inRanges blankRanges c

/-- White space in the sense of ASCII is blank. -/
theorem isBlank_of_isWhitespace {c : Char} (h : c.isWhitespace = true) : isBlank c = true := by
  simp only [Char.isWhitespace, Bool.or_eq_true, decide_eq_true_eq] at h
  rcases h with ((rfl | rfl) | rfl) | rfl <;> decide

end LL1.Text
