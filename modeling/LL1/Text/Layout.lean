/-
# Layout of texts

The three ways in which the texts of this library put their parts in place: a sequence of words
on a line, a word or a number in a column of fixed width, and a list of lines.
-/

namespace LL1.Text

/-- Words separated by single spaces; the sign `ε` stands for the sequence without words. -/
def sequence : List String → String
  | [] => "ε"
  | words => String.intercalate " " words

/-- Spaces. -/
def spaces (n : Nat) : String := "".pushn ' ' n

/-- A text filled up with spaces on its right to a width in characters. -/
def padRight (width : Nat) (s : String) : String := s ++ spaces (width - s.length)

/-- A number filled up on its left to a width, by spaces. -/
def padLeft (width n : Nat) : String := spaces (width - (toString n).length) ++ toString n

/-- A number filled up on its left to a width, by zeros. -/
def zeroPad (width n : Nat) : String := "".pushn '0' (width - (toString n).length) ++ toString n

/-- Lines, each with its end. -/
def unlines (lines : List String) : String := String.join (lines.map (· ++ "\n"))

end LL1.Text
