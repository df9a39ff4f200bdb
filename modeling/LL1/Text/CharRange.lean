/-
# Ranges of characters

A property of characters that is given by a table is a list of ranges of code points.  The
tables of this library hold the characters beyond ASCII only; the ASCII part of a property is
stated in the function that uses the table.
-/

namespace LL1.Text

/-- The code points from the first to the second number, both included. -/
abbrev CharRange := Nat × Nat

/-- Whether a character lies in one of the ranges. -/
def inRanges (ranges : Array CharRange) (c : Char) : Bool :=
  ranges.any fun r => r.1 ≤ c.toNat && c.toNat ≤ r.2

end LL1.Text
