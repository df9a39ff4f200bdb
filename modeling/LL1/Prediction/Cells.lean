/-
# Filling the cells of a parse table

The cells of a parse table can stand in one array, the row of each nonterminal behind the row of
the one before it.  At first every cell tells how to recover.  Then the alternatives are entered,
those of the first nonterminal first, each of them into the cells of its lookaheads.  The filling
ends at once if another alternative is found in a cell.  Numbers of nonterminals and of
alternatives are words of sixteen bits.
-/
import LL1.Prediction.Table

namespace LL1

/-- The cells of all rows, one row after the other. -/
abbrev Cells := Array Action

/-- The numbers from zero on, as words of sixteen bits. -/
def words (n : Nat) : List Nat := (List.range n).map fun i => (UInt16.ofNat i).toNat

namespace Cells

/-- Where the cell of a nonterminal and a terminal stands. -/
def place (i : Nat) (k : Terminal) : Nat := i * Terminal.count + k.index

/-- The cells before any alternative is entered. -/
def recoveries (r : Rules) (s : FirstFollow) : Cells :=
  let row (i : Nat) : List Action :=
    Terminal.all.map fun k => .recover (Row.recovery (s.followOf i) k)
  ((words r.size).flatMap row).toArray

/-- Enters alternative `a` of nonterminal `i` into the cell of a lookahead, unless another one is
found there. -/
def enter (i a : Nat) (cells : Cells) (k : Terminal) : Except CellConflict Cells :=
  match cells[place i k]? with
  | some (.expand b) =>
    if b ≠ a then .error ⟨i, k, b, a⟩ else .ok (cells.setIfInBounds (place i k) (.expand a))
  | _ => .ok (cells.setIfInBounds (place i k) (.expand a))

/-- Enters an alternative into the cells of all its lookaheads. -/
def enterAlternative (r : Rules) (s : FirstFollow) (i : Nat) (cells : Cells) (a : Nat) :
    Except CellConflict Cells :=
  (s.predict i (r.alternative i a)).toList.foldlM (enter i a) cells

/-- Enters all alternatives of a nonterminal. -/
def enterRule (r : Rules) (s : FirstFollow) (cells : Cells) (i : Nat) :
    Except CellConflict Cells :=
  (words (r.alternatives i).length).foldlM (enterAlternative r s i) cells

/-- The cells of the table for rules with their sets, or the conflict that is found first. -/
def fill (r : Rules) (s : FirstFollow) : Except CellConflict Cells :=
  (words r.size).foldlM (enterRule r s) (recoveries r s)

/-- The cell of a nonterminal and a terminal, nothing if there is no such nonterminal. -/
def get? (cells : Cells) (r : Rules) (i : Nat) (k : Terminal) : Option Action :=
  if i < r.size then cells[place i k]? else none

end Cells

/-- The rows of a table in one array. -/
def Table.cells (t : Table) : Cells := (t.rows.toList.flatMap Array.toList).toArray

end LL1
