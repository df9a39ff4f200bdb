/-
# Parse tables

A parse table has a row for every nonterminal and in it a cell for every terminal.  The cell
holds the alternative that the terminal calls for, or, if there is none, how to recover: the
nonterminal is given up in view of a terminal that can follow it, and any other terminal is
passed over.  There is no table if two alternatives belong into one cell.
-/
import LL1.Parsing.Predictor
import LL1.Prediction.Conflict

namespace LL1

/-- The cells of a nonterminal, one for every terminal. -/
abbrev Row := Array Action

/-- The parse table of a grammar. -/
structure Table where
  rules : Rules
  sets : FirstFollow
  rows : Array Row
deriving DecidableEq

/-- Two alternatives that belong into one cell. -/
structure CellConflict where
  /-- The number of the nonterminal. -/
  nonterminal : Nat
  /-- The lookahead. -/
  terminal : Terminal
  /-- The number of the alternative that is found first. -/
  earlier : Nat
  /-- The number of the other one. -/
  later : Nat
deriving DecidableEq, Repr

namespace Row

/-- The first alternative, of those whose lookaheads are given in order, that a terminal calls
for. -/
def chosen? (predicted : List TerminalSet) (t : Terminal) : Option Nat :=
  predicted.findIdx? (·.contains t)

/-- What to do without an alternative, given what can follow the nonterminal. -/
def recovery (follow : TerminalSet) (t : Terminal) : Recovery :=
  if t = .endOfInput ∨ t ∈ follow then .pop else .scan

/-- The action in view of a terminal. -/
def action (predicted : List TerminalSet) (follow : TerminalSet) (t : Terminal) : Action :=
  match chosen? predicted t with
  | some a => .expand a
  | none => .recover (recovery follow t)

/-- The cells of a row. -/
def ofPredicted (predicted : List TerminalSet) (follow : TerminalSet) : Row :=
  (Terminal.all.map (action predicted follow)).toArray

/-- The first alternative that shares a lookahead with earlier ones, together with the first
such lookahead; `earlier` holds the lookaheads before the alternative with number `a`. -/
def overlap (earlier : TerminalSet) (a : Nat) : List TerminalSet → Option (Nat × Terminal)
  | [] => none
  | s :: ss =>
    match (earlier ∩ s).toList with
    | t :: _ => some (a, t)
    | [] => overlap (earlier ∪ s) (a + 1) ss

/-- The conflict in the row of a nonterminal with given lookaheads. -/
def conflict? (nonterminal : Nat) (predicted : List TerminalSet) : Option CellConflict :=
  (overlap ∅ 0 predicted).map fun (a, t) =>
    ⟨nonterminal, t, (chosen? predicted t).getD 0, a⟩

end Row

namespace FirstFollow

/-- The lookaheads that call for each alternative of a nonterminal. -/
def predictions (s : FirstFollow) (r : Rules) (i : Nat) : List TerminalSet :=
  (r.alternatives i).map (s.predict i)

/-- The first conflict between alternatives, if there is one. -/
def cellConflict? (s : FirstFollow) (r : Rules) : Option CellConflict :=
  (List.range r.size).findSome? fun i => Row.conflict? i (s.predictions r i)

end FirstFollow

namespace CellConflict

/-- A conflict as an error of the grammar. -/
def error (c : CellConflict) (r : Rules) : GrammarError :=
  .tableConflict (r.name c.nonterminal) c.terminal c.earlier c.later

/-- The event of finding a conflict, which shows the alternatives in full. -/
def event (c : CellConflict) (r : Rules) : Event :=
  let shown (a : Nat) : String :=
    r.alternativeText c.nonterminal (r.alternative c.nonterminal a)
  ⟨.error, s!"conflicting parse table entry at ({r.name c.nonterminal}, {c.terminal.name}): "
    ++ shown c.earlier ++ " and " ++ shown c.later⟩

end CellConflict

namespace Table

/-- The table of rules with their sets, or the first conflict. -/
def ofRules (r : Rules) (s : FirstFollow) : Except CellConflict Table :=
  match s.cellConflict? r with
  | some c => .error c
  | none =>
    let row (i : Nat) : Row := .ofPredicted (s.predictions r i) (s.followOf i)
    .ok ⟨r, s, ((List.range r.size).map row).toArray⟩

/-- The cell of a nonterminal and a terminal, nothing if there is no such nonterminal. -/
def get? (t : Table) (i : Nat) (k : Terminal) : Option Action :=
  t.rows[i]?.bind fun row => row[k.index]?

/-- The text of the failure to find a nonterminal in a table of a number of rows. -/
def outOfRange (rows i : Nat) : String :=
  s!"nonterminal {nonterminalMark i} is out of range ({rows} rows)"

/-- What a parser that follows the table does.  A nonterminal without a row has no lookaheads
and nothing follows it. -/
def predictor (t : Table) : Predictor where
  start := t.rules.start
  action i k := (t.get? i k).getD (.recover .scan)
  alternative := t.rules.alternative
  name := t.rules.name

/-- The number of cells with an alternative. -/
def expansions (t : Table) : Nat :=
  (List.range t.rules.size).foldl
    (fun n i => (t.sets.predictions t.rules i).foldl (fun n s => n + s.size) n) 0

/-- The event that concludes the generation of a table. -/
def event (t : Table) : Event :=
  ⟨.debug, s!"generated a parse table with {t.rules.size} rows ({t.expansions} expansions)"⟩

/-- The line for a cell.  Cells in which the token is passed over are not shown. -/
def cellLine? (t : Table) (i : Nat) (k : Terminal) : Option String :=
  let shown (what : String) : String := "  " ++ Text.padRight 16 k.name ++ " => " ++ what
  match t.get? i k with
  | some (.expand a) => some (shown (t.rules.alternativeText i (t.rules.alternative i a)))
  | some (.recover .pop) => some (shown "(pop)")
  | _ => none

/-- The lines for a nonterminal. -/
def rowLines (t : Table) (i : Nat) : List String :=
  t.rules.name i :: Terminal.lookaheads.filterMap (t.cellLine? i)

/-- A listing of the table. -/
def text (t : Table) : String := Text.unlines ((List.range t.rules.size).flatMap t.rowLines)

end Table

end LL1
