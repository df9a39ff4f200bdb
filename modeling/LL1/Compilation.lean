/-
# From a grammar to a parse table

A grammar is normalized, its names are resolved, the FIRST and FOLLOW sets are computed, the
rules are checked for conflicts, and the table is generated.  A `Compilation` tells how far that
went, with all that was computed on the way.
-/
import LL1.Grammar.LeftFactoring
import LL1.Prediction.Table
import LL1.Rules.Resolution

namespace LL1

/-- How a compilation ended. -/
inductive Outcome where
  /-- The names of the normalized grammar cannot be resolved. -/
  | unresolved (e : GrammarError)
  /-- The rules have a conflict. -/
  | refused (rules : Rules) (sets : FirstFollow) (e : GrammarError)
  /-- Two alternatives belong into one cell of the table. -/
  | clashing (rules : Rules) (sets : FirstFollow) (c : CellConflict)
  /-- There is a table. -/
  | compiled (table : Table)

/-- A grammar that was compiled. -/
structure Compilation where
  normalization : Normalization
  outcome : Outcome

namespace Outcome

/-- The outcome for a normalized grammar.  The check for conflicts can be left out. -/
def ofNormal (checked : Bool) (g : Grammar) : Outcome :=
  match Rules.resolve g with
  | .error e => .unresolved e
  | .ok rules =>
    let sets := rules.firstFollow
    match (if checked then sets.check rules else .ok ()) with
    | .error e => .refused rules sets e
    | .ok _ =>
      match Table.ofRules rules sets with
      | .error c => .clashing rules sets c
      | .ok table => .compiled table

/-- The table, or what is wrong with the grammar. -/
def result : Outcome → Except GrammarError Table
  | unresolved e => .error e
  | refused _ _ e => .error e
  | clashing rules _ c => .error (c.error rules)
  | compiled table => .ok table

/-- The rules and their sets, if names could be resolved. -/
def rulesAndSets? : Outcome → Option (Rules × FirstFollow)
  | unresolved _ => none
  | refused rules sets _ => some (rules, sets)
  | clashing rules sets _ => some (rules, sets)
  | compiled table => some (table.rules, table.sets)

/-- The events after normalization. -/
def journal : Outcome → Journal
  | unresolved _ => []
  | refused rules sets _ => rules.event :: sets.journal
  | clashing rules sets c => rules.event :: sets.journal ++ [c.event rules]
  | compiled table => table.rules.event :: table.sets.journal ++ [table.event]

end Outcome

namespace Compilation

/-- Goes on with a normalized grammar.  The check for conflicts can be left out. -/
def ofNormalization (checked : Bool) (n : Normalization) : Compilation :=
  ⟨n, .ofNormal checked n.grammar⟩

/-- The table, or what is wrong with the grammar. -/
def result (c : Compilation) : Except GrammarError Table := c.outcome.result

/-- All events. -/
def journal (c : Compilation) : Journal := c.normalization.journal ++ c.outcome.journal

end Compilation

namespace Grammar

/-- Compiles a grammar without the check for conflicts, if `fuel` suffices for removing left
recursion. -/
def compileUnchecked (fuel : Nat) (g : Grammar) : Option Compilation :=
  (g.normalize fuel).map (.ofNormalization false)

/-- Compiles a grammar, if `fuel` suffices for removing left recursion. -/
def compile (fuel : Nat) (g : Grammar) : Option Compilation :=
  (g.normalize fuel).map (.ofNormalization true)

end Grammar

end LL1
