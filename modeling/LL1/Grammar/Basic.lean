/-
# Grammars

A context-free grammar as its author writes it: nonterminals are identified by name, and each
of them has a list of alternatives.  The nonterminals keep the order in which they were
declared, and the first one comes first in every listing.
-/
import LL1.Grammar.Symbol
import LL1.Grammar.Canonical

namespace LL1

/-- A right-hand side of a nonterminal.  The empty one derives the empty string. -/
abbrev Alternative := Phrase String

/-- A nonterminal with its right-hand sides. -/
structure Production where
  /-- The nonterminal. -/
  name : String
  /-- What it can be replaced by. -/
  alternatives : List Alternative
deriving DecidableEq, Repr

namespace Production

/-- The production with its alternatives in canonical form. -/
def toCanonical (p : Production) : Production :=
  { p with alternatives := canonical p.alternatives }

/-- The nonterminals that the alternatives refer to. -/
def references (p : Production) : List String := p.alternatives.flatMap Phrase.nonterminals

/-- One line for each alternative.  The name stands in the first one; the others are indented
by as many spaces as the name has bytes in UTF-8. -/
def lines (p : Production) : List String :=
  match p.alternatives.map (Phrase.text id) with
  | [] => [p.name ++ " := <nothing>"]
  | a :: as => (p.name ++ " := " ++ a) ::
      as.map ((Text.spaces p.name.utf8ByteSize ++ " | ") ++ ·)

end Production

/-- A grammar with named nonterminals. -/
structure Grammar where
  /-- The nonterminals in order of declaration. -/
  productions : List Production
  /-- The nonterminal from which sentences are derived. -/
  start : String
deriving DecidableEq, Repr

namespace Grammar

/-- The names of the nonterminals in order. -/
def nonterminals (g : Grammar) : List String := g.productions.map (·.name)

/-- The alternatives of a nonterminal, nothing if it is not defined. -/
def alternatives? (g : Grammar) (name : String) : Option (List Alternative) :=
  (g.productions.find? (·.name == name)).map (·.alternatives)

/-- A listing of the grammar. -/
def text (g : Grammar) : String :=
  Text.unlines (("## start: " ++ g.start) :: "## rules:" :: g.productions.flatMap (·.lines))

end Grammar

end LL1
