/-
# Numbered rules

The form of a grammar that predictions are computed from: nonterminals and their alternatives
are identified by number, from zero on.
-/
import LL1.Grammar.Symbol

namespace LL1

/-- A nonterminal with its alternatives; the position in the list is the number of an
alternative. -/
structure Rule where
  /-- The name of the nonterminal. -/
  name : String
  /-- Its right-hand sides. -/
  alternatives : List (Phrase Nat)
deriving DecidableEq, Repr, Inhabited

/-- A grammar with numbered nonterminals. -/
structure Rules where
  /-- The rule of each nonterminal, at its number. -/
  rules : Array Rule
  /-- The number of the start symbol. -/
  start : Nat
deriving DecidableEq, Repr

namespace Rules

/-- The number of nonterminals. -/
def size (r : Rules) : Nat := r.rules.size

/-- The name of a nonterminal; a number that belongs to none has a name, too. -/
def name (r : Rules) (i : Nat) : String := (r.rules[i]?.map (·.name)).getD "<unknown>"

/-- The number of the nonterminal with a name. -/
def id? (r : Rules) (name : String) : Option Nat := r.rules.findIdx? (·.name == name)

/-- The alternatives of a nonterminal, none for a number that belongs to no nonterminal. -/
def alternatives (r : Rules) (i : Nat) : List (Phrase Nat) :=
  (r.rules[i]?.map (·.alternatives)).getD []

/-- An alternative of a nonterminal, empty for numbers that belong to none. -/
def alternative (r : Rules) (i a : Nat) : Phrase Nat := ((r.alternatives i)[a]?).getD []

/-- The number of all alternatives. -/
def alternativeCount (r : Rules) : Nat :=
  r.rules.foldl (fun n rule => n + rule.alternatives.length) 0

/-! ### Texts -/

/-- A symbol with nonterminals named. -/
def symbolText (r : Rules) : Symbol Nat → String := Symbol.text r.name

/-- An alternative of a nonterminal. -/
def alternativeText (r : Rules) (i : Nat) (p : Phrase Nat) : String :=
  r.name i ++ " := " ++ Phrase.text r.name p

/-- The lines for a nonterminal, one for each of its alternatives. -/
def ruleLines (r : Rules) (i : Nat) : List String :=
  (r.alternatives i).zipIdx.map fun (p, a) =>
    "[" ++ Text.padLeft 2 a ++ "] " ++ r.alternativeText i p

/-- A listing of the rules. -/
def text (r : Rules) : String :=
  Text.unlines
    (("## start: " ++ r.name r.start) :: "## rules:" :: (List.range r.size).flatMap r.ruleLines)

end Rules

end LL1
