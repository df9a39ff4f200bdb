/-
# Predictors

A predictive parser looks at the nonterminal that it expects and at the next token, and is told
what to do: to go on with one of the alternatives of the nonterminal, or to report an error and
to recover from it.
-/
import LL1.Grammar.Symbol
import LL1.Text.Layout

namespace LL1

/-- How a parser gets over an unexpected token. -/
inductive Recovery where
  /-- It gives up the nonterminal that it expects. -/
  | pop
  /-- It passes over the token. -/
  | scan
deriving DecidableEq, Repr

/-- How a recovery is called in journals. -/
def Recovery.name : Recovery → String
  | pop => "Pop"
  | scan => "Scan"

/-- What to do with an expected nonterminal in view of a token. -/
inductive Action where
  /-- Expect the symbols of the alternative with this number in its place. -/
  | expand (alternative : Nat)
  /-- Report an error. -/
  | recover (how : Recovery)
deriving DecidableEq, Repr, Inhabited

/-- The rules and the decisions that a parser follows. -/
structure Predictor where
  /-- The number of the nonterminal that a source must be derived from. -/
  start : Nat
  /-- What to do, given the number of the nonterminal and the kind of the token. -/
  action : Nat → Terminal → Action
  /-- The symbols of an alternative, given the number of its nonterminal and its own. -/
  alternative : Nat → Nat → Phrase Nat
  /-- The name of a nonterminal. -/
  name : Nat → String

/-- What is expected of a whole source: the start symbol and then the end. -/
def Predictor.goal (pr : Predictor) : Phrase Nat :=
  [.nonterminal pr.start, .terminal .endOfInput]

/-- The mark of a nonterminal with a number. -/
def nonterminalMark (i : Nat) : String := "N#" ++ Text.zeroPad 3 i

/-- The mark of an alternative with a number. -/
def alternativeMark (a : Nat) : String := "A#" ++ Text.zeroPad 3 a

end LL1
