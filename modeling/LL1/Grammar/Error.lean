/-
# Errors of grammars

Everything that can be wrong with a grammar: in its definition, in its references, in its size,
or because one token of lookahead does not determine which alternative to take.
-/
import LL1.TerminalSet

namespace LL1

/-- Why one token of lookahead does not determine the alternative of a nonterminal. -/
inductive ConflictKind where
  /-- The alternatives with these two numbers can begin with the same token. -/
  | firstFirst (i j : Nat)
  /-- The nonterminal can be empty, and it can begin with a token that may follow it. -/
  | firstFollow
deriving DecidableEq

namespace ConflictKind

/-- The wording of a kind of conflict. -/
def text : ConflictKind → String
  | firstFirst i j => s!"FIRST/FIRST conflict between alternatives {i} and {j}"
  | firstFollow => "FIRST/FOLLOW conflict"

end ConflictKind

/-- What is wrong with a grammar. -/
inductive GrammarError where
  /-- The text is not the name of a nonterminal. -/
  | invalidName (name : String)
  /-- The nonterminal is declared although it exists. -/
  | duplicateNonterminal (name : String)
  /-- The marker of the empty string stands in an alternative. -/
  | reservedTerminal
  /-- The nonterminal `referrer` refers to `name`, which does not exist. -/
  | undefinedNonterminal (name referrer : String)
  /-- The start symbol does not exist. -/
  | unknownStartSymbol (name : String)
  /-- There are no nonterminals. -/
  | empty
  /-- The nonterminals cannot be numbered. -/
  | tooManyNonterminals
  /-- The alternatives of the nonterminal cannot be numbered. -/
  | tooManyAlternatives (name : String)
  /-- The lookaheads of the set do not determine the alternative of the nonterminal. -/
  | conflict (name : String) (terminals : TerminalSet) (kind : ConflictKind)
  /-- Two alternatives of the nonterminal belong into the same cell of the parse table. -/
  | tableConflict (name : String) (terminal : Terminal) (i j : Nat)
deriving DecidableEq

namespace GrammarError

/-- The wording of an error. -/
def message : GrammarError → String
  | invalidName name => s!"invalid nonterminal name: `{name}'"
  | duplicateNonterminal name => s!"the nonterminal `{name}' has already been declared"
  | reservedTerminal =>
    "the NONE marker cannot be used as a terminal; use an empty alternative instead"
  | undefinedNonterminal name referrer =>
    s!"undefined nonterminal `{name}' referenced from `{referrer}'"
  | unknownStartSymbol name => s!"unknown start symbol: `{name}'"
  | empty => "empty grammar"
  | tooManyNonterminals => "too many nonterminal symbols"
  | tooManyAlternatives name => s!"too many alternatives of the nonterminal `{name}'"
  | conflict name terminals kind =>
    s!"the grammar is not LL(1): {kind.text} at `{name}' on {terminals.text}"
  | tableConflict name terminal i j =>
    s!"conflicting table entry at (`{name}', {terminal.name}): alternatives {i} and {j}"

end GrammarError

end LL1
