/-
# Resolving names

The nonterminals of a grammar are numbered in their order, and the alternatives of each of them
are put into canonical form anew, since the order of numbers is not the order of names.  Numbers
are words of sixteen bits, so there may not be more than `numberLimit` nonterminals, nor that
many alternatives of one of them.
-/
import LL1.Grammar.Basic
import LL1.Grammar.Error
import LL1.Journal
import LL1.Rules.Basic

namespace LL1

/-- The greatest number of things that can be numbered. -/
def numberLimit : Nat := 65535

/-- A symbol with the number of its nonterminal in place of the name. -/
def Symbol.resolve (names : List String) (referrer : String) :
    Symbol String → Except GrammarError (Symbol Nat)
  | .terminal t => .ok (.terminal t)
  | .nonterminal n =>
    match names.idxOf? n with
    | some i => .ok (.nonterminal i)
    | none => .error (.undefinedNonterminal n referrer)

/-- A production with numbers in place of names. -/
def Production.resolve (names : List String) (p : Production) : Except GrammarError Rule := do
  if p.alternatives.length > numberLimit then .error (.tooManyAlternatives p.name)
  else
    let phrases ← p.alternatives.mapM fun a => a.mapM (Symbol.resolve names p.name)
    .ok ⟨p.name, canonical phrases⟩

/-- The rules of a grammar, or the first reason why it has none. -/
def Rules.resolve (g : Grammar) : Except GrammarError Rules := do
  if g.productions.length > numberLimit then .error .tooManyNonterminals
  else
    let names := g.nonterminals
    let rules ← g.productions.mapM (Production.resolve names)
    match names.idxOf? g.start with
    | some start => .ok ⟨rules.toArray, start⟩
    | none => .error (.unknownStartSymbol g.start)

/-- The event that concludes the resolution of names. -/
def Rules.event (r : Rules) : Event :=
  ⟨.debug, s!"resolved {r.size} nonterminals, {r.alternativeCount} alternatives"⟩

end LL1
