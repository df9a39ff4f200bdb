/-
# Numbering in words of sixteen bits

Resolution as it can be carried out with words of sixteen bits and without looking for repetitions.
A count or a position that does not fit into a word is noticed where it is narrowed to one: the
number of nonterminals, the number of alternatives of one of them, and the position of a name each
time it is looked up.  Afterwards numbers are narrowed without a test.  The alternatives of a
nonterminal are sorted, and all of them are kept.
-/
import LL1.Rules.Resolution

namespace LL1

/-- A number as a word of sixteen bits, nothing if it does not fit into one. -/
def word? (n : Nat) : Option Nat := if n < UInt16.size then some n else none

/-- The number of the nonterminal with a name, nothing if it is not defined or its position does
not fit into a word. -/
def Grammar.number? (g : Grammar) (name : String) : Option Nat :=
  (g.nonterminals.idxOf? name).bind word?

/-- A symbol with the number of its nonterminal in place of the name. -/
def Symbol.number (number? : String → Option Nat) (referrer : String) :
    Symbol String → Except GrammarError (Symbol Nat)
  | .terminal t => .ok (.terminal t)
  | .nonterminal n =>
    match number? n with
    | some i => .ok (.nonterminal i)
    | none => .error (.undefinedNonterminal n referrer)

/-- A production with numbers in place of names. -/
def Production.number (number? : String → Option Nat) (p : Production) :
    Except GrammarError Rule := do
  if (word? p.alternatives.length).isNone then .error (.tooManyAlternatives p.name)
  else
    let phrases ← p.alternatives.mapM fun a => a.mapM (Symbol.number number? p.name)
    .ok ⟨p.name, phrases.mergeSort fun a b => (compare a b).isLE⟩

namespace Rules

/-- The rules of a grammar, or the first reason why it has none. -/
def number (g : Grammar) : Except GrammarError Rules := do
  if (word? g.productions.length).isNone then .error .tooManyNonterminals
  else
    let rules ← g.productions.mapM (Production.number g.number?)
    match g.number? g.start with
    | some start => .ok ⟨rules.toArray, start⟩
    | none => .error (.unknownStartSymbol g.start)

/-- The number of the nonterminal with a name, narrowed to a word. -/
def number? (r : Rules) (name : String) : Option Nat :=
  (r.id? name).map fun i => (UInt16.ofNat i).toNat

end Rules

end LL1
