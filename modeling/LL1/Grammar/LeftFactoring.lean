/-
# Left factoring

When two alternatives of a nonterminal begin with the same symbol, one token of lookahead cannot
tell them apart.  The longest phrase with which two of them begin is then kept once, followed by
a new nonterminal, placed behind the old one, whose alternatives are what came after the phrase.
Every nonterminal is factored once in a pass, and passes are made until nothing is left to do.

The alternatives of a new nonterminal begin with different symbols, since the phrase taken out
was the longest; so it needs no treatment in the pass that adds it.
-/
import LL1.Grammar.LeftRecursion

namespace LL1

/-- The number of elements that two lists have in common at their beginning. -/
@[specialize]
def commonLength {α : Type} [DecidableEq α] : List α → List α → Nat
  | a :: as, b :: bs => if a = b then commonLength as bs + 1 else 0
  | _, _ => 0

/-- The longest phrase with which two of the phrases begin, or `best` if none is longer.  Among
phrases of the same length the one that is found first counts. -/
@[specialize]
def longestShared {α : Type} [DecidableEq α] (best : List α) : List (List α) → List α
  | [] => best
  | a :: as =>
    let longer (best b : List α) : List α :=
      let n := commonLength a b
      if best.length < n then a.take n else best
    longestShared (as.foldl longer best) as

/-- The number of pairs of phrases that begin with the same element. -/
def countClashes {α : Type} [DecidableEq α] : List (List α) → Nat
  | [] => 0
  | [] :: as => countClashes as
  | (s :: _) :: as => as.countP (·.head? == some s) + countClashes as

namespace Production

/-- The phrase to be taken out of the alternatives, empty if there is none. -/
def shared (p : Production) : Alternative := longestShared [] p.alternatives

/-- The production with a phrase taken out of its alternatives, before they are put into
canonical form, and the production of what came after it. -/
def splitShared (p : Production) (phrase : Alternative) (rest : String) :
    Production × Production :=
  let (sharing, others) := p.alternatives.partition phrase.isPrefixOf
  (⟨p.name, others ++ [phrase ++ [.nonterminal rest]]⟩,
    ⟨rest, sharing.map (·.drop phrase.length)⟩)

/-- The number of pairs of alternatives that begin with the same symbol. -/
def clashes (p : Production) : Nat := countClashes p.alternatives

end Production

/-- A pass over the productions of a grammar. -/
structure FactoringPass where
  /-- The productions that have been visited, the latest first. -/
  visited : List Production
  /-- What has been done, the latest first. -/
  notices : List Notice
  /-- Whether a production has been factored. -/
  changed : Bool
deriving DecidableEq, Repr

namespace FactoringPass

/-- Visits the productions that come next. -/
def visit (f : FactoringPass) : List Production → FactoringPass
  | [] => f
  | p :: later =>
    let phrase := p.shared
    if phrase.isEmpty then visit { f with visited := p :: f.visited } later
    else
      let rest := freshName (mentionedNames (f.visited ++ p :: later)) p.name "rest"
      let (head, tail) := p.splitShared phrase rest
      let told := .factored phrase p.name rest :: head.duplicateNotices
        ++ tail.duplicateNotices
      visit
        { visited := tail.toCanonical :: head.toCanonical :: f.visited
          notices := told.reverse ++ f.notices
          changed := true }
        later

/-- A pass over all productions. -/
def ofProductions (ps : List Production) : FactoringPass := visit ⟨[], [], false⟩ ps

end FactoringPass

/-- A grammar in which passes have been made. -/
structure Factored extends Transformed where
  /-- The number of passes, the last one without a change. -/
  passes : Nat
deriving DecidableEq, Repr

/-- Makes passes until one changes nothing, at most `fuel` of them. -/
def Factored.iterate : Nat → Factored → Factored
  | 0, f => f
  | fuel + 1, f =>
    let pass := FactoringPass.ofProductions f.grammar.productions
    let next : Factored :=
      { grammar := { f.grammar with productions := pass.visited.reverse }
        notices := f.notices ++ pass.notices.reverse
        passes := f.passes + 1 }
    if pass.changed then iterate fuel next else next

/-- The grammar with common phrases taken out.  Every pass but the last separates two clashing
alternatives, so there is one pass more than there are clashes at the most. -/
def Grammar.leftFactor (g : Grammar) : Factored :=
  Factored.iterate (g.productions.foldr (fun p n => p.clashes + n) 0 + 1) ⟨⟨g, []⟩, 0⟩

/-- The event that concludes left factoring. -/
def Factored.event (f : Factored) : Event :=
  let count := f.grammar.productions.length
  ⟨.debug, s!"left factoring finished after {f.passes} passes ({count} nonterminals)"⟩

/-- The two transformations that make a grammar fit for predictive parsing. -/
structure Normalization where
  /-- The grammar without left recursion. -/
  recursionFree : Transformed
  /-- The same grammar, left-factored. -/
  factored : Factored
deriving DecidableEq, Repr

namespace Normalization

/-- The grammar that results. -/
def grammar (n : Normalization) : Grammar := n.factored.grammar

/-- The events of both steps. -/
def journal (n : Normalization) : Journal :=
  n.recursionFree.journal ++ n.factored.toTransformed.journal ++ [n.factored.event]

end Normalization

/-- The grammar without left recursion and common phrases, if `fuel` suffices for the first. -/
def Grammar.normalize (fuel : Nat) (g : Grammar) : Option Normalization :=
  (g.removeLeftRecursion fuel).map fun r => ⟨r, r.grammar.leftFactor⟩

end LL1
