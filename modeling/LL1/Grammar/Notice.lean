/-
# Notices about a grammar

What there is to tell about the definition and the transformation of a grammar, apart from the
grammar that results.
-/
import LL1.Grammar.Basic
import LL1.Journal

namespace LL1

/-- Something worth telling about a grammar. -/
inductive Notice where
  /-- The nonterminal was declared without alternatives. -/
  | noAlternatives (name : String)
  /-- Equal alternatives of the nonterminal were merged. -/
  | duplicatesRemoved (name : String)
  /-- An alternative of `name` that began with `leading` was replaced by `count` others. -/
  | substituted (leading : String) (count : Nat) (name : String)
  /-- The left recursion of `name` was turned into right recursion of the new `tail`. -/
  | tailIntroduced (name tail : String)
  /-- All alternatives of the nonterminal begin with itself. -/
  | onlyRecursive (name : String)
  /-- Alternatives of `name` that begin with the same phrase now share it, and go on with the
  new nonterminal `rest`. -/
  | factored (shared : Alternative) (name rest : String)
deriving DecidableEq, Repr

namespace Notice

/-- A notice as an event. -/
def event : Notice → Event
  | noAlternatives name => ⟨.warn, s!"the nonterminal `{name}' has no alternatives"⟩
  | duplicatesRemoved name =>
    ⟨.warn, s!"duplicate alternatives of `{name}' have been removed"⟩
  | substituted leading count name =>
    ⟨.trace, s!"substitute `{leading}' in {count} alternatives of `{name}'"⟩
  | tailIntroduced name tail =>
    ⟨.trace, s!"remove left recursion of `{name}' by introducing `{tail}'"⟩
  | onlyRecursive name => ⟨.warn, s!"the nonterminal `{name}' derives no finite string"⟩
  | factored shared name rest =>
    ⟨.trace, s!"factor out `{Phrase.text id shared}' from `{name}' into `{rest}'"⟩

end Notice

/-- The notice that is due when the alternatives of a production are put into canonical form. -/
def Production.duplicateNotices (p : Production) : List Notice :=
  if hasDuplicates p.alternatives then [.duplicatesRemoved p.name] else []

end LL1
