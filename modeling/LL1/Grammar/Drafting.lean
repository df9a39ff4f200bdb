/-
# Definitions with a working state

A definition works on a draft that it changes in place.  A step looks at what it is given from left
to right and ends at the first thing that is wrong; whatever it has changed by then stays changed.
Whoever gives the steps may pass over the errors and go on, and finish the draft in the end.
-/
import LL1.Grammar.Draft

namespace LL1

/-- The draft with a further alternative of a nonterminal, which is declared if it is new. -/
def Draft.add (d : Draft) (name : String) (a : Alternative) : Draft :=
  match d.alternatives[name]? with
  | some as => { d with alternatives := d.alternatives.insert name (a :: as) }
  | none => d.extend name [a]

/-- Work on a draft that can fail.  A failure takes nothing back. -/
abbrev Drafting := ExceptT GrammarError (StateM Draft)

namespace Drafting

/-- Declares a new nonterminal. -/
def declare (name : String) : Drafting Unit := do
  Draft.checkName name
  if (← get).alternatives.contains name then throw (.duplicateNonterminal name)
  modify (·.extend name [])

/-- Adds an alternative to a nonterminal. -/
def rule (name : String) (a : Alternative) : Drafting Unit := do
  Draft.checkName name
  a.forM fun s => Draft.checkSymbol s
  modify (·.add name a)

/-- Chooses the start symbol. -/
def startAt (name : String) : Drafting Unit := do
  Draft.checkName name
  modify ({ · with start := some name })

/-- Performs a step. -/
def perform : DraftStep → Drafting Unit
  | .declare name => declare name
  | .rule name a => rule name a
  | .startAt name => startAt name

/-- Performs all steps, whatever becomes of each of them, and tells what has. -/
def performAll (steps : List DraftStep) : StateM Draft (List (Except GrammarError Unit)) :=
  steps.mapM fun s => (perform s).run

/-- Those of the steps that succeed. -/
def succeeding (steps : List DraftStep) (d : Draft) : List DraftStep :=
  ((steps.zip ((performAll steps).run d).1).filter (·.2.isOk)).map (·.1)

end Drafting

/-- The grammar defined by a sequence of steps whose errors are passed over. -/
def Grammar.defineTolerantly (steps : List DraftStep) : Except GrammarError Grammar :=
  ((Drafting.performAll steps).run .empty).2.finish

end LL1
