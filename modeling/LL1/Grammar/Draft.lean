/-
# Defining a grammar

A grammar is defined by a sequence of steps: declaring a nonterminal, adding an alternative to
one (which declares it if need be), and choosing the start symbol.  A step that is refused
leaves the draft as it was.  When the steps are over, the draft is finished: the start symbol
is settled and the alternatives of every nonterminal are put into canonical form.
-/
import LL1.Grammar.Basic
import LL1.Grammar.Error
import LL1.Grammar.Name
import LL1.Grammar.Notice
import Std.Data.TreeMap

namespace LL1

/-- A grammar that is being defined. -/
structure Draft where
  /-- The nonterminals declared so far, the latest first. -/
  declared : List String
  /-- The alternatives that each of them has, the latest first. -/
  alternatives : Std.TreeMap String (List Alternative)
  /-- The start symbol that was chosen last. -/
  start : Option String

/-- A step of a definition. -/
inductive DraftStep where
  /-- Declare a new nonterminal. -/
  | declare (name : String)
  /-- Add an alternative to a nonterminal. -/
  | rule (name : String) (alternative : Alternative)
  /-- Choose the start symbol. -/
  | startAt (name : String)
deriving DecidableEq, Repr

namespace Draft

/-- The draft without nonterminals. -/
def empty : Draft := ⟨[], ∅, none⟩

/-- Refuses what is not a name. -/
def checkName (name : String) : Except GrammarError Unit :=
  if isName name then .ok () else .error (.invalidName name)

/-- Refuses what cannot stand in an alternative. -/
def checkSymbol : Symbol String → Except GrammarError Unit
  | .nonterminal name => checkName name
  | .terminal .epsilon => .error .reservedTerminal
  | .terminal _ => .ok ()

/-- Refuses an alternative at the first symbol that cannot stand in one. -/
def checkAlternative : Alternative → Except GrammarError Unit
  | [] => .ok ()
  | s :: ss => do
    checkSymbol s
    checkAlternative ss

/-- The draft with a further nonterminal. -/
def extend (d : Draft) (name : String) (as : List Alternative) : Draft :=
  { d with declared := name :: d.declared, alternatives := d.alternatives.insert name as }

/-- Declares a new nonterminal. -/
def declare (d : Draft) (name : String) : Except GrammarError Draft := do
  checkName name
  if d.alternatives.contains name then .error (.duplicateNonterminal name)
  else .ok (d.extend name [])

/-- Adds an alternative to a nonterminal, which is declared if it is new. -/
def rule (d : Draft) (name : String) (a : Alternative) : Except GrammarError Draft := do
  checkName name
  checkAlternative a
  match d.alternatives[name]? with
  | some as => .ok { d with alternatives := d.alternatives.insert name (a :: as) }
  | none => .ok (d.extend name [a])

/-- Chooses the start symbol. -/
def startAt (d : Draft) (name : String) : Except GrammarError Draft := do
  checkName name
  .ok { d with start := some name }

/-- Performs a step, or tells why it is refused. -/
def apply (d : Draft) : DraftStep → Except GrammarError Draft
  | .declare name => d.declare name
  | .rule name a => d.rule name a
  | .startAt name => d.startAt name

/-- Performs steps up to the first one that is refused. -/
def applyAll (d : Draft) : List DraftStep → Draft × Option GrammarError
  | [] => (d, none)
  | s :: ss =>
    match d.apply s with
    | .ok d => d.applyAll ss
    | .error e => (d, some e)

/-- Performs the steps that are not refused, and leaves out the others. -/
def applyPossible (d : Draft) : List DraftStep → Draft
  | [] => d
  | s :: ss =>
    match d.apply s with
    | .ok d => d.applyPossible ss
    | .error _ => d.applyPossible ss

/-- The nonterminals in order of declaration, with their alternatives in order of definition. -/
def productions (d : Draft) : List Production :=
  d.declared.reverse.map fun name => ⟨name, (d.alternatives.getD name []).reverse⟩

/-- The start symbol: the one chosen, which must be declared, or else the first nonterminal. -/
def settleStart (d : Draft) : Except GrammarError String :=
  match d.start with
  | some name =>
    if d.alternatives.contains name then .ok name else .error (.unknownStartSymbol name)
  | none =>
    match d.declared.getLast? with
    | some name => .ok name
    | none => .error .empty

/-- What there is to tell when the draft is finished: first about nonterminals without
alternatives, then about alternatives given twice. -/
def notices (d : Draft) : List Notice :=
  d.productions.filterMap (fun p =>
    if p.alternatives.isEmpty then some (.noAlternatives p.name) else none)
  ++ d.productions.flatMap Production.duplicateNotices

/-- The events of finishing the draft, none if that fails. -/
def journal (d : Draft) : Journal :=
  match d.settleStart with
  | .ok _ => d.notices.map Notice.event
  | .error _ => []

/-- The grammar that the draft has come to. -/
def finish (d : Draft) : Except GrammarError Grammar := do
  let start ← d.settleStart
  .ok ⟨d.productions.map Production.toCanonical, start⟩

end Draft

/-- The grammar defined by a sequence of steps, or the first error. -/
def Grammar.define (steps : List DraftStep) : Except GrammarError Grammar :=
  match Draft.empty.applyAll steps with
  | (d, none) => d.finish
  | (_, some e) => .error e

end LL1
