/-
# Removing left recursion

The nonterminals are treated in order of declaration.  While an alternative of the current one
begins with a nonterminal that was treated before, that nonterminal is replaced by each of its
alternatives.  What remains of the left recursion is immediate: `A` has alternatives `A α`
beside others `β`.  A new nonterminal `T`, placed behind `A`, takes it over: `A` becomes `β T`,
and `T` becomes `α T` or nothing.

On a grammar in which a nonterminal derives itself the replacements may go on for ever.  The
number of steps is therefore an argument, and there is no result if it does not suffice.
-/
import LL1.Grammar.FreshName
import LL1.Grammar.Notice

namespace LL1

/-- The first element on which `f` is defined, with its value, and the list without it. -/
def extractFirst {α β : Type} (f : α → Option β) : List α → Option (β × List α)
  | [] => none
  | a :: as =>
    match f a with
    | some b => some (b, as)
    | none => (extractFirst f as).map fun (b, rest) => (b, a :: rest)

/-- A grammar that is being freed from left recursion. -/
structure Elimination where
  /-- The productions that have been treated, the latest first. -/
  settled : List Production
  /-- The productions that have not, beginning with the current one. -/
  pending : List Production
  /-- What has been done, the latest first. -/
  notices : List Notice
deriving DecidableEq, Repr

namespace Elimination

/-- Nothing has been treated. -/
def ofProductions (ps : List Production) : Elimination := ⟨[], ps, []⟩

/-- All productions, in order. -/
def productions (e : Elimination) : List Production := e.settled.reverse ++ e.pending

/-- The settled production of the nonterminal with which an alternative begins, and the rest of
the alternative. -/
def expansion? (settled : List Production) : Alternative → Option (Production × Alternative)
  | .nonterminal n :: rest => (settled.find? (·.name == n)).map (·, rest)
  | _ => none

/-- Whether an alternative begins with the nonterminal itself. -/
def isRecursive (name : String) (a : Alternative) : Bool := a.leading? == some name

/-- The two productions that take the place of an immediately left-recursive one. -/
def splitRecursion (p : Production) (tail : String) : Production × Production :=
  let (recursive, others) := p.alternatives.partition (isRecursive p.name)
  (⟨p.name, others.map (· ++ [.nonterminal tail])⟩,
    ⟨tail, recursive.map (fun a => a.tail ++ [.nonterminal tail]) ++ [[]]⟩)

/-- Settles the current production `p`, in which no alternative begins with a settled
nonterminal. -/
def settle (e : Elimination) (p : Production) (later : List Production) : Elimination :=
  if p.alternatives.any (isRecursive p.name) then
    let tail := freshName (mentionedNames (e.settled ++ p :: later)) p.name "tail"
    let (head, rest) := splitRecursion p tail
    let told := .tailIntroduced p.name tail :: e.notices
    ⟨rest :: head :: e.settled, later,
      if head.alternatives.isEmpty then .onlyRecursive p.name :: told else told⟩
  else ⟨p :: e.settled, later, e.notices⟩

/-- One replacement in the current production, or its settlement; nothing if all productions
are settled. -/
def step (e : Elimination) : Option Elimination :=
  match e.pending with
  | [] => none
  | p :: later =>
    match extractFirst (expansion? e.settled) p.alternatives with
    | some ((q, rest), others) =>
      some { e with
        pending := { p with alternatives := others ++ q.alternatives.map (· ++ rest) } :: later
        notices := .substituted q.name q.alternatives.length p.name :: e.notices }
    | none => some (e.settle p later)

/-- Steps until all productions are settled, of which there must be fewer than the given
number. -/
def run : Nat → Elimination → Option Elimination
  | 0, _ => none
  | fuel + 1, e =>
    match e.step with
    | none => some e
    | some e => run fuel e

end Elimination

/-- A grammar with the notices about how it came to be. -/
structure Transformed where
  grammar : Grammar
  notices : List Notice
deriving DecidableEq, Repr

/-- The events of a transformation. -/
def Transformed.journal (t : Transformed) : Journal := t.notices.map Notice.event

/-- The grammar without left recursion, its alternatives in canonical form. -/
def Grammar.removeLeftRecursion (fuel : Nat) (g : Grammar) : Option Transformed :=
  ((Elimination.ofProductions g.productions).run fuel).map fun e =>
    let ps := e.productions
    { grammar := { g with productions := ps.map Production.toCanonical }
      notices := e.notices.reverse ++ ps.flatMap Production.duplicateNotices }

end LL1
