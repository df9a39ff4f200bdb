/-
# Journals

Besides its result, a computation of this library has a journal: the list of events worth
telling about, each with a severity.  A reader of the journal chooses a level and sees the
events that are at least as severe.
-/

namespace LL1

/-- How much attention an event deserves, from the most to the least. -/
inductive Severity where
  | error
  | warn
  | info
  | debug
  | trace
deriving DecidableEq, Repr

namespace Severity

/-- The number of degrees that are more severe. -/
def rank : Severity → Nat
  | error => 0
  | warn => 1
  | info => 2
  | debug => 3
  | trace => 4

/-- How a severity is written in a journal. -/
def name : Severity → String
  | error => "ERROR"
  | warn => "WARN"
  | info => "INFO"
  | debug => "DEBUG"
  | trace => "TRACE"

end Severity

/-- An entry of a journal. -/
structure Event where
  severity : Severity
  message : String
deriving DecidableEq, Repr

/-- The events of a journal. -/
abbrev Journal := List Event

/-- The events that are at least as severe as a level. -/
def Journal.upTo (level : Severity) (j : Journal) : Journal :=
  j.filter fun e => e.severity.rank ≤ level.rank

end LL1
