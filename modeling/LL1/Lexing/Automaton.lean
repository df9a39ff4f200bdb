/-
# Running automata

An automaton reads characters one by one.  It fails on a character outside of its alphabet and
on one for which it has no transition, and once it has failed it stays so until it is reset.
-/
import LL1.Terminal
import LL1.Lexing.Dfa

namespace LL1

/-- A lexical category with the automaton of its words. -/
structure Category where
  /-- The category of the tokens recognised. -/
  kind : Terminal
  /-- The automaton of their texts. -/
  dfa : Dfa

/-- A run of the automaton of a category. -/
structure Automaton extends Category where
  /-- The state reached, nothing after a failure. -/
  state : Option Nat

namespace Automaton

/-- The run of a category that has read nothing. -/
def start (c : Category) : Automaton := { c with state := some c.dfa.initial }

/-- The same automaton before it reads anything. -/
def reset (a : Automaton) : Automaton := { a with state := some a.dfa.initial }

/-- Reads one character. -/
def feed (a : Automaton) (c : Char) : Automaton :=
  { a with state := a.state.bind fun s => if a.dfa.alphabet c then a.dfa.step s c else none }

/-- Reads the characters of a list. -/
def feedAll (a : Automaton) (cs : List Char) : Automaton := cs.foldl feed a

/-- Whether the characters read form a word. -/
def isAccepting (a : Automaton) : Bool := a.state.any fun s => a.dfa.accepting.contains s

/-- Whether the characters read cannot be continued. -/
def isFailed (a : Automaton) : Bool := a.state.isNone

@[simp] theorem kind_feed (a : Automaton) (c : Char) : (a.feed c).kind = a.kind := rfl

@[simp] theorem dfa_feed (a : Automaton) (c : Char) : (a.feed c).dfa = a.dfa := rfl

theorem isFailed_feed {a : Automaton} (h : a.isFailed = true) (c : Char) :
    (a.feed c).isFailed = true := by
  simp_all [isFailed, feed]

end Automaton

/-- The categories of a lexer.  Of two categories that recognise the same text the earlier one
has priority. -/
abbrev Lexicon := List Category

end LL1
