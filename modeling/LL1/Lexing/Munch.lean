/-
# Maximal munch

The automata of a lexicon read the same characters side by side.  Reading goes on until all of
them have failed or the text ends; what counts is the longest beginning of the text that one of
them accepts, and of the automata that accept it the first one.
-/
import LL1.Lexing.Automaton

namespace LL1

/-- What reading a text with several automata has shown. -/
structure Munch where
  /-- The number of characters read. -/
  scanned : Nat
  /-- The category and the length of the longest beginning accepted, if there is one. -/
  best : Option (Terminal × Nat)
deriving DecidableEq, Repr

namespace Munch

/-- The category of the first automaton that accepts. -/
def winner (run : List Automaton) : Option Terminal :=
  (run.find? Automaton.isAccepting).map (·.kind)

/-- Goes on reading after `n` characters, of which `best` was accepted. -/
def resume (run : List Automaton) (n : Nat) (best : Option (Terminal × Nat)) :
    List Char → Munch
  | [] => ⟨n, best⟩
  | c :: cs =>
    let run := run.map (·.feed c)
    let best := match winner run with
      | some kind => some (kind, n + 1)
      | none => best
    if run.all Automaton.isFailed then ⟨n + 1, best⟩ else resume run (n + 1) best cs

/-- Reads a text from its beginning. -/
def ofText (lexicon : Lexicon) (cs : List Char) : Munch :=
  resume (lexicon.map Automaton.start) 0 none cs

end Munch

end LL1
