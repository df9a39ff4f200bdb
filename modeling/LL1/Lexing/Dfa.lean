/-
# Deterministic automata over characters

A lexical category is recognised by a deterministic finite automaton with numbered states.  An
automaton also names its alphabet: a character outside of it ends every run, whatever the
transitions say.  The automata of the built-in categories are given here: fixed words,
identifiers, integers, decimal numbers and quoted text.
-/
import LL1.Text.Layout

namespace LL1

/-- A deterministic automaton whose states are numbers. -/
structure Dfa where
  /-- The state in which a run begins. -/
  initial : Nat
  /-- The states in which the characters read so far are a word of the language. -/
  accepting : List Nat
  /-- The characters that may occur in a word at all. -/
  alphabet : Char → Bool
  /-- The next state, or nothing if no word goes on like this. -/
  step : Nat → Char → Option Nat

namespace Dfa

/-- States are numbered by words of sixteen bits. -/
def stateLimit : Nat := 65536

/-- The mark of a state with a number. -/
def stateMark (s : Nat) : String := "S#" ++ Text.zeroPad 2 s

/-- Whether two characters are equal up to the case of ASCII letters. -/
def sameLetter (a b : Char) : Bool := a.toLower == b.toLower

/-- The automaton of a single ASCII word in any case.  The state is the number of characters
read. -/
def keyword (word : String) : Dfa :=
  let letters := word.toList.toArray
  { initial := 0
    accepting := [letters.size % stateLimit]
    alphabet := fun c => letters.any (sameLetter c)
    step := fun s c =>
      if letters[s]?.any (sameLetter c) then some ((s + 1) % stateLimit) else none }

/-- A letter, followed by letters and digits. -/
def identifier : Dfa where
  initial := 0
  accepting := [1]
  alphabet c := c.isAlphanum
  step
    | 0, c => if c.isAlpha then some 1 else none
    | 1, _ => some 1
    | _, _ => none

/-- The sign of a number. -/
def isSign (c : Char) : Bool := c == '+' || c == '-'

/-- The letter in front of a decimal exponent. -/
def isExponentMark (c : Char) : Bool := c == 'e' || c == 'E'

/-- Digits, after a sign or without one.  State 1 has read the sign and state 2 a digit. -/
def integer : Dfa where
  initial := 0
  accepting := [2]
  alphabet c := c.isDigit || isSign c
  step
    | 0, c => if isSign c then some 1 else if c.isDigit then some 2 else none
    | 1, c => if c.isDigit then some 2 else none
    | 2, c => if c.isDigit then some 2 else none
    | _, _ => none

/-- An integer that may go on with a fraction and after that with an exponent.  The states have
read, from 1 on: a sign, digits, the point, digits of the fraction, the mark of the exponent,
its sign, its digits. -/
def number : Dfa where
  initial := 0
  accepting := [2, 4, 7]
  alphabet c := c.isDigit || isSign c || c == '.' || isExponentMark c
  step
    | 0, c => if isSign c then some 1 else if c.isDigit then some 2 else none
    | 1, c => if c.isDigit then some 2 else none
    | 2, c =>
      if c.isDigit then some 2 else if c == '.' then some 3
      else if isExponentMark c then some 5 else none
    | 3, c => if c.isDigit then some 4 else none
    | 4, c => if c.isDigit then some 4 else if isExponentMark c then some 5 else none
    | 5, c => if isSign c then some 6 else if c.isDigit then some 7 else none
    | 6, c => if c.isDigit then some 7 else none
    | 7, c => if c.isDigit then some 7 else none
    | _, _ => none

/-- Any characters between two equal quotes, which are single or double; the other kind of
quote is an ordinary character in between.  States 1 and 2 are inside of single and of double
quotes, and state 3 is behind the closing one. -/
def quoted : Dfa where
  initial := 0
  accepting := [3]
  alphabet _ := true
  step
    | 0, c => if c == '\'' then some 1 else if c == '"' then some 2 else none
    | 1, c => if c == '\'' then some 3 else some 1
    | 2, c => if c == '"' then some 3 else some 2
    | _, _ => none

end Dfa

end LL1
