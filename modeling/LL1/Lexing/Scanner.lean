/-
# Scanners

A `Lexer` is given the rest of its source as a whole.  A scanner gets the source character by
character, with automata that stay in the states in which they were left.  What it has read too far
it puts back, together with the places of these characters, in order to read it again.
-/
import LL1.Lexing.Lexer

namespace LL1

/-- The last category and length that was accepted when `n` characters have been read, if `best` was
that before the last of them. -/
def Munch.latest (run : List Automaton) (n : Nat) (best : Option (Terminal × Nat)) :
    Option (Terminal × Nat) :=
  match winner run with
  | some kind => some (kind, n)
  | none => best

/-- A lexer with its working state. -/
structure Scanner where
  /-- The automata of the categories, in the states in which they were left. -/
  automata : List Automaton
  /-- The characters that have been put back, with their places. -/
  pushback : List (Char × Position)
  /-- The characters that have never been read. -/
  source : List Char
  /-- The place of the first of them. -/
  cursor : Position

namespace Scanner

/-- A scanner at the beginning of a source.  The automata may be in any state. -/
def ofSource (automata : List Automaton) (source : String) : Scanner :=
  ⟨automata, [], source.toList, .first⟩

/-- The same scanner at the beginning of another source. -/
def reopen (s : Scanner) (source : String) : Scanner :=
  { s with
    automata := s.automata.map Automaton.reset
    pushback := []
    source := source.toList
    cursor := .first }

/-- The next character with its place, if there is one, and the scanner behind it. -/
def nextChar (s : Scanner) : Option (Char × Position) × Scanner :=
  match s.pushback with
  | c :: pushback => (some c, { s with pushback })
  | [] =>
    match s.source with
    | c :: source => (some (c, s.cursor), { s with source, cursor := s.cursor.after c })
    | [] => (none, s)

/-- Puts back characters, which will be read next. -/
def putBack (s : Scanner) (cs : List (Char × Position)) : Scanner :=
  { s with pushback := cs ++ s.pushback }

/-- All automata read a character. -/
def feed (s : Scanner) (c : Char) : Scanner := { s with automata := s.automata.map (·.feed c) }

/-- All automata are set back. -/
def resetAll (s : Scanner) : Scanner := { s with automata := s.automata.map Automaton.reset }

/-- The number of characters to be read. -/
def size (s : Scanner) : Nat := s.pushback.length + s.source.length

theorem size_nextChar_lt {s s' : Scanner} {c : Char × Position} (h : s.nextChar = (some c, s')) :
    s'.size < s.size := by
  rw [nextChar] at h
  split at h
  · next hpushback =>
    obtain ⟨-, rfl⟩ := Prod.mk.inj h
    simp [size, hpushback]
  · next hpushback =>
    split at h
    · next hsource =>
      obtain ⟨-, rfl⟩ := Prod.mk.inj h
      simp [size, hpushback, hsource]
    · exact absurd (Prod.mk.inj h).1 (by simp)

@[simp] theorem size_feed (s : Scanner) (c : Char) : (s.feed c).size = s.size := rfl

/-- Reads up to the next character that is not blank. -/
def skip (s : Scanner) : Option (Char × Position) × Scanner :=
  match _h : s.nextChar with
  | (none, s') => (none, s')
  | (some c, s') => if Text.isBlank c.1 then skip s' else (some c, s')
termination_by s.size
decreasing_by exact size_nextChar_lt _h

/-- Reads on behind `scanned`, of which the automata have read the last character but nobody has
looked at them since, and of which `best` was accepted before.  Reading ends when all automata have
failed or there is nothing more. -/
def scan (s : Scanner) (scanned : List (Char × Position)) (best : Option (Terminal × Nat)) :
    List (Char × Position) × Option (Terminal × Nat) × Scanner :=
  let best := Munch.latest s.automata scanned.length best
  if s.automata.all Automaton.isFailed then (scanned, best, s)
  else
    match _h : s.nextChar with
    | (none, s') => (scanned, best, s')
    | (some c, s') => scan (s'.feed c.1) (scanned ++ [c]) best
termination_by s.size
decreasing_by
  rw [size_feed]
  exact size_nextChar_lt _h

/-- The text of characters with places. -/
def textOf (cs : List (Char × Position)) : String := .ofList (cs.map (·.1))

/-- The location of characters with places, from the first one to the last one. -/
def span (cs : List (Char × Position)) : Location :=
  match cs.head?, cs.getLast? with
  | some (_, start), some (_, stop) =>
    ⟨start.line, start.column, if stop.line = start.line then stop.column else start.column⟩
  | _, _ => ⟨0, 0, 0⟩

/-- The next token or error of the source, and the scanner behind it. -/
def next (s : Scanner) : Except LexError Token × Scanner :=
  match s.skip with
  | (none, s) => (.ok (.endOfInput s.cursor), s)
  | (some first, s) =>
    match (s.resetAll.feed first.1).scan [first] none with
    | (scanned, some (kind, n), s) =>
      let lexeme := scanned.take n
      (.ok ⟨kind, textOf lexeme, span lexeme⟩, s.putBack (scanned.drop n))
    | (scanned, none, s) => (.error ⟨textOf scanned, span scanned⟩, s.putBack (scanned.drop 1))

end Scanner

end LL1
