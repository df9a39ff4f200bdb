/-
# Places in a source

Lines and columns are counted in characters from one.  A `Position` is a place between two
characters; a `Location` is the place of a piece of text, with the columns of its first and its
last character on the line on which it begins.
-/

namespace LL1

/-- The place of a character in a source. -/
structure Position where
  /-- The line, counted from one. -/
  line : Nat
  /-- The column, counted from one. -/
  column : Nat
deriving DecidableEq, Repr

namespace Position

/-- The place of the first character of a source. -/
def first : Position := ⟨1, 1⟩

/-- The place of the character that comes after `c`. -/
def after (p : Position) (c : Char) : Position :=
  if c = '\n' then ⟨p.line + 1, 1⟩ else ⟨p.line, p.column + 1⟩

/-- The place of the character that comes after a text. -/
def afterAll (p : Position) (cs : List Char) : Position := cs.foldl after p

@[simp] theorem afterAll_nil (p : Position) : p.afterAll [] = p := rfl

@[simp] theorem afterAll_cons (p : Position) (c : Char) (cs : List Char) :
    p.afterAll (c :: cs) = (p.after c).afterAll cs := rfl

theorem afterAll_append (p : Position) (cs ds : List Char) :
    p.afterAll (cs ++ ds) = (p.afterAll cs).afterAll ds := List.foldl_append

end Position

/-- The place of a piece of text. -/
structure Location where
  /-- The line on which the text begins. -/
  line : Nat
  /-- The column of its first character; zero if columns are not known. -/
  startColumn : Nat
  /-- The column of its last character on that line. -/
  endColumn : Nat
deriving DecidableEq, Repr

namespace Location

/-- The location of the point just before a place. -/
def ofPosition (p : Position) : Location := ⟨p.line, p.column, p.column⟩

/-- The location of a text that begins at `p`.  Its last column is that of its last character
if this stands on the line of the first one, and else the column of the first. -/
def ofText (p : Position) (cs : List Char) : Location :=
  let last := p.afterAll cs.dropLast
  ⟨p.line, p.column, if last.line = p.line then last.column else p.column⟩

/-- A location as messages name it: no columns if they are not known, and a range of columns
only if it is longer than one. -/
def text (l : Location) : String :=
  if l.startColumn = 0 then s!"line {l.line}"
  else if l.startColumn < l.endColumn then
    s!"line {l.line}, columns {l.startColumn}-{l.endColumn}"
  else s!"line {l.line}, column {l.startColumn}"

/-- A message together with the place that it is about. -/
def remark (l : Location) (message : String) : String := message ++ " at " ++ l.text

end Location

end LL1
