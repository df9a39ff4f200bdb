/-
# Terminals

The terminal symbols of every grammar in this library, which are at the same time the
lexical categories that a token can have.  Their order of declaration matters: alternatives
are sorted by it, sets of terminals are listed in it, and the position of a terminal is its
column in a parse table.  The first one, `epsilon`, is a marker for the empty string and is
never read from a source; the last one, `endOfInput`, stands for the end of the source.
-/

namespace LL1

/-- A terminal symbol, or the category of a token. -/
inductive Terminal where
  /-- The empty string.  It marks a nullable set and no token has it. -/
  | epsilon
  | kwCreate
  | kwTable
  | kwSelect
  | kwInsert
  | kwValues
  | kwInto
  | kwPrimary
  | kwKey
  | kwFrom
  | kwWhere
  | kwBetween
  | kwLike
  | kwIn
  | kwAnd
  | kwOr
  | kwNot
  | star
  | equal
  | greater
  | less
  | parenOpen
  | parenClose
  | comma
  | semicolon
  | tyInt
  | tyChar
  | tyNumber
  | intConstant
  | charConstant
  | numberConstant
  | identifier
  /-- The end of the source. -/
  | endOfInput
deriving DecidableEq, Repr, Inhabited

namespace Terminal

/-- The number of terminals, the two markers included. -/
def count : Nat := 33

/-- All terminals in their order of declaration. -/
def all : List Terminal :=
  [epsilon, kwCreate, kwTable, kwSelect, kwInsert, kwValues, kwInto, kwPrimary, kwKey, kwFrom,
    kwWhere, kwBetween, kwLike, kwIn, kwAnd, kwOr, kwNot, star, equal, greater, less, parenOpen,
    parenClose, comma, semicolon, tyInt, tyChar, tyNumber, intConstant, charConstant,
    numberConstant, identifier, endOfInput]

/-- The position of a terminal in `all`. -/
def index (t : Terminal) : Nat := t.ctorIdx

/-- The terminal at a position of `all`. -/
def ofIndex? (i : Nat) : Option Terminal := all[i]?

/-- The terminals that can be the next token of a source: all but the empty string. -/
def lookaheads : List Terminal := all.filter (· ≠ epsilon)

/-- How a terminal is called in texts: words in capitals, signs between backquotes. -/
def name : Terminal → String
  | epsilon => "NONE"
  | kwCreate => "CREATE"
  | kwTable => "TABLE"
  | kwSelect => "SELECT"
  | kwInsert => "INSERT"
  | kwValues => "VALUES"
  | kwInto => "INTO"
  | kwPrimary => "PRIMARY"
  | kwKey => "KEY"
  | kwFrom => "FROM"
  | kwWhere => "WHERE"
  | kwBetween => "BETWEEN"
  | kwLike => "LIKE"
  | kwIn => "IN"
  | kwAnd => "AND"
  | kwOr => "OR"
  | kwNot => "NOT"
  | star => "`*`"
  | equal => "`=`"
  | greater => "`>`"
  | less => "`<`"
  | parenOpen => "`(`"
  | parenClose => "`)`"
  | comma => "`,`"
  | semicolon => "`;`"
  | tyInt => "INT"
  | tyChar => "CHAR"
  | tyNumber => "NUMBER"
  | intConstant => "INT_CONSTANT"
  | charConstant => "CHAR_CONSTANT"
  | numberConstant => "NUMBER_CONSTANT"
  | identifier => "IDENTIFIER"
  | endOfInput => "EOI"

/-- Terminals are ordered by position. -/
instance : Ord Terminal := ⟨compareOn index⟩

@[simp] theorem length_all : all.length = count := rfl

theorem mem_all (t : Terminal) : t ∈ all := by cases t <;> decide

theorem getElem?_all_index (t : Terminal) : all[t.index]? = some t := by cases t <;> rfl

theorem index_getElem_all {i : Nat} (h : i < all.length) : all[i].index = i := by
  have every : ∀ j : Fin all.length, (all.get j).index = j.val := by decide
  exact every ⟨i, h⟩

theorem index_lt (t : Terminal) : t.index < count := by cases t <;> decide

@[simp] theorem ofIndex?_index (t : Terminal) : ofIndex? t.index = some t :=
  getElem?_all_index t

theorem index_injective {a b : Terminal} (h : a.index = b.index) : a = b := by
  have := ofIndex?_index a
  rw [h, ofIndex?_index] at this
  exact (Option.some.inj this).symm

instance : Std.TransOrd Terminal := inferInstanceAs (Std.TransCmp (compareOn index))

instance : Std.LawfulEqOrd Terminal where
  compare_self {t} := (Std.ReflCmp.compare_self : compare t.index t.index = .eq)
  eq_of_compare h := index_injective (Std.LawfulEqOrd.eq_of_compare h)

theorem mem_lookaheads {t : Terminal} : t ∈ lookaheads ↔ t ≠ epsilon := by
  simp [lookaheads, mem_all]

end Terminal

end LL1
