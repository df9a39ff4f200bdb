/-
# The words of SQL

The lexical categories of a subset of SQL.  Keywords and types come before identifiers, which
would accept them as well, and integers before numbers.
-/
import LL1.Lexing.Automaton

namespace LL1.Sql

/-- The words and signs of the language with their categories. -/
def words : List (Terminal × String) :=
  [(.kwCreate, "CREATE"), (.kwTable, "TABLE"), (.kwSelect, "SELECT"), (.kwInsert, "INSERT"),
    (.kwValues, "VALUES"), (.kwInto, "INTO"), (.kwPrimary, "PRIMARY"), (.kwKey, "KEY"),
    (.kwFrom, "FROM"), (.kwWhere, "WHERE"), (.kwBetween, "BETWEEN"), (.kwLike, "LIKE"),
    (.kwIn, "IN"), (.kwAnd, "AND"), (.kwOr, "OR"), (.kwNot, "NOT"), (.star, "*"),
    (.equal, "="), (.greater, ">"), (.less, "<"), (.parenOpen, "("), (.parenClose, ")"),
    (.comma, ","), (.semicolon, ";"), (.tyInt, "INT"), (.tyInt, "INTEGER"),
    (.tyChar, "CHAR"), (.tyChar, "VARCHAR"), (.tyNumber, "NUMBER"), (.tyNumber, "NUMERIC"),
    (.tyNumber, "FLOAT"), (.tyNumber, "DOUBLE")]

/-- The lexical categories of the language. -/
def lexicon : Lexicon :=
  words.map (fun (kind, word) => ⟨kind, .keyword word⟩) ++
    [⟨.intConstant, .integer⟩, ⟨.charConstant, .quoted⟩, ⟨.numberConstant, .number⟩,
      ⟨.identifier, .identifier⟩]

end LL1.Sql
