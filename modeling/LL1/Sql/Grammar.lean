/-
# The grammar of SQL

A grammar of a subset of SQL, written in the natural way: conditions are left-recursive and
alternatives have common beginnings.  Normalization makes it fit for prediction.
-/
import LL1.Compilation
import LL1.Grammar.Draft

namespace LL1.Sql

open Terminal

/-- A symbol of the grammar given by a terminal. -/
local instance : Coe Terminal (Symbol String) := ⟨.terminal⟩

/-- A symbol of the grammar given by the name of a nonterminal. -/
local instance : Coe String (Symbol String) := ⟨.nonterminal⟩

/-- The comparisons of two values. -/
def comparisons : List Terminal := [less, greater, equal]

/-- The types of columns. -/
def types : List Terminal := [tyInt, tyChar, tyNumber]

/-- Statements. -/
def statementRules : List DraftStep :=
  [.rule "stmt_list" ["stmt", semicolon, "stmt_list"],
    .rule "stmt_list" [],
    .rule "stmt" [],
    .rule "stmt" ["select_stmt"],
    .rule "stmt" ["insert_stmt"],
    .rule "stmt" ["create_table_stmt"]]

/-- Selections. -/
def selectRules : List DraftStep :=
  [.rule "select_stmt" [kwSelect, "identifier_list", "from_stmt", "where_stmt"],
    .rule "select_stmt" [kwSelect, star, "from_stmt", "where_stmt"],
    .rule "from_stmt" [],
    .rule "from_stmt" [kwFrom, "identifier_list"],
    .rule "where_stmt" [],
    .rule "where_stmt" [kwWhere, "condition_expr"]]

/-- Insertions. -/
def insertRules : List DraftStep :=
  [.rule "insert_stmt"
      [kwInsert, kwInto, identifier, kwValues, parenOpen, "constant_list", parenClose],
    .rule "insert_stmt"
      [kwInsert, kwInto, identifier, parenOpen, "identifier_list", parenClose, kwValues,
        parenOpen, "constant_list", parenClose]]

/-- Declarations of tables. -/
def createRules : List DraftStep :=
  [.rule "create_table_stmt" [kwCreate, kwTable, identifier, parenOpen, "decl_list", parenClose]]

/-- Conditions, in which conjunction binds more strongly than disjunction. -/
def conditionRules : List DraftStep :=
  [.rule "condition_expr" ["condition_expr", kwOr, "condition_term"],
    .rule "condition_expr" ["condition_term"],
    .rule "condition_term" ["condition_term", kwAnd, "condition_op"],
    .rule "condition_term" ["condition_op"],
    .rule "condition_op" [kwNot, parenOpen, "condition_expr", parenClose],
    .rule "condition_op" [parenOpen, "condition_expr", parenClose]]
  ++ comparisons.map (fun op =>
    .rule "condition_op" ["identifier_or_constant", op, "identifier_or_constant"])
  ++ [.rule "condition_op"
      ["identifier_or_constant", kwBetween, "identifier_or_constant", kwAnd,
        "identifier_or_constant"],
    .rule "condition_op" ["identifier_or_constant", kwLike, charConstant],
    .rule "condition_op"
      ["identifier_or_constant", kwIn, parenOpen, "constant_list", parenClose]]

/-- Declarations of columns. -/
def columnRules : List DraftStep :=
  [.rule "decl_list" [],
    .rule "decl_list" ["var_decl"],
    .rule "decl_list" ["var_decl", comma, "primary_key_decl"],
    .rule "decl_list" ["var_decl", comma, "decl_list"]]
  ++ types.flatMap (fun ty =>
    [.rule "var_decl" [identifier, ty],
      .rule "var_decl" [identifier, ty, parenOpen, intConstant, parenClose]])
  ++ [.rule "var_decl"
      [identifier, tyNumber, parenOpen, intConstant, comma, intConstant, parenClose],
    .rule "primary_key_decl" [kwPrimary, kwKey, parenOpen, "identifier_list", parenClose]]

/-- Lists and values. -/
def valueRules : List DraftStep :=
  [.rule "identifier_list" [identifier, comma, "identifier_list"],
    .rule "identifier_list" [identifier],
    .rule "constant_list" [],
    .rule "constant_list" ["constant", comma, "constant_list"],
    .rule "constant_list" ["constant"],
    .rule "identifier_or_constant" [identifier],
    .rule "identifier_or_constant" ["constant"],
    .rule "constant" [intConstant],
    .rule "constant" [charConstant],
    .rule "constant" [numberConstant]]

/-- The definition of the grammar. -/
def rules : List DraftStep :=
  statementRules ++ selectRules ++ insertRules ++ createRules ++ conditionRules ++ columnRules
    ++ valueRules

/-- The grammar of the language. -/
def grammar : Except GrammarError Grammar := Grammar.define rules

end LL1.Sql
