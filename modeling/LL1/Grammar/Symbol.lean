/-
# Symbols and phrases

The right-hand side of a grammar rule is a phrase, a sequence of terminals and nonterminals.
How nonterminals are identified is left open: an authored grammar refers to them by name, a
resolved one by number.  Terminals come before nonterminals, and phrases are ordered like the
words of a dictionary.
-/
import LL1.Terminal
import LL1.Text.Layout

namespace LL1

/-- A terminal or nonterminal symbol; `ν` is the type of the names of nonterminals. -/
inductive Symbol (ν : Type) where
  | terminal (t : Terminal)
  | nonterminal (n : ν)
deriving DecidableEq, Repr

namespace Symbol

variable {ν μ : Type}

/-- The order of symbols. -/
def compare [Ord ν] : Symbol ν → Symbol ν → Ordering
  | terminal a, terminal b => Ord.compare a b
  | terminal _, nonterminal _ => .lt
  | nonterminal _, terminal _ => .gt
  | nonterminal a, nonterminal b => Ord.compare a b

instance [Ord ν] : Ord (Symbol ν) := ⟨compare⟩

/-! The order of symbols is a linear order if that of the names is one. -/

@[simp] theorem compare_terminal [Ord ν] (a b : Terminal) :
    Ord.compare (terminal a : Symbol ν) (terminal b) = Ord.compare a b := rfl

@[simp] theorem compare_nonterminal [Ord ν] (a b : ν) :
    Ord.compare (nonterminal a) (nonterminal b) = Ord.compare a b := rfl

@[simp] theorem compare_terminal_nonterminal [Ord ν] (a : Terminal) (b : ν) :
    Ord.compare (terminal a) (nonterminal b) = .lt := rfl

@[simp] theorem compare_nonterminal_terminal [Ord ν] (a : ν) (b : Terminal) :
    Ord.compare (nonterminal a) (terminal b) = .gt := rfl

instance [Ord ν] [Std.TransOrd ν] : Std.TransOrd (Symbol ν) where
  eq_swap {a b} := by
    cases a <;> cases b <;> simp [← Std.OrientedCmp.eq_swap]
  isLE_trans {a b c} hab hbc := by
    cases a <;> cases b <;> cases c <;> simp_all
    · exact Std.TransCmp.isLE_trans hab hbc
    · exact Std.TransCmp.isLE_trans hab hbc

instance [Ord ν] [Std.LawfulEqOrd ν] : Std.LawfulEqOrd (Symbol ν) where
  compare_self {a} := by cases a <;> simp
  eq_of_compare {a b} h := by
    cases a <;> cases b <;> simp_all

/-- A symbol as messages name it, given the names of nonterminals. -/
def text (name : ν → String) : Symbol ν → String
  | terminal t => t.name
  | nonterminal n => name n

/-- The nonterminal that a symbol is. -/
def nonterminal? : Symbol ν → Option ν
  | terminal _ => none
  | nonterminal n => some n

end Symbol

/-- A sequence of symbols. -/
abbrev Phrase (ν : Type) := List (Symbol ν)

namespace Phrase

variable {ν : Type}

/-- A phrase as messages show it. -/
def text (name : ν → String) (p : Phrase ν) : String := Text.sequence (p.map (Symbol.text name))

/-- The nonterminal with which a phrase begins. -/
def leading? : Phrase ν → Option ν
  | .nonterminal n :: _ => some n
  | _ => none

/-- The nonterminals in a phrase, in order and with repetitions. -/
def nonterminals (p : Phrase ν) : List ν := p.filterMap Symbol.nonterminal?

end Phrase

end LL1
