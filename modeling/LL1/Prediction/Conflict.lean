/-
# Conflicts

Rules can be used for prediction with one token of lookahead if for every nonterminal the
alternatives begin with different terminals, only one of them can be empty, and a nonterminal
that can be empty does not begin with a terminal that can follow it.
-/
import LL1.Grammar.Error
import LL1.Prediction.FirstFollow

namespace LL1

namespace FirstFollow

/-- The first two alternatives whose FIRST sets have a common element, the one with number `i`
and a later one, of which the next has number `j`. -/
def clashWith (s : TerminalSet) (i j : Nat) : List TerminalSet → Option (TerminalSet × Nat × Nat)
  | [] => none
  | t :: ts => if (s ∩ t).isEmpty then clashWith s i (j + 1) ts else some (s ∩ t, i, j)

/-- The first two sets of a list that have a common element, where `i` is the number of the
first one: the common elements and the two numbers. -/
def clash (i : Nat) : List TerminalSet → Option (TerminalSet × Nat × Nat)
  | [] => none
  | s :: ts => clashWith s i (i + 1) ts <|> clash (i + 1) ts

/-- The conflict at a nonterminal, if there is one. -/
def conflict? (s : FirstFollow) (r : Rules) (i : Nat) : Option GrammarError :=
  match clash 0 ((r.alternatives i).map s.phraseFirst) with
  | some (terminals, a, b) => some (.conflict (r.name i) terminals (.firstFirst a b))
  | none =>
    let common := s.firstOf i ∩ s.followOf i
    if s.isNullable i && !common.isEmpty then some (.conflict (r.name i) common .firstFollow)
    else none

/-- Refuses rules with a conflict, at the first nonterminal that has one. -/
def check (s : FirstFollow) (r : Rules) : Except GrammarError Unit :=
  match (List.range r.size).findSome? (s.conflict? r) with
  | some e => .error e
  | none => .ok ()

end FirstFollow

end LL1
