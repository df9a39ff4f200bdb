/-
# Fresh names

A nonterminal that a transformation adds is named after the nonterminal it was split off from,
with the smallest number that makes the name new.  A name is new if no nonterminal has it and
no alternative refers to it.
-/
import LL1.Grammar.Basic

namespace LL1

/-- The names that occur in productions, as nonterminals or as references. -/
def mentionedNames (ps : List Production) : List String :=
  ps.flatMap fun p => p.name :: p.references

/-- The first of the names `stem ++ k`, `stem ++ (k + 1)`, … that is not taken, looking at no
more than `n` of them. -/
def firstFree (taken : List String) (stem : String) (k : Nat) : Nat → String
  | 0 => stem ++ toString k
  | n + 1 =>
    let name := stem ++ toString k
    if taken.contains name then firstFree taken stem (k + 1) n else name

/-- The name for a part of kind `kind` of the nonterminal `base`.  One more name is tried than
are taken, so a new one is found. -/
def freshName (taken : List String) (base kind : String) : String :=
  firstFree taken (base ++ "_" ++ kind) 1 taken.length

end LL1
