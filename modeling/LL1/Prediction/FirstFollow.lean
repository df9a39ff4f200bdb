/-
# FIRST and FOLLOW

FIRST of a nonterminal holds the terminals with which a string derived from it can begin, and
the marker of the empty string if it can be empty.  FOLLOW holds the terminals that can come
after it.  Both are the smallest sets that satisfy a list of demands, one for each alternative
in the case of FIRST and one for each occurrence of a nonterminal in the case of FOLLOW.
-/
import LL1.Journal
import LL1.Prediction.Saturation
import LL1.Rules.Basic

namespace LL1

/-- FIRST of a phrase, given FIRST of the nonterminals: what its first symbol can begin with,
and if that can be empty, what the others can. -/
def firstOfPhrase (first : SetFamily) : Phrase Nat → TerminalSet
  | [] => .singleton .epsilon
  | .terminal .epsilon :: p => firstOfPhrase first p
  | .terminal t :: _ => .singleton t
  | .nonterminal i :: p =>
    let s := first.get i
    if s.contains .epsilon then s.erase .epsilon ∪ firstOfPhrase first p else s

/-- The FIRST and FOLLOW sets of numbered rules. -/
structure FirstFollow where
  /-- The FIRST sets. -/
  first : Saturated
  /-- The FOLLOW sets. -/
  follow : Saturated
deriving DecidableEq

namespace Rules

/-- FIRST of a nonterminal includes FIRST of each of its alternatives. -/
def firstDemands (r : Rules) : List Demand :=
  (List.range r.size).flatMap fun i =>
    (r.alternatives i).map fun p => ⟨i, fun first => firstOfPhrase first p⟩

/-- The FIRST sets. -/
def firstSets (r : Rules) : Saturated := saturate r.firstDemands (.ofSize r.size)

/-- What must follow the nonterminals of a phrase in which nonterminal `i` can end: what the
rest of the phrase can begin with, and if the rest can be empty, what follows `i`. -/
def followDemandsOf (first : SetFamily) (i : Nat) : Phrase Nat → List Demand
  | [] => []
  | .terminal _ :: p => followDemandsOf first i p
  | .nonterminal j :: p =>
    let s := firstOfPhrase first p
    let bound : SetFamily → TerminalSet :=
      if s.contains .epsilon then fun follow => s.erase .epsilon ∪ follow.get i else fun _ => s
    ⟨j, bound⟩ :: followDemandsOf first i p

/-- The demands on FOLLOW by all occurrences of nonterminals. -/
def followDemands (r : Rules) (first : SetFamily) : List Demand :=
  (List.range r.size).flatMap fun i => (r.alternatives i).flatMap (followDemandsOf first i)

/-- The FOLLOW sets.  The end of the source follows the start symbol. -/
def followSets (r : Rules) (first : SetFamily) : Saturated :=
  saturate (r.followDemands first)
    ((SetFamily.ofSize r.size).add r.start (.singleton .endOfInput))

/-- The FIRST and FOLLOW sets. -/
def firstFollow (r : Rules) : FirstFollow :=
  let first := r.firstSets
  ⟨first, r.followSets first.family⟩

end Rules

namespace FirstFollow

/-- FIRST of a nonterminal. -/
def firstOf (s : FirstFollow) (i : Nat) : TerminalSet := s.first.family.get i

/-- FOLLOW of a nonterminal. -/
def followOf (s : FirstFollow) (i : Nat) : TerminalSet := s.follow.family.get i

/-- Whether a nonterminal derives the empty string. -/
def isNullable (s : FirstFollow) (i : Nat) : Bool := (s.firstOf i).contains .epsilon

/-- FIRST of a phrase. -/
def phraseFirst (s : FirstFollow) (p : Phrase Nat) : TerminalSet := firstOfPhrase s.first.family p

/-- The lookaheads that call for an alternative of nonterminal `i`: those with which it can
begin, and if it can be empty, those that can follow the nonterminal. -/
def predict (s : FirstFollow) (i : Nat) (p : Phrase Nat) : TerminalSet :=
  let f := s.phraseFirst p
  if f.contains .epsilon then f.erase .epsilon ∪ s.followOf i else f

/-- The lines for a nonterminal. -/
def lines (s : FirstFollow) (r : Rules) (i : Nat) : List String :=
  [r.name i, "  FIRST  = " ++ (s.firstOf i).text, "  FOLLOW = " ++ (s.followOf i).text]

/-- A listing of the sets. -/
def text (s : FirstFollow) (r : Rules) : String :=
  Text.unlines ((List.range r.size).flatMap (s.lines r))

/-- The events of computing the sets. -/
def journal (s : FirstFollow) : Journal :=
  [⟨.debug, s!"FIRST sets converged after {s.first.rounds} rounds"⟩,
    ⟨.debug, s!"FOLLOW sets converged after {s.follow.rounds} rounds"⟩]

end FirstFollow

end LL1
