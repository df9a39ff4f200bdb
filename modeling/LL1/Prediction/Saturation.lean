/-
# Saturation

Sets that are demanded to include others are found by letting them grow.  A demand names a set,
by its number, and bounds it from below by an expression in all of the sets.  In a round every
demand is met in turn, each one seeing what the earlier ones have added; rounds are made until
one adds nothing.
-/
import LL1.TerminalSet

namespace LL1

/-- A family of sets, identified by number from zero on. -/
structure SetFamily where
  sets : Array TerminalSet
deriving DecidableEq

namespace SetFamily

/-- A number of empty sets. -/
def ofSize (n : Nat) : SetFamily := ⟨Array.replicate n ∅⟩

/-- The number of sets. -/
def size (f : SetFamily) : Nat := f.sets.size

/-- The set with a number, empty if there is none. -/
def get (f : SetFamily) (i : Nat) : TerminalSet := f.sets[i]?.getD ∅

/-- Adds elements to a set of the family. -/
def add (f : SetFamily) (i : Nat) (s : TerminalSet) : SetFamily := ⟨f.sets.modify i (· ∪ s)⟩

end SetFamily

/-- The demand that a set of a family include what an expression says. -/
structure Demand where
  /-- The number of the set. -/
  target : Nat
  /-- What it must include. -/
  bound : SetFamily → TerminalSet

/-- A family that grows, and whether it has grown in the round. -/
structure Growth where
  family : SetFamily
  grown : Bool
deriving DecidableEq

namespace Growth

/-- Meets a demand. -/
def satisfy (g : Growth) (d : Demand) : Growth :=
  let s := d.bound g.family
  if g.family.get d.target ∪ s = g.family.get d.target then g
  else ⟨g.family.add d.target s, true⟩

/-- Meets all demands once. -/
def round (demands : List Demand) (f : SetFamily) : Growth := demands.foldl satisfy ⟨f, false⟩

end Growth

/-- The outcome of a saturation. -/
structure Saturated where
  /-- The sets. -/
  family : SetFamily
  /-- The number of rounds, the last one without a change. -/
  rounds : Nat
deriving DecidableEq

namespace Saturated

/-- Makes rounds until one adds nothing, at most `fuel` of them. -/
def iterate (demands : List Demand) : Nat → Saturated → Saturated
  | 0, s => s
  | fuel + 1, s =>
    let g := Growth.round demands s.family
    let next : Saturated := ⟨g.family, s.rounds + 1⟩
    if g.grown then iterate demands fuel next else next

end Saturated

/-- The family that has grown from `f` until all demands are met.  Every round but the last adds
an element to some set, which bounds their number. -/
def saturate (demands : List Demand) (f : SetFamily) : Saturated :=
  Saturated.iterate demands (f.size * Terminal.count + 1) ⟨f, 0⟩

end LL1
