/-
# Sets of terminals

A set of terminals is a word with one bit for each of them.  The set is known through
`contains`: every operation below comes with the equation that says which terminals the
result contains, and two sets with the same terminals are equal (`ext_contains`).
-/
import LL1.Terminal

namespace LL1

/-- A set of terminals; the bit at position `t.index` tells whether `t` belongs to it. -/
structure TerminalSet where
  bits : BitVec Terminal.count
deriving DecidableEq

namespace TerminalSet

/-- The set without elements. -/
def empty : TerminalSet := ⟨0⟩

instance : EmptyCollection TerminalSet := ⟨empty⟩
instance : Inhabited TerminalSet := ⟨empty⟩

/-- Whether a terminal belongs to the set. -/
def contains (s : TerminalSet) (t : Terminal) : Bool := s.bits.getLsbD t.index

instance : Membership Terminal TerminalSet := ⟨fun s t => s.contains t = true⟩

instance (t : Terminal) (s : TerminalSet) : Decidable (t ∈ s) :=
  inferInstanceAs (Decidable (s.contains t = true))

/-- The set with the single element `t`. -/
def singleton (t : Terminal) : TerminalSet := ⟨BitVec.twoPow _ t.index⟩

/-- The elements of either set. -/
def union (a b : TerminalSet) : TerminalSet := ⟨a.bits ||| b.bits⟩

instance : Union TerminalSet := ⟨union⟩

/-- The common elements. -/
def inter (a b : TerminalSet) : TerminalSet := ⟨a.bits &&& b.bits⟩

instance : Inter TerminalSet := ⟨inter⟩

/-- The set with `t` added. -/
def insert (s : TerminalSet) (t : Terminal) : TerminalSet := s ∪ singleton t

/-- The set with `t` taken out. -/
def erase (s : TerminalSet) (t : Terminal) : TerminalSet := ⟨s.bits &&& ~~~(singleton t).bits⟩

/-- The set of the terminals in a list. -/
def ofList (ts : List Terminal) : TerminalSet := ts.foldl insert ∅

/-- The elements, in order of declaration. -/
def toList (s : TerminalSet) : List Terminal := Terminal.all.filter s.contains

/-- The number of elements. -/
def size (s : TerminalSet) : Nat := s.toList.length

/-- Whether there are no elements. -/
def isEmpty (s : TerminalSet) : Bool := s.bits == 0

/-- Whether two sets have no common element. -/
def isDisjoint (a b : TerminalSet) : Bool := (a ∩ b).isEmpty

/-- The elements between braces, separated by commas. -/
def text (s : TerminalSet) : String :=
  "\x7b" ++ String.intercalate ", " (s.toList.map Terminal.name) ++ "\x7d"

/-! ### What the operations contain -/

theorem mem_iff_contains {t : Terminal} {s : TerminalSet} : t ∈ s ↔ s.contains t = true := Iff.rfl

@[simp] theorem contains_empty (t : Terminal) : (∅ : TerminalSet).contains t = false := by
  simp [contains, EmptyCollection.emptyCollection, empty]

@[simp] theorem contains_singleton (a t : Terminal) :
    (singleton a).contains t = decide (t = a) := by
  have hlt : a.index < Terminal.count := Terminal.index_lt a
  have : (t = a) ↔ (a.index = t.index) :=
    ⟨fun h => by rw [h], fun h => (Terminal.index_injective h).symm⟩
  simp [contains, singleton, BitVec.getLsbD_twoPow, this, hlt]

@[simp] theorem contains_union (a b : TerminalSet) (t : Terminal) :
    (a ∪ b).contains t = (a.contains t || b.contains t) := by
  simp [contains, Union.union, union]

@[simp] theorem contains_inter (a b : TerminalSet) (t : Terminal) :
    (a ∩ b).contains t = (a.contains t && b.contains t) := by
  simp [contains, Inter.inter, inter]

@[simp] theorem contains_insert (s : TerminalSet) (a t : Terminal) :
    (s.insert a).contains t = (s.contains t || decide (t = a)) := by
  simp [insert]

@[simp] theorem contains_erase (s : TerminalSet) (a t : Terminal) :
    (s.erase a).contains t = (s.contains t && !decide (t = a)) := by
  have hlt : t.index < Terminal.count := Terminal.index_lt t
  have := contains_singleton a t
  simp only [contains, BitVec.getLsbD_eq_getElem hlt] at this
  simp [contains, erase, hlt, this]

/-- Sets with the same elements are equal. -/
theorem ext_contains {a b : TerminalSet} (h : ∀ t, a.contains t = b.contains t) : a = b := by
  have hb : a.bits = b.bits := by
    apply BitVec.eq_of_getLsbD_eq
    intro i hi
    have hi' : i < Terminal.all.length := hi
    have hidx : (Terminal.all[i]).index = i := Terminal.index_getElem_all hi'
    have := h Terminal.all[i]
    simpa [contains, hidx] using this
  cases a; cases b; cases hb; rfl

theorem mem_toList {s : TerminalSet} {t : Terminal} : t ∈ s.toList ↔ s.contains t = true := by
  simp [toList, Terminal.mem_all]

end TerminalSet

end LL1
