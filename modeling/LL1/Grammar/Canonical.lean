/-
# Canonical lists

The alternatives of a nonterminal form a set, which is represented by the strictly increasing
list of its elements.  `mem_canonical` says that the elements are those of the list that one
starts from, and `increasing_canonical` that they increase; together the two determine the result.
-/

namespace LL1

variable {α : Type} [Ord α]

/-- Puts an element into a strictly increasing list unless it is there. -/
def insertDistinct (a : α) : List α → List α
  | [] => [a]
  | b :: bs =>
    match compare a b with
    | .lt => a :: b :: bs
    | .eq => b :: bs
    | .gt => b :: insertDistinct a bs

/-- The elements of a list in increasing order and without repetitions. -/
def canonical (as : List α) : List α := as.foldr insertDistinct []

/-- Whether a list has an element more than once. -/
def hasDuplicates (as : List α) : Bool := (canonical as).length < as.length

/-- Whether every element of a list is less than the later ones. -/
def Increasing (as : List α) : Prop := as.Pairwise fun a b => compare a b = .lt

theorem mem_insertDistinct [Std.LawfulEqOrd α] {a c : α} {bs : List α} :
    c ∈ insertDistinct a bs ↔ c = a ∨ c ∈ bs := by
  induction bs with
  | nil => simp [insertDistinct]
  | cons b bs ih =>
    rw [insertDistinct]
    split
    · simp
    · next h =>
      have hab : a = b := Std.LawfulEqOrd.eq_of_compare h
      simp [hab]
    · simp only [List.mem_cons, ih]
      exact ⟨fun h => by rcases h with h | h | h <;> simp [h],
        fun h => by rcases h with h | h | h <;> simp [h]⟩

theorem mem_canonical [Std.LawfulEqOrd α] {c : α} {as : List α} :
    c ∈ canonical as ↔ c ∈ as := by
  induction as with
  | nil => rfl
  | cons a as ih =>
    rw [canonical, List.foldr_cons, mem_insertDistinct, List.mem_cons]
    exact or_congr_right ih

theorem increasing_insertDistinct [Std.TransOrd α] [Std.LawfulEqOrd α] {a : α} {bs : List α}
    (h : Increasing bs) : Increasing (insertDistinct a bs) := by
  induction bs with
  | nil => simp [insertDistinct, Increasing]
  | cons b bs ih =>
    obtain ⟨hb, hbs⟩ := List.pairwise_cons.mp h
    rw [insertDistinct]
    split
    · next hab =>
      refine List.pairwise_cons.mpr ⟨fun c hc => ?_, h⟩
      rcases List.mem_cons.mp hc with rfl | hc
      · exact hab
      · exact Std.TransCmp.lt_trans hab (hb c hc)
    · exact h
    · next hab =>
      refine List.pairwise_cons.mpr ⟨fun c hc => ?_, ih hbs⟩
      rcases mem_insertDistinct.mp hc with rfl | hc
      · exact Std.OrientedCmp.lt_of_gt hab
      · exact hb c hc

theorem increasing_canonical [Std.TransOrd α] [Std.LawfulEqOrd α] (as : List α) :
    Increasing (canonical as) := by
  induction as with
  | nil => exact List.Pairwise.nil
  | cons a as ih => exact increasing_insertDistinct ih

theorem Increasing.nodup [Std.ReflOrd α] {as : List α} (h : Increasing as) : as.Nodup := by
  refine List.Pairwise.imp (fun {a b} hab => ?_) h
  rintro rfl
  rw [Std.ReflOrd.compare_self] at hab
  exact absurd hab (by decide)

/-- A list in canonical form is left as it is. -/
theorem canonical_of_increasing {as : List α} (h : Increasing as) : canonical as = as := by
  induction as with
  | nil => rfl
  | cons a as ih =>
    obtain ⟨ha, has⟩ := List.pairwise_cons.mp h
    rw [canonical, List.foldr_cons, ← canonical, ih has]
    cases as with
    | nil => rfl
    | cons b bs => rw [insertDistinct, ha b List.mem_cons_self]

end LL1
