/-
# Saturation meets all demands

Sets only grow while demands are met, and a family of `n` sets has at most `n * Terminal.count`
elements in all.  So one of the rounds adds nothing, and then all demands are met.  On the other
side the sets contain nothing that was not demanded: what every single addition preserves holds
of the outcome.
-/
import LL1.Prediction.Saturation
import Mathlib.Algebra.BigOperators.Group.Finset.Basic
import Mathlib.Algebra.Order.BigOperators.Group.Finset

namespace LL1

namespace TerminalSet

variable {s a b : TerminalSet} {t : Terminal}

lemma mem_union : t ∈ a ∪ b ↔ t ∈ a ∨ t ∈ b := by
  simp [mem_iff_contains]

lemma mem_erase {k : Terminal} : t ∈ s.erase k ↔ t ∈ s ∧ t ≠ k := by
  simp [mem_iff_contains]

lemma mem_inter : t ∈ a ∩ b ↔ t ∈ a ∧ t ∈ b := by
  simp [mem_iff_contains]

lemma mem_singleton {k : Terminal} : t ∈ singleton k ↔ t = k := by
  simp [mem_iff_contains]

lemma not_mem_empty : t ∉ (∅ : TerminalSet) := by
  simp [mem_iff_contains]

lemma ext_mem (h : ∀ t, t ∈ a ↔ t ∈ b) : a = b := by
  apply ext_contains
  intro t
  rw [Bool.eq_iff_iff]
  exact h t

lemma union_eq_left_iff : a ∪ b = a ↔ ∀ t ∈ b, t ∈ a := by
  constructor
  · intro h t ht
    rw [← h]
    exact mem_union.mpr (.inr ht)
  · intro h
    apply ext_mem
    intro t
    rw [mem_union]
    exact or_iff_left_of_imp (h t)

lemma size_le_count (s : TerminalSet) : s.size ≤ Terminal.count :=
  List.length_filter_le _ _

lemma toList_sublist_union : a.toList.Sublist (a ∪ b).toList :=
  List.monotone_filter_right _ fun t ht => by simp [ht]

lemma size_le_union : a.size ≤ (a ∪ b).size := toList_sublist_union.length_le

/-- A set that grows has more elements than before. -/
lemma size_lt_union (h : a ∪ b ≠ a) : a.size < (a ∪ b).size := by
  refine lt_of_le_of_ne size_le_union fun hsize => h ?_
  have hlist : a.toList = (a ∪ b).toList := toList_sublist_union.eq_of_length hsize
  apply ext_mem
  intro t
  rw [mem_iff_contains, ← mem_toList, ← hlist, mem_toList, mem_iff_contains]

end TerminalSet

namespace SetFamily

variable {f : SetFamily} {i j : Nat} {s : TerminalSet} {t : Terminal}

@[simp] lemma size_add : (f.add i s).size = f.size := by simp [add, size]

@[simp] lemma size_ofSize (n : Nat) : (ofSize n).size = n := by simp [ofSize, size]

@[simp] lemma get_ofSize (n i : Nat) : (ofSize n).get i = ∅ := by
  simp only [ofSize, get, Array.getElem?_replicate]
  split <;> rfl

lemma get_add (hi : i < f.size) : (f.add i s).get j = if j = i then f.get j ∪ s else f.get j := by
  unfold size at hi
  by_cases h : j = i
  · subst h
    simp [get, add, Array.getElem_modify, hi]
  · simp [get, add, Array.getElem?_modify, h, Ne.symm h]

lemma get_add_of_size_le (hi : f.size ≤ i) : (f.add i s).get j = f.get j := by
  unfold size at hi
  by_cases h : j = i
  · subst h
    simp [get, add, Nat.not_lt.mpr hi]
  · simp [get, add, Array.getElem?_modify, Ne.symm h]

/-- What a set contains after an addition. -/
lemma mem_get_add (ht : t ∈ (f.add i s).get j) : t ∈ f.get j ∨ j = i ∧ t ∈ s := by
  by_cases hi : i < f.size
  · rw [get_add hi] at ht
    split at ht
    · next hj => exact (TerminalSet.mem_union.mp ht).imp_right fun h => ⟨hj, h⟩
    · exact .inl ht
  · rw [get_add_of_size_le (Nat.not_lt.mp hi)] at ht
    exact .inl ht

lemma get_subset_add (ht : t ∈ f.get j) : t ∈ (f.add i s).get j := by
  by_cases hi : i < f.size
  · rw [get_add hi]
    split
    · exact TerminalSet.mem_union.mpr (.inl ht)
    · exact ht
  · rwa [get_add_of_size_le (Nat.not_lt.mp hi)]

/-- The number of elements of all sets. -/
def elements (f : SetFamily) : Nat := ∑ i ∈ Finset.range f.size, (f.get i).size

lemma elements_le (f : SetFamily) : f.elements ≤ f.size * Terminal.count := by
  have h := Finset.sum_le_card_nsmul (Finset.range f.size) (fun i => (f.get i).size) Terminal.count
    fun i _ => (f.get i).size_le_count
  simpa [elements] using h

lemma elements_lt_add (hi : i < f.size) (hs : f.get i ∪ s ≠ f.get i) :
    f.elements < (f.add i s).elements := by
  rw [elements, elements, size_add]
  refine Finset.sum_lt_sum (fun j _ => ?_) ⟨i, Finset.mem_range.mpr hi, ?_⟩
  · rw [get_add hi]
    split
    · exact TerminalSet.size_le_union
    · exact le_rfl
  · rw [get_add hi, if_pos rfl]
    exact TerminalSet.size_lt_union hs

/-- The set that a demand names includes what it says. -/
def Meets (f : SetFamily) (d : Demand) : Prop := ∀ t ∈ d.bound f, t ∈ f.get d.target

end SetFamily

variable {demands : List Demand} {f : SetFamily}

namespace Growth

variable {g : Growth} {d : Demand}

lemma satisfy_of_meets (h : g.family.Meets d) : g.satisfy d = g := by
  rw [satisfy]
  exact if_pos (TerminalSet.union_eq_left_iff.mpr h)

lemma satisfy_of_not_meets (h : ¬ g.family.Meets d) :
    g.satisfy d = ⟨g.family.add d.target (d.bound g.family), true⟩ := by
  rw [satisfy]
  exact if_neg fun hu => h (TerminalSet.union_eq_left_iff.mp hu)

@[simp] lemma size_satisfy : (g.satisfy d).family.size = g.family.size := by
  by_cases h : g.family.Meets d
  · rw [satisfy_of_meets h]
  · rw [satisfy_of_not_meets h, SetFamily.size_add]

@[simp] lemma size_foldl_satisfy (demands : List Demand) (g : Growth) :
    (demands.foldl satisfy g).family.size = g.family.size := by
  induction demands generalizing g with
  | nil => rfl
  | cons d ds ih => rw [List.foldl_cons, ih, size_satisfy]

lemma grown_foldl_satisfy (hg : g.grown = true) : (demands.foldl satisfy g).grown = true := by
  induction demands generalizing g with
  | nil => exact hg
  | cons d ds ih =>
    refine ih ?_
    by_cases h : g.family.Meets d
    · rwa [satisfy_of_meets h]
    · rw [satisfy_of_not_meets h]

/-- A round that adds nothing shows that all demands are met. -/
lemma meets_of_not_grown (h : (demands.foldl satisfy g).grown = false) :
    (demands.foldl satisfy g).family = g.family ∧ ∀ d ∈ demands, g.family.Meets d := by
  induction demands generalizing g with
  | nil => exact ⟨rfl, by simp⟩
  | cons d ds ih =>
    rw [List.foldl_cons] at h ⊢
    by_cases hd : g.family.Meets d
    · rw [satisfy_of_meets hd] at h ⊢
      obtain ⟨hfamily, hds⟩ := ih h
      exact ⟨hfamily, List.forall_mem_cons.mpr ⟨hd, hds⟩⟩
    · rw [satisfy_of_not_meets hd, grown_foldl_satisfy rfl] at h
      exact absurd h (by simp)

/-- A round that adds something makes the number of elements greater. -/
lemma elements_lt_of_grown (htarget : ∀ d ∈ demands, d.target < g.family.size) :
    g.family.elements ≤ (demands.foldl satisfy g).family.elements ∧
      (g.grown = false → (demands.foldl satisfy g).grown = true →
        g.family.elements < (demands.foldl satisfy g).family.elements) := by
  induction demands generalizing g with
  | nil => exact ⟨le_rfl, fun h h' => absurd (h.symm.trans h') (by simp)⟩
  | cons d ds ih =>
    obtain ⟨hd, hds⟩ := List.forall_mem_cons.mp htarget
    have hrest := ih (g := g.satisfy d) (by simpa using hds)
    rw [List.foldl_cons]
    by_cases hmeets : g.family.Meets d
    · rw [satisfy_of_meets hmeets] at hrest ⊢
      exact hrest
    · have hlt : g.family.elements < (g.satisfy d).family.elements := by
        rw [satisfy_of_not_meets hmeets]
        exact SetFamily.elements_lt_add hd (TerminalSet.union_eq_left_iff.not.mpr hmeets)
      exact ⟨hlt.le.trans hrest.1, fun _ _ => hlt.trans_le hrest.1⟩

/-- What additions preserve is preserved by a round. -/
lemma foldl_satisfy_induction {motive : SetFamily → Prop} (start : motive g.family)
    (add : ∀ f, ∀ d ∈ demands, motive f → motive (f.add d.target (d.bound f))) :
    motive (demands.foldl satisfy g).family := by
  induction demands generalizing g with
  | nil => exact start
  | cons d ds ih =>
    refine ih ?_ fun f e he => add f e (List.mem_cons_of_mem d he)
    by_cases h : g.family.Meets d
    · rwa [satisfy_of_meets h]
    · rw [satisfy_of_not_meets h]
      exact add _ d List.mem_cons_self start

end Growth

namespace Saturated

/-- What additions preserve is preserved by any number of rounds. -/
lemma iterate_induction {motive : SetFamily → Prop} {fuel : Nat} {s : Saturated}
    (start : motive s.family)
    (add : ∀ f, ∀ d ∈ demands, motive f → motive (f.add d.target (d.bound f))) :
    motive (iterate demands fuel s).family := by
  induction fuel generalizing s with
  | zero => exact start
  | succ fuel ih =>
    have hround : motive (Growth.round demands s.family).family :=
      Growth.foldl_satisfy_induction start add
    rw [iterate]
    split
    · exact ih hround
    · exact hround

/-- Rounds are made from a family until one adds nothing, without any limit to their number.  The
outcome is the family that is left, with the number of all rounds. -/
inductive Settles (demands : List Demand) : SetFamily → Saturated → Prop
  | last {f : SetFamily} : (Growth.round demands f).grown = false →
      Settles demands f ⟨(Growth.round demands f).family, 1⟩
  | again {f : SetFamily} {s : Saturated} : (Growth.round demands f).grown = true →
      Settles demands (Growth.round demands f).family s → Settles demands f ⟨s.family, s.rounds + 1⟩

/-- The last round shows that all demands are met. -/
lemma Settles.meets {s : Saturated} (h : Settles demands f s) :
    ∀ d ∈ demands, s.family.Meets d := by
  induction h with
  | last hgrown =>
    obtain ⟨hfamily, hmeets⟩ := Growth.meets_of_not_grown hgrown
    intro d hd
    exact hfamily ▸ hmeets d hd
  | again _ _ ih => exact ih

/-- With more rounds than elements that are missing, the rounds come to an end by themselves. -/
lemma exists_settles_iterate {fuel : Nat} {s : Saturated}
    (htarget : ∀ d ∈ demands, d.target < s.family.size)
    (hfuel : s.family.size * Terminal.count < s.family.elements + fuel) :
    ∃ n, (iterate demands fuel s).rounds = s.rounds + n ∧
      Settles demands s.family ⟨(iterate demands fuel s).family, n⟩ := by
  induction fuel generalizing s with
  | zero =>
    have := s.family.elements_le
    omega
  | succ fuel ih =>
    have hsize : (Growth.round demands s.family).family.size = s.family.size :=
      Growth.size_foldl_satisfy _ _
    rw [iterate]
    split
    · -- one round less is left, but an element less is missing, too
      next hgrown =>
      have hlt := (Growth.elements_lt_of_grown (g := ⟨s.family, false⟩) htarget).2 rfl hgrown
      obtain ⟨n, hrounds, hsettles⟩ :=
        ih (s := ⟨(Growth.round demands s.family).family, s.rounds + 1⟩) (by rwa [hsize]) (by
          rw [hsize]
          change s.family.elements < (Growth.round demands s.family).family.elements at hlt
          dsimp only
          omega)
      exact ⟨n + 1, by rw [hrounds]; dsimp only; omega, .again hgrown hsettles⟩
    · next hgrown => exact ⟨1, rfl, .last (Bool.eq_false_iff.mpr hgrown)⟩

end Saturated

/-- **Saturation comes to an end by itself**, not because of a limit to the number of rounds. -/
theorem settles_saturate (htarget : ∀ d ∈ demands, d.target < f.size) :
    Saturated.Settles demands f (saturate demands f) := by
  obtain ⟨n, hrounds, hsettles⟩ : ∃ n, (saturate demands f).rounds = 0 + n ∧
      Saturated.Settles demands f ⟨(saturate demands f).family, n⟩ :=
    Saturated.exists_settles_iterate (s := ⟨f, 0⟩) htarget (by dsimp only; omega)
  rw [Nat.zero_add] at hrounds
  subst hrounds
  exact hsettles

/-- **Saturation meets all demands** on sets of the family. -/
theorem meets_saturate (htarget : ∀ d ∈ demands, d.target < f.size) :
    ∀ d ∈ demands, (saturate demands f).family.Meets d :=
  (settles_saturate htarget).meets

/-- What additions preserve is preserved by saturation. -/
lemma saturate_induction {motive : SetFamily → Prop} (start : motive f)
    (add : ∀ f, ∀ d ∈ demands, motive f → motive (f.add d.target (d.bound f))) :
    motive (saturate demands f).family :=
  Saturated.iterate_induction start add

lemma get_subset_saturate {i : Nat} {t : Terminal} (ht : t ∈ f.get i) :
    t ∈ (saturate demands f).family.get i :=
  saturate_induction (motive := fun f => t ∈ f.get i) ht fun _ _ _ => SetFamily.get_subset_add

end LL1
