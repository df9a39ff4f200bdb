/-
# Fresh names are fresh

The numbered names with one stem are different from each other, so one of the first `n + 1` of
them is not among `n` names that are taken.  What is added to a name is a word and a number, which
have only characters that can go on with a name.
-/
import LL1.Grammar.FreshName
import LL1.Grammar.Name
import Mathlib.Data.List.Nodup
import Mathlib.Data.List.Perm.Subperm
import Std.Data.String.ToNat

namespace LL1

lemma append_toString_injective (stem : String) :
    Function.Injective fun k : Nat => stem ++ toString k := by
  intro k l h
  exact Nat.repr_injective ((String.append_right_inj stem).mp h)

/-- If the search ends with a name that is taken, then so are all the names that were tried. -/
lemma mem_of_firstFree_mem {taken : List String} {stem : String} {n : Nat} :
    ∀ {k : Nat}, firstFree taken stem k n ∈ taken →
      ∀ i ≤ n, stem ++ toString (k + i) ∈ taken := by
  induction n with
  | zero =>
    intro k h i hi
    obtain rfl : i = 0 := by omega
    exact h
  | succ n ih =>
    intro k h i hi
    rw [firstFree] at h
    split at h
    · next hk =>
      cases i with
      | zero => exact List.contains_iff_mem.mp hk
      | succ i =>
        rw [show k + (i + 1) = k + 1 + i by omega]
        exact ih h i (by omega)
    · next hk => exact absurd (List.contains_iff_mem.mpr h) hk

/-- **A fresh name is not taken.** -/
theorem freshName_not_mem (taken : List String) (base kind : String) :
    freshName taken base kind ∉ taken := by
  intro h
  have hall := mem_of_firstFree_mem h
  let tried := (List.range (taken.length + 1)).map fun i => base ++ "_" ++ kind ++ toString (1 + i)
  have hnodup : tried.Nodup := by
    refine List.Nodup.map (fun i j hij => ?_) List.nodup_range
    have : 1 + i = 1 + j := append_toString_injective _ hij
    omega
  have hsub : tried ⊆ taken := by
    intro s hs
    obtain ⟨i, hi, rfl⟩ := List.mem_map.mp hs
    exact hall i (by simpa [Nat.lt_succ_iff] using hi)
  have hlen : tried.length ≤ taken.length := (hnodup.subperm hsub).length_le
  simp only [tried, List.length_map, List.length_range] at hlen
  omega

/-! ### Fresh names are names -/

/-- The search tries nothing but numbers. -/
lemma exists_firstFree_eq (taken : List String) (stem : String) (k n : Nat) :
    ∃ i : Nat, firstFree taken stem k n = stem ++ toString i := by
  induction n generalizing k with
  | zero => exact ⟨k, rfl⟩
  | succ n ih =>
    rw [firstFree]
    split
    · exact ih (k + 1)
    · exact ⟨k, rfl⟩

lemma Text.isNameContinue_of_isDigit {c : Char} (h : c.isDigit = true) :
    isNameContinue c = true := by
  have hle : c.toNat ≤ 57 := (Char.isDigit_iff_toNat.mp h).2
  have hlt : c.toNat < 0x80 := by omega
  simp [isNameContinue, Char.isAlphanum, hlt, h]

lemma Text.isNameContinue_of_mem_toString {k : Nat} {c : Char} (hc : c ∈ (toString k).toList) :
    isNameContinue c = true := by
  rw [Nat.toString_eq_repr, Nat.toList_repr] at hc
  exact isNameContinue_of_isDigit (Nat.isDigit_of_mem_toDigits (by decide) (by decide) hc)

/-- A name can be gone on with. -/
lemma isName_append {s t : String} (hs : isName s = true)
    (ht : t.toList.all Text.isNameContinue = true) : isName (s ++ t) = true := by
  rw [isName] at hs ⊢
  rw [String.toList_append]
  cases hl : s.toList with
  | nil => simp [hl] at hs
  | cons c cs =>
    simp only [hl, Bool.and_eq_true] at hs
    simp only [List.cons_append, List.all_append, Bool.and_eq_true]
    exact ⟨hs.1, hs.2, ht⟩

/-- **A fresh name is a name** if the one that it extends is. -/
theorem isName_freshName {base kind : String} (taken : List String) (hbase : isName base = true)
    (hkind : kind.toList.all Text.isNameContinue = true) :
    isName (freshName taken base kind) = true := by
  obtain ⟨k, hk⟩ := exists_firstFree_eq taken (base ++ "_" ++ kind) 1 taken.length
  rw [freshName, hk]
  have hnumber : (toString k).toList.all Text.isNameContinue = true :=
    List.all_eq_true.mpr fun c => Text.isNameContinue_of_mem_toString
  have hjoint : isName (base ++ "_") = true := isName_append hbase (by decide)
  exact isName_append (isName_append hjoint hkind) hnumber

/-! ### The names that occur -/

lemma mem_mentionedNames {ps : List Production} {n : String} :
    n ∈ mentionedNames ps ↔
      ∃ p ∈ ps, n = p.name ∨ ∃ a ∈ p.alternatives, n ∈ Phrase.nonterminals a := by
  simp [mentionedNames, Production.references]

lemma mentionedNames_reverse_append {n : String} {ps qs : List Production} :
    n ∈ mentionedNames (ps.reverse ++ qs) ↔ n ∈ mentionedNames (ps ++ qs) := by
  simp only [mem_mentionedNames, List.mem_append, List.mem_reverse]

end LL1
