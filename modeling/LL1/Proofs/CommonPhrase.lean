/-
# Phrases that two alternatives begin with

The search for a phrase to take out compares every alternative with the later ones and keeps the
longest phrase that two of them have in common.  What it returns is described by `Longest`, which
is proved for a single comparison and carried through the two loops of the search.

The phrases of a list that begin with the same symbol are counted in pairs.  The order of the list
makes no difference to their number, and leaving phrases out does not make it greater.
-/
import LL1.Grammar.LeftFactoring
import Mathlib.Data.List.Perm.Subperm

namespace LL1

variable {α : Type} [DecidableEq α] {a b c phrase best best' : List α} {as bs : List (List α)}

/-! ### What two phrases have in common -/

lemma take_commonLength_prefix (a b : List α) : a.take (commonLength a b) <+: b := by
  induction a generalizing b with
  | nil => simp [commonLength]
  | cons s a ih =>
    cases b with
    | nil => simp [commonLength]
    | cons t b =>
      rw [commonLength]
      split
      · next h =>
        subst h
        simpa using ih b
      · simp

lemma commonLength_le_length (a b : List α) : commonLength a b ≤ a.length := by
  induction a generalizing b with
  | nil => simp [commonLength]
  | cons s a ih =>
    cases b with
    | nil => simp [commonLength]
    | cons t b =>
      rw [commonLength]
      split
      · simpa using ih b
      · simp

/-- A phrase that both begin with is not longer than what they have in common. -/
lemma length_le_commonLength (ha : c <+: a) (hb : c <+: b) : c.length ≤ commonLength a b := by
  induction c generalizing a b with
  | nil => simp
  | cons s c ih =>
    obtain ⟨a, rfl⟩ := ha
    obtain ⟨b, rfl⟩ := hb
    have hrest := ih (List.prefix_append c a) (List.prefix_append c b)
    simpa [commonLength] using hrest

/-! ### The longest phrase that two begin with -/

/-- The phrase is `best` or one of those in `S`, and no shorter than any of them. -/
structure Longest (S : List α → Prop) (best phrase : List α) : Prop where
  eq_or_mem : phrase = best ∨ S phrase
  best_le : best.length ≤ phrase.length
  le : ∀ c, S c → c.length ≤ phrase.length

omit [DecidableEq α] in
lemma Longest.trans {S S' : List α → Prop} (h : Longest S best best')
    (h' : Longest S' best' phrase) : Longest (fun c => S c ∨ S' c) best phrase where
  eq_or_mem := by
    rcases h'.eq_or_mem with rfl | hS'
    · exact h.eq_or_mem.imp_right .inl
    · exact .inr (.inr hS')
  best_le := Nat.le_trans h.best_le h'.best_le
  le c hc := by
    rcases hc with hc | hc
    · exact Nat.le_trans (h.le c hc) h'.best_le
    · exact h'.le c hc

/-- The longer one of `best` and what two phrases have in common. -/
def longer (a best b : List α) : List α :=
  if best.length < commonLength a b then a.take (commonLength a b) else best

lemma longest_longer (a best b : List α) :
    Longest (fun c => c <+: a ∧ c <+: b) best (longer a best b) := by
  rw [longer]
  split
  · next h =>
    have hlength : (a.take (commonLength a b)).length = commonLength a b := by
      rw [List.length_take, Nat.min_eq_left (commonLength_le_length a b)]
    refine ⟨.inr ⟨List.take_prefix _ _, take_commonLength_prefix a b⟩, by omega, fun c hc => ?_⟩
    rw [hlength]
    exact length_le_commonLength hc.1 hc.2
  · next h =>
    refine ⟨.inl rfl, Nat.le_refl _, fun c hc => ?_⟩
    have := length_le_commonLength hc.1 hc.2
    omega

lemma longest_foldl_longer (a : List α) (bs : List (List α)) (best : List α) :
    Longest (fun c => c <+: a ∧ ∃ b ∈ bs, c <+: b) best (bs.foldl (longer a) best) := by
  induction bs generalizing best with
  | nil => exact ⟨.inl rfl, Nat.le_refl _, by simp⟩
  | cons b bs ih =>
    have h := (longest_longer a best b).trans (ih (longer a best b))
    simpa [← and_or_left] using h

/-- Two of the phrases, at different places, begin with the phrase. -/
def IsShared (as : List (List α)) (phrase : List α) : Prop :=
  ∃ a b, [a, b].Sublist as ∧ phrase <+: a ∧ phrase <+: b

omit [DecidableEq α] in
lemma isShared_cons_iff :
    IsShared (a :: as) c ↔ (c <+: a ∧ ∃ b ∈ as, c <+: b) ∨ IsShared as c := by
  simp only [IsShared, List.sublist_cons_iff]
  constructor
  · rintro ⟨x, y, h | ⟨r, hr, hsub⟩, hx, hy⟩
    · exact .inr ⟨x, y, h, hx, hy⟩
    · obtain ⟨rfl, rfl⟩ := List.cons.inj hr
      exact .inl ⟨hx, y, List.singleton_sublist.mp hsub, hy⟩
  · rintro (⟨ha, b, hb, hcb⟩ | ⟨x, y, h, hx, hy⟩)
    · exact ⟨a, b, .inr ⟨[b], rfl, List.singleton_sublist.mpr hb⟩, ha, hcb⟩
    · exact ⟨x, y, .inl h, hx, hy⟩

/-- **The search finds the longest phrase that two phrases begin with.** -/
theorem longest_longestShared (best : List α) (as : List (List α)) :
    Longest (IsShared as) best (longestShared best as) := by
  induction as generalizing best with
  | nil => exact ⟨.inl rfl, Nat.le_refl _, by rintro c ⟨a, b, h, -⟩; exact absurd h (by simp)⟩
  | cons a as ih =>
    have h := (longest_foldl_longer a as best).trans (ih (as.foldl (longer a) best))
    simp only [← isShared_cons_iff] at h
    exact h

/-! ### Phrases that begin with the same symbol -/

/-- Whether two phrases begin with the same symbol. -/
def clash (a b : List α) : Bool := a.head?.isSome && a.head? == b.head?

lemma clash_comm (a b : List α) : clash a b = clash b a := by
  cases a <;> cases b <;> simp [clash, eq_comm]

lemma countClashes_cons (a : List α) (as : List (List α)) :
    countClashes (a :: as) = as.countP (clash a) + countClashes as := by
  cases a with
  | nil => simp [countClashes, clash]
  | cons s a =>
    rw [countClashes]
    congr 1
    refine List.countP_congr fun b _ => ?_
    rw [clash, List.head?_cons, Option.isSome_some, Bool.true_and, beq_iff_eq, beq_iff_eq,
      eq_comm]

lemma countClashes_perm (h : as.Perm bs) : countClashes as = countClashes bs := by
  induction h with
  | nil => rfl
  | cons a h ih => rw [countClashes_cons, countClashes_cons, ih, h.countP_eq]
  | swap a b as =>
    simp only [countClashes_cons, List.countP_cons, clash_comm a b]
    omega
  | trans _ _ ih₁ ih₂ => exact ih₁.trans ih₂

lemma countClashes_le_of_sublist (h : as.Sublist bs) : countClashes as ≤ countClashes bs := by
  induction h with
  | slnil => exact Nat.le_refl _
  | cons a _ ih =>
    rw [countClashes_cons]
    omega
  | cons_cons a h ih =>
    have hcount := h.countP_le (p := clash a)
    rw [countClashes_cons, countClashes_cons]
    omega

lemma countClashes_le (h : as.Subperm bs) : countClashes as ≤ countClashes bs := by
  obtain ⟨cs, hperm, hsub⟩ := h
  rw [← countClashes_perm hperm]
  exact countClashes_le_of_sublist hsub

lemma countClashes_eq_zero_iff :
    countClashes as = 0 ↔ as.Pairwise fun a b => clash a b = false := by
  induction as with
  | nil => simp [countClashes]
  | cons a as ih =>
    rw [countClashes_cons, List.pairwise_cons, ← ih, Nat.add_eq_zero_iff, List.countP_eq_zero]
    simp

end LL1
