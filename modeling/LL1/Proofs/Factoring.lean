/-
# Left factoring comes to an end

Two alternatives that begin with the same symbol form a clash.  Taking out the longest phrase that
two alternatives begin with resolves the clash between these two.  It adds none: the phrase clashes
with the other alternatives as each of the two did, and what comes after it begins differently,
since otherwise a longer phrase would have been found.  So the clashes become fewer with every pass
that changes something, and after the last pass no two alternatives begin with the same symbol.
-/
import LL1.Proofs.Normalization
import Mathlib.Algebra.GroupWithZero.Nat

namespace LL1

/-! ### The clashes of a production -/

lemma countClashes_canonical_le (as : List Alternative) :
    countClashes (canonical as) ≤ countClashes as :=
  countClashes_le ((increasing_canonical as).nodup.subperm fun _ => mem_canonical.mp)

namespace Production

variable {p : Production} {T : String}

/-- The alternatives that begin with the common phrase. -/
def sharing (p : Production) : List Alternative := p.alternatives.filter p.shared.isPrefixOf

lemma alternatives_perm : p.alternatives.Perm (p.sharing ++ (p.without p.shared).alternatives) :=
  (List.filter_append_perm p.shared.isPrefixOf p.alternatives).symm

lemma prefix_of_mem_sharing {a : Alternative} (ha : a ∈ p.sharing) : p.shared <+: a := by
  simpa using (List.mem_filter.mp ha).2

/-- At least two alternatives begin with the common phrase. -/
lemma exists_pair_sharing (h : p.shared ≠ []) : ∃ a b, [a, b].Sublist p.sharing := by
  obtain ⟨a, b, hsub, ha, hb⟩ := p.isShared_shared h
  have hsub' := hsub.filter p.shared.isPrefixOf
  rw [List.filter_cons_of_pos (by simpa using ha), List.filter_cons_of_pos (by simpa using hb),
    List.filter_nil] at hsub'
  exact ⟨a, b, hsub'⟩

lemma alternatives_splitShared_fst (p : Production) (T : String) :
    (p.splitShared p.shared T).1.alternatives =
      (p.without p.shared).alternatives ++ [p.shared ++ [.nonterminal T]] := by
  simp [splitShared, without, List.partition_eq_filter_filter, Function.comp_def]

lemma alternatives_splitShared_snd (p : Production) (T : String) :
    (p.splitShared p.shared T).2.alternatives = p.sharing.map (·.drop p.shared.length) := by
  simp [splitShared, sharing, List.partition_eq_filter_filter]

/-- What comes after the common phrase begins differently in any two alternatives. -/
lemma clashes_splitShared_snd : (p.splitShared p.shared T).2.clashes = 0 := by
  rw [clashes, alternatives_splitShared_snd, countClashes_eq_zero_iff, List.pairwise_map,
    List.pairwise_iff_forall_sublist]
  intro a b hsub
  obtain ⟨d, rfl⟩ : p.shared <+: a := prefix_of_mem_sharing (hsub.subset List.mem_cons_self)
  obtain ⟨d', rfl⟩ : p.shared <+: b := prefix_of_mem_sharing (hsub.subset (by simp))
  rw [List.drop_left, List.drop_left]
  by_contra hclash
  -- a common symbol would make the common phrase longer
  cases d with
  | nil => simp [clash] at hclash
  | cons s d =>
    cases d' with
    | nil => simp [clash] at hclash
    | cons s' d' =>
      obtain rfl : s = s' := by simpa [clash] using hclash
      have hlonger : IsShared p.alternatives (p.shared ++ [s]) := by
        refine ⟨_, _, hsub.trans List.filter_sublist, ?_, ?_⟩
        · exact ⟨d, by simp⟩
        · exact ⟨d', by simp⟩
      have hle := (longest_longestShared [] p.alternatives).le _ hlonger
      change (p.shared ++ [s]).length ≤ p.shared.length at hle
      rw [List.length_append, List.length_singleton] at hle
      omega

/-- The common phrase takes the place of two alternatives that clash with each other. -/
lemma clashes_splitShared_fst (h : p.shared ≠ []) :
    (p.splitShared p.shared T).1.clashes < p.clashes := by
  obtain ⟨a, b, hsub⟩ := exists_pair_sharing h
  set others := (p.without p.shared).alternatives with hothers
  obtain ⟨more, hmore⟩ : ∃ more, p.sharing.Perm ([a, b] ++ more) := hsub.exists_perm_append
  have hperm : p.alternatives.Perm (a :: b :: (more ++ others)) :=
    alternatives_perm.trans (by simpa using hmore.append_right others)
  -- the common phrase begins with the same symbol as the two alternatives
  obtain ⟨s, c, hs⟩ : ∃ s c, p.shared = s :: c := List.exists_cons_of_ne_nil h
  have hfirst {d : Alternative} (hd : p.shared <+: d) : d.head? = some s := by
    obtain ⟨e, rfl⟩ := hd
    rw [hs]
    rfl
  have ha : a.head? = some s := hfirst (prefix_of_mem_sharing (hsub.subset List.mem_cons_self))
  have hb : b.head? = some s := hfirst (prefix_of_mem_sharing (hsub.subset (by simp)))
  have hclash : clash a b = true := by simp [clash, ha, hb]
  have hsame : clash (p.shared ++ [.nonterminal T]) = clash b := by
    funext d
    rw [clash, clash, hfirst (List.prefix_append _ _), hb]
  have hle : countClashes others ≤ countClashes (more ++ others) :=
    countClashes_le_of_sublist (List.sublist_append_right more others)
  have hcount : others.countP (clash b) ≤ (more ++ others).countP (clash b) :=
    (List.sublist_append_right more others).countP_le
  rw [clashes, clashes, alternatives_splitShared_fst, ← hothers, countClashes_perm hperm,
    countClashes_perm (List.perm_append_singleton _ others), countClashes_cons,
    countClashes_cons, countClashes_cons, List.countP_cons, hclash, hsame]
  simp only [if_true]
  omega

/-- The number of clashes in a list of productions. -/
def totalClashes (ps : List Production) : Nat := (ps.map clashes).sum

lemma totalClashes_cons (p : Production) (ps : List Production) :
    totalClashes (p :: ps) = p.clashes + totalClashes ps := by
  rw [totalClashes, List.map_cons, List.sum_cons, totalClashes]

lemma totalClashes_append (ps qs : List Production) :
    totalClashes (ps ++ qs) = totalClashes ps + totalClashes qs := by
  rw [totalClashes, List.map_append, List.sum_append, totalClashes, totalClashes]

lemma totalClashes_reverse (ps : List Production) : totalClashes ps.reverse = totalClashes ps := by
  rw [totalClashes, List.map_reverse, List.sum_reverse, totalClashes]

/-- **Factoring a production leaves fewer clashes.** -/
theorem totalClashes_factor_lt (h : p.shared ≠ []) : totalClashes (p.factor T) < p.clashes := by
  have hhead := clashes_splitShared_fst (T := T) h
  have htail := clashes_splitShared_snd (p := p) (T := T)
  have hhead' := countClashes_canonical_le (p.splitShared p.shared T).1.alternatives
  have htail' := countClashes_canonical_le (p.splitShared p.shared T).2.alternatives
  change (p.splitShared p.shared T).1.toCanonical.clashes ≤
    (p.splitShared p.shared T).1.clashes at hhead'
  change (p.splitShared p.shared T).2.toCanonical.clashes ≤
    (p.splitShared p.shared T).2.clashes at htail'
  rw [factor, totalClashes_cons, totalClashes_cons, totalClashes, List.map_nil, List.sum_nil]
  omega

end Production

/-! ### Passes -/

open Production in
/-- A pass changes nothing, or it leaves fewer clashes. -/
lemma FactoringPass.visit_cases (f : FactoringPass) (later : List Production) :
    visit f later = { f with visited := later.reverse ++ f.visited } ∨
      (visit f later).changed = true ∧
        totalClashes (visit f later).visited < totalClashes f.visited + totalClashes later := by
  induction later generalizing f with
  | nil => exact .inl rfl
  | cons p later ih =>
    rcases visit_cons f p later with ⟨-, hvisit⟩ | ⟨hshared, T, told, -, hvisit⟩
    · rw [hvisit]
      rcases ih { f with visited := p :: f.visited } with hlater | ⟨hchanged, hlt⟩
      · refine .inl ?_
        rw [hlater]
        simp
      · refine .inr ⟨hchanged, ?_⟩
        rw [totalClashes_cons] at hlt ⊢
        omega
    · rw [hvisit]
      have hfactor : totalClashes (p.factor T) < p.clashes := totalClashes_factor_lt hshared
      have hvisited : totalClashes ((p.factor T).reverse ++ f.visited) =
          totalClashes (p.factor T) + totalClashes f.visited := by
        rw [totalClashes_append, totalClashes_reverse]
      rw [totalClashes_cons]
      refine .inr ?_
      rcases ih ⟨(p.factor T).reverse ++ f.visited, told, true⟩ with hlater | ⟨hchanged, hlt⟩
      · rw [hlater]
        refine ⟨rfl, ?_⟩
        dsimp only
        rw [totalClashes_append, totalClashes_reverse, hvisited]
        omega
      · refine ⟨hchanged, ?_⟩
        dsimp only at hlt
        omega

open Production in
/-- A pass over all productions leaves them as they are, or it leaves fewer clashes. -/
lemma FactoringPass.ofProductions_cases (ps : List Production) :
    (ofProductions ps).changed = false ∧ (ofProductions ps).visited.reverse = ps ∨
      (ofProductions ps).changed = true ∧
        totalClashes (ofProductions ps).visited.reverse < totalClashes ps := by
  rcases visit_cases ⟨[], [], false⟩ ps with h | ⟨hchanged, hlt⟩
  · refine .inl ?_
    rw [ofProductions, h]
    simp
  · refine .inr ⟨hchanged, ?_⟩
    rw [totalClashes_reverse, ofProductions]
    simpa [totalClashes] using hlt

lemma Factored.changed_iterate (fuel : Nat) (f : Factored)
    (hfuel : Production.totalClashes f.grammar.productions < fuel) :
    (FactoringPass.ofProductions (iterate fuel f).grammar.productions).changed = false := by
  induction fuel generalizing f with
  | zero => omega
  | succ fuel ih =>
    rw [iterate]
    rcases FactoringPass.ofProductions_cases f.grammar.productions with ⟨h, hps⟩ | ⟨h, hlt⟩
    · rw [h, if_neg Bool.false_ne_true]
      dsimp only
      rw [hps]
      exact h
    · rw [if_pos h]
      refine ih ⟨⟨{ f.grammar with productions := _ }, _⟩, _⟩ ?_
      dsimp only
      omega

/-- **Left factoring comes to an end**: a further pass would not change anything. -/
theorem Grammar.changed_leftFactor (g : Grammar) :
    (FactoringPass.ofProductions g.leftFactor.grammar.productions).changed = false := by
  refine Factored.changed_iterate _ _ ?_
  have htotal : Production.totalClashes g.productions =
      g.productions.foldr (fun p n => p.clashes + n) 0 := by
    rw [Production.totalClashes, List.sum_eq_foldr, List.foldr_map]
  dsimp only
  omega

end LL1
