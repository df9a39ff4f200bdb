/-
# What FIRST and FOLLOW contain

FIRST of a phrase contains exactly the terminals that the phrase can begin with, and the marker
of the empty string if and only if it can be empty.  The family of sets contains nothing else,
since every addition to it is justified by a rule; and it contains all of them, since all demands
are met.  In the same way FOLLOW contains whatever can come after a nonterminal in the alternatives
of the rules, and it is contained in every relation that does.
-/
import LL1.Prediction.FirstFollow
import LL1.Proofs.Resolution
import LL1.Proofs.Saturation

namespace LL1

namespace RuleSet

variable {ν : Type} {P : RuleSet ν} {p : Phrase ν} {n : ν} {a : Phrase ν} {t : Terminal}

/-- The phrase can begin with the terminal, or, for the marker, it can be empty. -/
def First (P : RuleSet ν) (p : Phrase ν) (t : Terminal) : Prop :=
  if t = .epsilon then P.Erasable p else P.Begins p [t]

@[simp] lemma first_epsilon : P.First p .epsilon ↔ P.Erasable p := by simp [First]

lemma first_of_ne (ht : t ≠ .epsilon) : P.First p t ↔ P.Begins p [t] := by simp [First, ht]

lemma First.of_rule (hn : P n a) (h : P.First a t) : P.First [.nonterminal n] t := by
  by_cases ht : t = .epsilon
  · subst ht
    rw [first_epsilon] at h ⊢
    exact .cons hn h .nil
  · rw [first_of_ne ht] at h ⊢
    exact .nonterminal hn (by simpa using h)

end RuleSet

variable {f : SetFamily} {p q : Phrase Nat} {i j : Nat} {t k : Terminal} {P : RuleSet Nat}
  {r : Rules} {a u v : Phrase Nat} {d : Demand}

/-! ### FIRST of a phrase -/

/-- The elements of a set whose marker stands for another set. -/
lemma TerminalSet.mem_ite_epsilon {s b : TerminalSet} :
    t ∈ (if s.contains .epsilon then s.erase .epsilon ∪ b else s) ↔
      t ∈ s ∧ t ≠ .epsilon ∨ .epsilon ∈ s ∧ t ∈ b := by
  split
  · next h =>
    rw [mem_union, mem_erase]
    simp [mem_iff_contains, h]
  · next h =>
    rw [← mem_iff_contains] at h
    have hne : t ∈ s → t ≠ .epsilon := fun ht hε => h (hε ▸ ht)
    simp only [h, false_and, or_false]
    exact ⟨fun ht => ⟨ht, hne ht⟩, fun ht => ht.1⟩

lemma mem_firstOfPhrase_nil : t ∈ firstOfPhrase f [] ↔ t = .epsilon :=
  TerminalSet.mem_singleton

lemma mem_firstOfPhrase_terminal (hk : k ≠ .epsilon) :
    t ∈ firstOfPhrase f (.terminal k :: p) ↔ t = k := by
  rw [firstOfPhrase, TerminalSet.mem_singleton]
  exact hk

lemma mem_firstOfPhrase_nonterminal : t ∈ firstOfPhrase f (.nonterminal i :: p) ↔
    t ∈ f.get i ∧ t ≠ .epsilon ∨ .epsilon ∈ f.get i ∧ t ∈ firstOfPhrase f p := by
  rw [firstOfPhrase]
  exact TerminalSet.mem_ite_epsilon

lemma mem_firstOfPhrase_append (ha : .terminal .epsilon ∉ a) (ht : t ≠ .epsilon) :
    t ∈ firstOfPhrase f (a ++ p) ↔
      t ∈ firstOfPhrase f a ∨ .epsilon ∈ firstOfPhrase f a ∧ t ∈ firstOfPhrase f p := by
  induction a with
  | nil => simp [mem_firstOfPhrase_nil, ht]
  | cons s a ih =>
    rw [List.mem_cons, not_or] at ha
    cases s with
    | terminal k =>
      have hk : k ≠ .epsilon := fun h => ha.1 (congrArg Symbol.terminal h.symm)
      rw [List.cons_append, mem_firstOfPhrase_terminal hk, mem_firstOfPhrase_terminal hk,
        mem_firstOfPhrase_terminal hk]
      simp [hk.symm]
    | nonterminal i =>
      rw [List.cons_append, mem_firstOfPhrase_nonterminal, ih ha.2, mem_firstOfPhrase_nonterminal,
        mem_firstOfPhrase_nonterminal]
      simp only [ne_eq, not_true_eq_false, and_false, false_or]
      tauto

/-- Sets that contain only what is right give phrases only what is right. -/
lemma first_of_mem_firstOfPhrase (hf : ∀ i, ∀ t ∈ f.get i, P.First [.nonterminal i] t)
    (hp : .terminal .epsilon ∉ p) (ht : t ∈ firstOfPhrase f p) : P.First p t := by
  induction p with
  | nil =>
    obtain rfl := mem_firstOfPhrase_nil.mp ht
    exact RuleSet.first_epsilon.mpr .nil
  | cons s p ih =>
    rw [List.mem_cons, not_or] at hp
    cases s with
    | terminal k =>
      have hk : k ≠ .epsilon := fun h => hp.1 (congrArg Symbol.terminal h.symm)
      obtain rfl := (mem_firstOfPhrase_terminal hk).mp ht
      exact (RuleSet.first_of_ne hk).mpr (.terminal .nil)
    | nonterminal i =>
      rcases mem_firstOfPhrase_nonterminal.mp ht with ⟨hi, hne⟩ | ⟨hi, hp'⟩
      · have hbegins := (RuleSet.first_of_ne hne).mp (hf i t hi)
        exact (RuleSet.first_of_ne hne).mpr (hbegins.append_right p)
      · have herasable := RuleSet.first_epsilon.mp (hf i .epsilon hi)
        have hfirst := ih hp.2 hp'
        by_cases hε : t = .epsilon
        · subst hε
          exact RuleSet.first_epsilon.mpr (herasable.append (RuleSet.first_epsilon.mp hfirst))
        · rw [RuleSet.first_of_ne hε] at hfirst ⊢
          exact herasable.begins_append hfirst

/-- Sets that include what the rules demand give phrases all that is right. -/
lemma mem_firstOfPhrase_of_first (hP : P.Avoids .epsilon)
    (hf : ∀ i a, P i a → ∀ t ∈ firstOfPhrase f a, t ∈ f.get i) (ht : P.First p t) :
    t ∈ firstOfPhrase f p := by
  have hempty {p : Phrase Nat} (h : P.Erasable p) : .epsilon ∈ firstOfPhrase f p := by
    induction h with
    | nil => exact mem_firstOfPhrase_nil.mpr rfl
    | cons hn _ _ iha ihp =>
      exact mem_firstOfPhrase_nonterminal.mpr (.inr ⟨hf _ _ hn _ iha, ihp⟩)
  by_cases hε : t = .epsilon
  · subst hε
    exact hempty (RuleSet.first_epsilon.mp ht)
  · have hbegins := (RuleSet.first_of_ne hε).mp ht
    clear ht
    generalize hw : [t] = w at hbegins
    -- the symbol in front of the phrase has `t` in its FIRST set, or the rest of the phrase does
    induction hbegins with
    | nil => exact absurd hw (by simp)
    | terminal _ _ =>
      obtain ⟨rfl, -⟩ := List.cons.inj hw
      exact (mem_firstOfPhrase_terminal hε).mpr rfl
    | nonterminal hn _ ih =>
      rw [mem_firstOfPhrase_nonterminal]
      rcases (mem_firstOfPhrase_append (hP _ _ hn) hε).mp (ih hw) with ha | ⟨ha, hp⟩
      · exact .inl ⟨hf _ _ hn t ha, hε⟩
      · exact .inr ⟨hf _ _ hn _ ha, hp⟩

/-! ### The FIRST sets -/

namespace Rules

lemma mem_firstDemands_iff : d ∈ r.firstDemands ↔
    ∃ i a, r.ruleSet i a ∧ d = ⟨i, fun first => firstOfPhrase first a⟩ := by
  simp only [firstDemands, List.mem_flatMap, List.mem_range, List.mem_map]
  constructor
  · rintro ⟨i, -, a, ha, rfl⟩
    exact ⟨i, a, ha, rfl⟩
  · rintro ⟨i, a, ha, rfl⟩
    exact ⟨i, lt_size_of_rule ha, a, ha, rfl⟩

lemma first_of_mem_firstSets (hε : r.ruleSet.Avoids .epsilon)
    (ht : t ∈ r.firstSets.family.get i) : r.ruleSet.First [.nonterminal i] t := by
  revert i t
  refine saturate_induction
    (motive := fun f => ∀ {i t}, t ∈ f.get i → r.ruleSet.First [.nonterminal i] t) ?_ ?_
  · intro i t ht
    rw [SetFamily.get_ofSize] at ht
    exact absurd ht TerminalSet.not_mem_empty
  · intro f d hd hf i t ht
    obtain ⟨j, a, ha, rfl⟩ := mem_firstDemands_iff.mp hd
    rcases SetFamily.mem_get_add ht with ht | ⟨rfl, ht⟩
    · exact hf ht
    · exact .of_rule ha (first_of_mem_firstOfPhrase (fun _ _ => hf) (hε _ a ha) ht)

lemma target_lt_of_mem_firstDemands (hd : d ∈ r.firstDemands) :
    d.target < (SetFamily.ofSize r.size).size := by
  obtain ⟨i, a, ha, rfl⟩ := mem_firstDemands_iff.mp hd
  rw [SetFamily.size_ofSize]
  exact lt_size_of_rule ha

lemma mem_firstSets_of_rule (ha : r.ruleSet i a)
    (ht : t ∈ firstOfPhrase r.firstSets.family a) : t ∈ r.firstSets.family.get i :=
  meets_saturate (fun _ => target_lt_of_mem_firstDemands) _
    (mem_firstDemands_iff.mpr ⟨i, a, ha, rfl⟩) t ht

/-- **FIRST of a phrase contains what the phrase can begin with**, and nothing else. -/
theorem mem_phraseFirst_iff (hε : r.ruleSet.Avoids .epsilon) (hp : .terminal .epsilon ∉ p) :
    t ∈ r.firstFollow.phraseFirst p ↔ r.ruleSet.First p t :=
  ⟨first_of_mem_firstOfPhrase (fun _ _ => first_of_mem_firstSets hε) hp,
    mem_firstOfPhrase_of_first hε fun _ _ ha _ => mem_firstSets_of_rule ha⟩

end Rules

/-! ### The FOLLOW sets -/

/-- What is demanded of FOLLOW of a nonterminal that stands before the phrase `v` in an
alternative of nonterminal `i`. -/
def followBound (first : SetFamily) (i : Nat) (v : Phrase Nat) (follow : SetFamily) : TerminalSet :=
  if (firstOfPhrase first v).contains .epsilon then
    (firstOfPhrase first v).erase .epsilon ∪ follow.get i
  else firstOfPhrase first v

lemma mem_followBound {first follow : SetFamily} : t ∈ followBound first i v follow ↔
    t ∈ firstOfPhrase first v ∧ t ≠ .epsilon ∨
      .epsilon ∈ firstOfPhrase first v ∧ t ∈ follow.get i := by
  rw [followBound]
  exact TerminalSet.mem_ite_epsilon

namespace Rules

lemma mem_followDemandsOf_iff : d ∈ followDemandsOf f i p ↔
    ∃ u j v, p = u ++ .nonterminal j :: v ∧ d = ⟨j, followBound f i v⟩ := by
  induction p with
  | nil => simp [followDemandsOf]
  | cons s p ih =>
    cases s with
    | terminal k =>
      rw [followDemandsOf, ih]
      constructor
      · rintro ⟨u, j, v, rfl, rfl⟩
        exact ⟨.terminal k :: u, j, v, rfl, rfl⟩
      · rintro ⟨u, j, v, hp, rfl⟩
        cases u with
        | nil => exact absurd (List.cons.inj hp).1 (by simp)
        | cons s u => exact ⟨u, j, v, (List.cons.inj hp).2, rfl⟩
    | nonterminal l =>
      have hd : followDemandsOf f i (.nonterminal l :: p) =
          ⟨l, followBound f i p⟩ :: followDemandsOf f i p := by
        rw [followDemandsOf]
        congr 2
        funext follow
        rw [followBound]
        split <;> rfl
      rw [hd, List.mem_cons, ih]
      constructor
      · rintro (rfl | ⟨u, j, v, rfl, rfl⟩)
        · exact ⟨[], l, p, rfl, rfl⟩
        · exact ⟨.nonterminal l :: u, j, v, rfl, rfl⟩
      · rintro ⟨u, j, v, hp, rfl⟩
        cases u with
        | nil =>
          obtain ⟨hl, rfl⟩ := List.cons.inj hp
          obtain rfl := Symbol.nonterminal.inj hl
          exact .inl rfl
        | cons s u => exact .inr ⟨u, j, v, (List.cons.inj hp).2, rfl⟩

lemma mem_followDemands_iff : d ∈ r.followDemands f ↔
    ∃ i u j v, r.ruleSet i (u ++ .nonterminal j :: v) ∧ d = ⟨j, followBound f i v⟩ := by
  simp only [followDemands, List.mem_flatMap, List.mem_range, mem_followDemandsOf_iff]
  constructor
  · rintro ⟨i, -, a, ha, u, j, v, rfl, rfl⟩
    exact ⟨i, u, j, v, ha, rfl⟩
  · rintro ⟨i, u, j, v, ha, rfl⟩
    exact ⟨i, lt_size_of_rule ha, _, ha, u, j, v, rfl, rfl⟩

lemma target_lt_of_mem_followDemands (hr : r.WellFormed) (hd : d ∈ r.followDemands f) :
    d.target < ((SetFamily.ofSize r.size).add r.start (.singleton .endOfInput)).size := by
  obtain ⟨i, u, j, v, ha, rfl⟩ := mem_followDemands_iff.mp hd
  rw [SetFamily.size_add, SetFamily.size_ofSize]
  exact hr.references_lt i _ ha j (by simp)

lemma mem_followSets_of_rule (hr : r.WellFormed) (ha : r.ruleSet i (u ++ .nonterminal j :: v))
    (ht : t ∈ followBound f i v (r.followSets f).family) : t ∈ (r.followSets f).family.get j :=
  meets_saturate (fun _ => target_lt_of_mem_followDemands hr) _
    (mem_followDemands_iff.mpr ⟨i, u, j, v, ha, rfl⟩) t ht

/-- **FOLLOW contains what can come after a nonterminal**: what the rest of an alternative can
begin with, and if the rest can be empty, what follows the nonterminal of the alternative. -/
theorem mem_followOf_of_rule (hr : r.WellFormed) (hε : r.ruleSet.Avoids .epsilon)
    (ha : r.ruleSet i (u ++ .nonterminal j :: v)) (ht : t ≠ .epsilon)
    (h : r.ruleSet.Begins v [t] ∨ r.ruleSet.Erasable v ∧ t ∈ r.firstFollow.followOf i) :
    t ∈ r.firstFollow.followOf j := by
  have hv : .terminal .epsilon ∉ v := fun hmem => hε i _ ha (by simp [hmem])
  have hfirst (k : Terminal) : k ∈ firstOfPhrase r.firstSets.family v ↔ r.ruleSet.First v k :=
    mem_phraseFirst_iff hε hv
  refine mem_followSets_of_rule hr ha (mem_followBound.mpr ?_)
  rw [hfirst, hfirst, RuleSet.first_epsilon, RuleSet.first_of_ne ht]
  exact h.imp_left fun hb => ⟨hb, ht⟩

/-- **FOLLOW contains nothing else.**  A relation that holds of the end of the source at the start
symbol, and of whatever the alternatives let come after a nonterminal, holds of all that FOLLOW
contains. -/
theorem followOf_induction {F : Nat → Terminal → Prop} (hε : r.ruleSet.Avoids .epsilon)
    (start : F r.start .endOfInput)
    (rule : ∀ i u j v t, r.ruleSet i (u ++ .nonterminal j :: v) → t ≠ .epsilon →
      r.ruleSet.Begins v [t] ∨ r.ruleSet.Erasable v ∧ F i t → F j t)
    (ht : t ∈ r.firstFollow.followOf i) : t ≠ .epsilon ∧ F i t := by
  revert i t
  refine saturate_induction (motive := fun f => ∀ {i t}, t ∈ f.get i → t ≠ .epsilon ∧ F i t) ?_ ?_
  · intro i t ht
    rcases SetFamily.mem_get_add ht with hnone | ⟨rfl, hend⟩
    · rw [SetFamily.get_ofSize] at hnone
      exact absurd hnone TerminalSet.not_mem_empty
    · obtain rfl := TerminalSet.mem_singleton.mp hend
      exact ⟨by simp, start⟩
  · intro f d hd hf j t ht
    obtain ⟨i, u, k, v, ha, rfl⟩ := mem_followDemands_iff.mp hd
    rcases SetFamily.mem_get_add ht with hold | ⟨rfl, hnew⟩
    · exact hf hold
    · have hv : .terminal .epsilon ∉ v := fun hmem => hε i _ ha (by simp [hmem])
      have hfirst (k : Terminal) : k ∈ firstOfPhrase r.firstSets.family v ↔ r.ruleSet.First v k :=
        mem_phraseFirst_iff hε hv
      have hbound := mem_followBound.mp hnew
      rw [hfirst, hfirst, RuleSet.first_epsilon] at hbound
      rcases hbound with ⟨hbegins, hne⟩ | ⟨herasable, hi⟩
      · rw [RuleSet.first_of_ne hne] at hbegins
        exact ⟨hne, rule i u _ v t ha hne (.inl hbegins)⟩
      · obtain ⟨hne, hFi⟩ := hf hi
        exact ⟨hne, rule i u _ v t ha hne (.inr ⟨herasable, hFi⟩)⟩

/-- FIRST of a nonterminal contains what it can begin with. -/
lemma mem_firstOf_iff (hε : r.ruleSet.Avoids .epsilon) :
    t ∈ r.firstFollow.firstOf i ↔ r.ruleSet.First [.nonterminal i] t := by
  rw [← mem_phraseFirst_iff hε (by simp)]
  change _ ↔ t ∈ firstOfPhrase r.firstSets.family [.nonterminal i]
  rw [mem_firstOfPhrase_nonterminal, mem_firstOfPhrase_nil]
  change t ∈ r.firstSets.family.get i ↔ _
  by_cases h : t = .epsilon
  · subst h
    simp
  · simp [h]

/-- The end of the source follows the start symbol. -/
lemma endOfInput_mem_followOf_start (hr : r.WellFormed) :
    .endOfInput ∈ r.firstFollow.followOf r.start := by
  refine get_subset_saturate ?_
  rw [SetFamily.get_add (by simpa using hr.start_lt), if_pos rfl]
  exact TerminalSet.mem_union.mpr (.inr (TerminalSet.mem_singleton.mpr rfl))

end Rules

end LL1
