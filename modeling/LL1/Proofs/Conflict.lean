/-
# The check for conflicts and the parse table

Two ways are used to find out that one token of lookahead does not suffice.  The check compares
the FIRST sets of alternatives, and FIRST with FOLLOW where a nonterminal can be empty; a table
compares the lookaheads that call for alternatives.  In terms of the rules, the first one finds out
whether they are LL(1), the second one whether they are deterministic.

Rules that are LL(1) are deterministic.  In the other direction, a nonterminal that can be empty
and begins with a token that can follow it has an alternative that does both, unless two of its
alternatives are called for.  The token is then pursued into that alternative, down to a
nonterminal with two such alternatives.  So the check refuses rules that have a table only if two
alternatives of a nonterminal are both empty and nothing follows it.
-/
import LL1.Proofs.Compilation

namespace LL1

/-! ### What is found out about the rules -/

namespace RuleSet

variable {ν : Type} {P : RuleSet ν} {F : ν → Terminal → Prop} {n : ν} {a b p : Phrase ν}
  {t : Terminal}

/-- No token calls for two alternatives of a nonterminal. -/
def Deterministic (P : RuleSet ν) (F : ν → Terminal → Prop) : Prop :=
  ∀ n a b t, P n a → P n b → t ≠ .epsilon → P.CallsFor F n t a → P.CallsFor F n t b → a = b

/-- Alternatives of a nonterminal begin differently, and at most one of them can be empty.  A
nonterminal that can be empty does not begin with a token that can follow it. -/
structure IsLL1 (P : RuleSet ν) (F : ν → Terminal → Prop) : Prop where
  first_first : ∀ n a b t, P n a → P n b → P.First a t → P.First b t → a = b
  first_follow : ∀ n t, t ≠ .epsilon → P.Erasable [.nonterminal n] →
    P.Begins [.nonterminal n] [t] → ¬ F n t

/-- **LL(1) rules are deterministic.** -/
theorem IsLL1.deterministic (h : P.IsLL1 F) : P.Deterministic F := by
  intro n a b t ha hb ht hta htb
  -- an empty alternative is not called for by a token that another one begins with
  have hcross {c d : Phrase ν} (hc : P n c) (hd : P n d) (hbegins : P.Begins c [t])
      (hempty : P.Erasable d) : ¬ F n t :=
    h.first_follow n t ht (.cons hd hempty .nil) (.nonterminal hc (by simpa using hbegins))
  rcases hta with hta | ⟨hea, hfollow⟩
  · rcases htb with htb | ⟨heb, hfollow⟩
    · rw [← first_of_ne ht] at hta htb
      exact h.first_first n a b t ha hb hta htb
    · exact absurd hfollow (hcross ha hb hta heb)
  · rcases htb with htb | ⟨heb, -⟩
    · exact absurd hfollow (hcross hb ha htb hea)
    · rw [← first_epsilon] at hea heb
      exact h.first_first n a b .epsilon ha hb hea heb

/-- A phrase that can be empty, all of whose nonterminals can be followed by a token, does not
begin with it. -/
lemma Deterministic.not_begins (h : P.Deterministic F) (hF : P.Follows F) (ht : t ≠ .epsilon)
    (hempty : P.Erasable p) (hfollow : ∀ m ∈ p.nonterminals, F m t) : ¬ P.Begins p [t] := by
  intro hbegins
  generalize hw : [t] = w at hbegins
  induction hbegins with
  | nil => exact absurd hw (by simp)
  | terminal _ _ => exact absurd hempty (by rintro ⟨⟩)
  | @nonterminal m b q w hb hbegins ih =>
    subst hw
    obtain ⟨e, he, hee, hq⟩ := hempty.exists_rule
    have hm : F m t := hfollow m (by simp)
    -- the token calls for `e`, hence it is `e` that was chosen
    have hb_empty : P.Erasable b := by
      rcases begins_append_singleton_iff.mp hbegins with hb' | ⟨hb', -⟩
      · obtain rfl := h m b e t hb he ht (.inl hb') (.inr ⟨hee, hm⟩)
        exact hee
      · exact hb'
    refine ih (hb_empty.append hq) (fun k hk => ?_) rfl
    rw [Phrase.mem_nonterminals, List.mem_append] at hk
    rcases hk with hk | hk
    · exact hF.of_erasable hb hb_empty ht hm k (Phrase.mem_nonterminals.mpr hk)
    · exact hfollow k (Phrase.mem_nonterminals.mpr (List.mem_cons_of_mem _ hk))

/-- **Deterministic rules have no FIRST/FOLLOW conflict.** -/
theorem Deterministic.first_follow (h : P.Deterministic F) (hF : P.Follows F) (ht : t ≠ .epsilon)
    (hempty : P.Erasable [.nonterminal n]) (hbegins : P.Begins [.nonterminal n] [t]) :
    ¬ F n t := by
  intro hfollow
  refine h.not_begins hF ht hempty (fun m hm => ?_) hbegins
  obtain rfl : m = n := by simpa using hm
  exact hfollow

end RuleSet

namespace TerminalSet

variable {s u : TerminalSet}

lemma isEmpty_iff : s.isEmpty = true ↔ ∀ t, t ∉ s := by
  rw [isEmpty, beq_iff_eq]
  constructor
  · intro h t
    rw [mem_iff_contains, contains, h]
    simp
  · intro h
    have hempty : s = ∅ := ext_mem fun t => iff_of_false (h t) not_mem_empty
    rw [hempty]
    rfl

lemma inter_isEmpty_iff : (s ∩ u).isEmpty = true ↔ ∀ t ∈ u, t ∉ s := by
  rw [isEmpty_iff]
  refine forall_congr' fun t => ?_
  rw [mem_inter, not_and, imp_not_comm]

/-- Sets that belong to different things are disjoint if and only if an element of two of them
shows that they belong to the same thing. -/
lemma pairwise_disjoint_iff {α : Type} {as : List α} {f : α → TerminalSet} (has : as.Nodup) :
    (as.map f).Pairwise (fun s u => ∀ t ∈ u, t ∉ s) ↔
      ∀ a ∈ as, ∀ b ∈ as, ∀ t, t ∈ f a → t ∈ f b → a = b := by
  rw [List.pairwise_map]
  constructor
  · intro h a ha b hb t hta htb
    have : Std.Symm fun a b => ∀ t ∈ f b, t ∉ f a := ⟨fun a b hab t hta htb => hab t htb hta⟩
    by_contra hne
    exact h.forall ha hb hne t htb hta
  · intro h
    exact has.pairwise_of_forall_ne fun a ha b hb hne t htb hta => hne (h a ha b hb t hta htb)

end TerminalSet

/-! ### The search for conflicts -/

namespace FirstFollow

variable {s : FirstFollow} {r : Rules} {i j k a b : Nat} {e : GrammarError} {u c : TerminalSet}
  {us : List TerminalSet}

lemma clashWith_eq_none_iff : clashWith u i j us = none ↔ ∀ u' ∈ us, ∀ t ∈ u', t ∉ u := by
  induction us generalizing j with
  | nil => simp [clashWith]
  | cons v us ih =>
    rw [clashWith, List.forall_mem_cons, ← TerminalSet.inter_isEmpty_iff]
    split
    · next h => rw [ih, h, eq_self_iff_true, true_and]
    · next h => simp [h]

lemma clashWith_eq_some (h : clashWith u i j us = some (c, a, b)) :
    ∃ u' ∈ us, c = u ∩ u' ∧ c.isEmpty = false := by
  induction us generalizing j with
  | nil => exact absurd h (by simp [clashWith])
  | cons v us ih =>
    rw [clashWith] at h
    split at h
    · obtain ⟨u', hu', hc⟩ := ih h
      exact ⟨u', List.mem_cons_of_mem v hu', hc⟩
    · next hne =>
      obtain rfl : u ∩ v = c := (Prod.mk.inj (Option.some.inj h)).1
      exact ⟨v, List.mem_cons_self, rfl, Bool.eq_false_iff.mpr hne⟩

/-- Nothing is found if and only if the sets are disjoint from each other. -/
lemma clash_eq_none_iff : clash i us = none ↔ us.Pairwise fun u u' => ∀ t ∈ u', t ∉ u := by
  induction us generalizing i with
  | nil => simp [clash]
  | cons v us ih =>
    rw [clash, List.pairwise_cons, Option.orElse_eq_orElse, Option.orElse_eq_or,
      Option.or_eq_none_iff, clashWith_eq_none_iff, ih]

/-- What is found are the common elements of two of the sets. -/
lemma clash_eq_some (h : clash i us = some (c, a, b)) :
    ∃ u u', [u, u'].Sublist us ∧ c = u ∩ u' ∧ c.isEmpty = false := by
  induction us generalizing i with
  | nil => exact absurd h (by simp [clash])
  | cons v us ih =>
    rw [clash, Option.orElse_eq_orElse, Option.orElse_eq_or, Option.or_eq_some_iff] at h
    rcases h with h | ⟨-, h⟩
    · obtain ⟨u', hu', hc⟩ := clashWith_eq_some h
      exact ⟨v, u', (List.singleton_sublist.mpr hu').cons_cons v, hc⟩
    · obtain ⟨u, u', hsub, hc⟩ := ih h
      exact ⟨u, u', hsub.cons v, hc⟩

lemma conflict?_eq_none_iff : s.conflict? r i = none ↔
    ((r.alternatives i).map s.phraseFirst).Pairwise (fun u u' => ∀ t ∈ u', t ∉ u) ∧
      (s.isNullable i = true → ∀ t ∈ s.followOf i, t ∉ s.firstOf i) := by
  rw [← clash_eq_none_iff (i := 0), conflict?, ← TerminalSet.inter_isEmpty_iff]
  split
  · next h => simp [h]
  · next h =>
    rw [h]
    by_cases hnull : s.isNullable i = true <;>
      by_cases hempty : (s.firstOf i ∩ s.followOf i).isEmpty = true <;> simp [hnull, hempty]

/-- A conflict is about common elements of FIRST of two alternatives, or of FIRST and FOLLOW of a
nonterminal that can be empty. -/
lemma conflict?_eq_some (h : s.conflict? r i = some e) :
    (∃ p q a b, [p, q].Sublist (r.alternatives i) ∧
      (s.phraseFirst p ∩ s.phraseFirst q).isEmpty = false ∧
        e = .conflict (r.name i) (s.phraseFirst p ∩ s.phraseFirst q) (.firstFirst a b)) ∨
      s.isNullable i = true ∧ (s.firstOf i ∩ s.followOf i).isEmpty = false ∧
        e = .conflict (r.name i) (s.firstOf i ∩ s.followOf i) .firstFollow := by
  rw [conflict?] at h
  split at h
  · next c a b hclash =>
    obtain ⟨u, u', hsub, rfl, hne⟩ := clash_eq_some hclash
    obtain ⟨ps, hps, hmap⟩ := List.sublist_map_iff.mp hsub
    match ps with
    | [p, q] =>
      obtain ⟨rfl, rfl⟩ : u = s.phraseFirst p ∧ u' = s.phraseFirst q := by simpa using hmap
      exact .inl ⟨p, q, a, b, hps, hne, (Option.some.inj h).symm⟩
    | [] | [_] | _ :: _ :: _ :: _ => exact absurd (congrArg List.length hmap) (by simp)
  · dsimp only at h
    split at h
    · next hboth =>
      obtain ⟨hnull, hne⟩ := Bool.and_eq_true_iff.mp hboth
      exact .inr ⟨hnull, by simpa using hne, (Option.some.inj h).symm⟩
    · exact absurd h (by simp)

lemma check_eq_ok_iff : s.check r = .ok () ↔ ∀ i < r.size, s.conflict? r i = none := by
  simp only [← List.mem_range, ← List.findSome?_eq_none_iff]
  rw [check]
  split
  · next h => simp [h]
  · next h => simp [h]

lemma exists_conflict?_of_check (h : s.check r = .error e) :
    ∃ i < r.size, s.conflict? r i = some e := by
  rw [check] at h
  split at h
  · next h' =>
    obtain rfl := Except.error.inj h
    obtain ⟨i, hi, hconflict⟩ := List.exists_of_findSome?_eq_some h'
    exact ⟨i, List.mem_range.mp hi, hconflict⟩
  · exact absurd h (by simp)

end FirstFollow

/-! ### The check and the table in terms of the rules -/

namespace Rules

variable {r : Rules} {i : Nat} {t : Terminal} {e : GrammarError} {table : Table}

/-- The terminals that FOLLOW lets come after a nonterminal. -/
abbrev CanFollow (r : Rules) (i : Nat) (t : Terminal) : Prop := t ∈ r.firstFollow.followOf i

lemma follows (hr : r.WellFormed) (hε : r.ruleSet.Avoids .epsilon) :
    r.ruleSet.Follows r.CanFollow :=
  fun _ _ _ _ _ ha ht hv => mem_followOf_of_rule hr hε ha ht hv

lemma ne_epsilon_of_canFollow (hε : r.ruleSet.Avoids .epsilon) (h : r.CanFollow i t) :
    t ≠ .epsilon :=
  (followOf_induction (F := fun _ _ => True) hε trivial (fun _ _ _ _ _ _ _ _ => trivial) h).1

section

variable (hε : r.ruleSet.Avoids .epsilon)
include hε

/-- **The check finds out whether rules are LL(1).** -/
theorem check_eq_ok_iff (hnodup : ∀ i, (r.alternatives i).Nodup) :
    r.firstFollow.check r = .ok () ↔ r.ruleSet.IsLL1 r.CanFollow := by
  rw [FirstFollow.check_eq_ok_iff]
  simp only [FirstFollow.conflict?_eq_none_iff, TerminalSet.pairwise_disjoint_iff (hnodup _),
    mem_firstOf_iff hε]
  have hnullable (i : Nat) :
      r.firstFollow.isNullable i = true ↔ r.ruleSet.Erasable [.nonterminal i] := by
    rw [← RuleSet.first_epsilon, ← mem_firstOf_iff hε]
    rfl
  constructor
  · intro h
    refine ⟨fun i a b t ha hb hta htb => ?_, fun i t ht hempty hbegins hfollow => ?_⟩
    · rw [← mem_phraseFirst_iff hε (hε i a ha)] at hta
      rw [← mem_phraseFirst_iff hε (hε i b hb)] at htb
      exact (h i (lt_size_of_rule ha)).1 a ha b hb t hta htb
    · obtain ⟨a, ha, -⟩ := hempty.exists_rule
      have hdisjoint := (h i (lt_size_of_rule ha)).2 ((hnullable i).mpr hempty)
      exact hdisjoint t hfollow ((RuleSet.first_of_ne ht).mpr hbegins)
  · intro h i _
    refine ⟨fun a ha b hb t hta htb => ?_, fun hempty t hfollow hfirst => ?_⟩
    · rw [mem_phraseFirst_iff hε (hε i a ha)] at hta
      rw [mem_phraseFirst_iff hε (hε i b hb)] at htb
      exact h.first_first i a b t ha hb hta htb
    · have ht : t ≠ .epsilon := ne_epsilon_of_canFollow hε hfollow
      rw [RuleSet.first_of_ne ht] at hfirst
      exact h.first_follow i t ht ((hnullable i).mp hempty) hfirst hfollow

lemma epsilon_not_mem_predict (i : Nat) (p : Phrase Nat) :
    .epsilon ∉ r.firstFollow.predict i p := by
  rw [FirstFollow.predict, TerminalSet.mem_ite_epsilon]
  rintro (⟨-, hne⟩ | ⟨-, hfollow⟩)
  · exact hne rfl
  · exact ne_epsilon_of_canFollow hε hfollow rfl

/-- **There is a table if and only if the rules are deterministic.** -/
theorem exists_table_iff (hnodup : ∀ i, (r.alternatives i).Nodup) :
    (∃ table, Table.ofRules r r.firstFollow = .ok table) ↔
      r.ruleSet.Deterministic r.CanFollow := by
  constructor
  · rintro ⟨table, h⟩ i a b t ha hb ht hta htb
    obtain ⟨-, -, hpredictions, -⟩ := Table.ofRules_eq_ok h
    have hdisjoint := hpredictions i (lt_size_of_rule ha)
    rw [FirstFollow.predictions, TerminalSet.pairwise_disjoint_iff (hnodup i)] at hdisjoint
    rw [← mem_predict_iff hε ht (hε i a ha)] at hta
    rw [← mem_predict_iff hε ht (hε i b hb)] at htb
    exact hdisjoint a ha b hb t hta htb
  · intro h
    have hnone : r.firstFollow.cellConflict? r = none := by
      refine List.findSome?_eq_none_iff.mpr fun i _ => ?_
      rw [Row.conflict?, Option.map_eq_none_iff, Row.overlap_eq_none_iff]
      refine ⟨fun _ _ _ _ => TerminalSet.not_mem_empty, ?_⟩
      rw [FirstFollow.predictions, TerminalSet.pairwise_disjoint_iff (hnodup i)]
      intro a ha b hb t hta htb
      have ht : t ≠ .epsilon := fun hε' => epsilon_not_mem_predict hε i a (hε' ▸ hta)
      rw [mem_predict_iff hε ht (hε i a ha)] at hta
      rw [mem_predict_iff hε ht (hε i b hb)] at htb
      exact h i a b t ha hb ht hta htb
    simp only [Table.ofRules, hnone]
    exact ⟨_, rfl⟩

/-- If rules are deterministic, then different alternatives of a nonterminal begin with nothing in
common, but they may both be empty if nothing follows the nonterminal. -/
lemma inter_phraseFirst_of_deterministic {p q : Phrase Nat}
    (h : r.ruleSet.Deterministic r.CanFollow) (hp : r.ruleSet i p) (hq : r.ruleSet i q)
    (hpq : p ≠ q)
    (hne : (r.firstFollow.phraseFirst p ∩ r.firstFollow.phraseFirst q).isEmpty = false) :
    r.firstFollow.phraseFirst p ∩ r.firstFollow.phraseFirst q = .singleton .epsilon ∧
      r.firstFollow.followOf i = ∅ := by
  have hmem (t : Terminal) : t ∈ r.firstFollow.phraseFirst p ∩ r.firstFollow.phraseFirst q ↔
      r.ruleSet.First p t ∧ r.ruleSet.First q t := by
    rw [TerminalSet.mem_inter, mem_phraseFirst_iff hε (hε i p hp),
      mem_phraseFirst_iff hε (hε i q hq)]
  -- a common terminal would call for both alternatives
  have hmarker : ∀ t ∈ r.firstFollow.phraseFirst p ∩ r.firstFollow.phraseFirst q,
      t = .epsilon := by
    intro t ht
    by_contra ht'
    rw [hmem, RuleSet.first_of_ne ht', RuleSet.first_of_ne ht'] at ht
    exact hpq (h i p q t hp hq ht' (.inl ht.1) (.inl ht.2))
  -- so both can be empty, and what follows the nonterminal would call for both, too
  have hempty : .epsilon ∈ r.firstFollow.phraseFirst p ∩ r.firstFollow.phraseFirst q := by
    by_contra hnone
    refine Bool.eq_false_iff.mp hne (TerminalSet.isEmpty_iff.mpr fun t ht => hnone ?_)
    exact hmarker t ht ▸ ht
  constructor
  · refine TerminalSet.ext_mem fun t => ?_
    rw [TerminalSet.mem_singleton]
    exact ⟨hmarker t, fun ht => ht ▸ hempty⟩
  · refine TerminalSet.ext_mem fun t => iff_of_false (fun ht => ?_) TerminalSet.not_mem_empty
    rw [hmem, RuleSet.first_epsilon, RuleSet.first_epsilon] at hempty
    have hne := ne_epsilon_of_canFollow hε ht
    exact hpq (h i p q t hp hq hne (.inr ⟨hempty.1, ht⟩) (.inr ⟨hempty.2, ht⟩))

/-- If rules are deterministic, then FIRST and FOLLOW of a nonterminal that can be empty are
disjoint. -/
lemma inter_followOf_of_deterministic (h : r.ruleSet.Deterministic r.CanFollow) (hr : r.WellFormed)
    (hnull : r.firstFollow.isNullable i = true) :
    (r.firstFollow.firstOf i ∩ r.firstFollow.followOf i).isEmpty = true := by
  rw [TerminalSet.inter_isEmpty_iff]
  intro t hfollow hfirst
  have ht := ne_epsilon_of_canFollow hε hfollow
  rw [mem_firstOf_iff hε, RuleSet.first_of_ne ht] at hfirst
  have hempty : r.ruleSet.Erasable [.nonterminal i] :=
    RuleSet.first_epsilon.mp ((mem_firstOf_iff hε).mp hnull)
  exact h.first_follow (follows hr hε) ht hempty hfirst hfollow

/-- Of rules that have a table the check refuses only those with two alternatives of a nonterminal
that can both be empty, and which nothing follows. -/
lemma conflict_of_table (hnodup : ∀ i, (r.alternatives i).Nodup) (hr : r.WellFormed)
    (htable : Table.ofRules r r.firstFollow = .ok table)
    (h : r.firstFollow.check r = .error e) :
    ∃ i < r.size, ∃ a b, e = .conflict (r.name i) (.singleton .epsilon) (.firstFirst a b) ∧
      r.firstFollow.followOf i = ∅ := by
  have hdet : r.ruleSet.Deterministic r.CanFollow := (exists_table_iff hε hnodup).mp ⟨table, htable⟩
  obtain ⟨i, hi, hconflict⟩ := FirstFollow.exists_conflict?_of_check h
  rcases FirstFollow.conflict?_eq_some hconflict with
    ⟨p, q, a, b, hsub, hne, rfl⟩ | ⟨hnull, hne, -⟩
  · have hpq : p ≠ q := by simpa using (hnodup i).sublist hsub
    obtain ⟨hinter, hfollow⟩ := inter_phraseFirst_of_deterministic hε hdet
      (hsub.subset (by simp)) (hsub.subset (by simp)) hpq hne
    exact ⟨i, hi, a, b, by rw [hinter], hfollow⟩
  · exact absurd (inter_followOf_of_deterministic hε hdet hr hnull) (by simp [hne])

end

end Rules

namespace Grammar

variable {g : Grammar} {fuel : Nat} {n : Normalization} {r : Rules} {c : Compilation}

/-- The rules of a normal form have the marker of the empty string nowhere. -/
lemma avoids_epsilon_normalize (hg : g.WellFormed) (hn : g.normalize fuel = some n)
    (hr : Rules.resolve n.grammar = .ok r) : r.ruleSet.Avoids .epsilon :=
  Rules.avoids_resolve hr ((keepsLanguages_normalize hg.nodup hn).avoids .epsilon hg.noMarker)

/-- Rules without a table have been refused before a table is asked for. -/
lemma result_ne_tableConflict (hg : g.WellFormed) (hc : g.compile fuel = some c)
    (name : String) (t : Terminal) (a b : Nat) :
    c.result ≠ .error (.tableConflict name t a b) := by
  obtain ⟨n, hn, rfl⟩ := Option.map_eq_some_iff.mp hc
  intro h
  change (Outcome.ofNormal true n.grammar).result = _ at h
  rw [Outcome.ofNormal] at h
  split at h
  · next e he =>
    obtain rfl : e = _ := Except.error.inj h
    have hcases := Rules.resolve_eq_error he
    simp at hcases
  · next r hr =>
    have hε := avoids_epsilon_normalize hg hn hr
    have hnodup := Rules.nodup_alternatives_resolve hr
    dsimp only at h
    split at h
    · next e he =>
      obtain rfl : e = _ := Except.error.inj h
      obtain ⟨i, -, hi⟩ := FirstFollow.exists_conflict?_of_check (by simpa using he)
      rcases FirstFollow.conflict?_eq_some hi with ⟨_, _, _, _, -, -, hconflict⟩ | ⟨-, -, hconflict⟩
      · exact absurd hconflict (by simp)
      · exact absurd hconflict (by simp)
    · next hcheck =>
      have hll1 := (Rules.check_eq_ok_iff hε hnodup).mp (by simpa using hcheck)
      obtain ⟨table, htable⟩ := (Rules.exists_table_iff hε hnodup).mpr hll1.deterministic
      rw [htable] at h
      exact absurd h (by simp [Outcome.result])

/-- **The check and the table agree.**  A compilation never ends with two alternatives in one cell
of the table, since resolved rules of a normal form that pass the check have a table.  If they
have a table and do not pass the check, then two alternatives of a nonterminal that nothing
follows have been found to be both empty, and to begin with nothing in common. -/
theorem check_agrees_with_table (hg : g.WellFormed) (fuel : Nat) :
    (∀ c, g.compile fuel = some c →
      ∀ name t a b, c.result ≠ .error (.tableConflict name t a b)) ∧
    ∀ n r, g.normalize fuel = some n → Rules.resolve n.grammar = .ok r →
      (r.firstFollow.check r = .ok () →
        ∃ table, Table.ofRules r r.firstFollow = .ok table) ∧
      ∀ table e, Table.ofRules r r.firstFollow = .ok table →
        r.firstFollow.check r = .error e →
        ∃ i < r.size, ∃ a b,
          e = .conflict (r.name i) (.singleton .epsilon) (.firstFirst a b) ∧
            r.firstFollow.followOf i = ∅ := by
  refine ⟨fun c hc => result_ne_tableConflict hg hc, fun n r hn hr => ?_⟩
  have hε := avoids_epsilon_normalize hg hn hr
  have hnodup := Rules.nodup_alternatives_resolve hr
  refine ⟨fun hcheck => ?_, fun table e htable he => ?_⟩
  · have hll1 := (Rules.check_eq_ok_iff hε hnodup).mp hcheck
    exact (Rules.exists_table_iff hε hnodup).mpr hll1.deterministic
  · exact Rules.conflict_of_table hε hnodup (Rules.wellFormed_of_resolve hr) htable he

end Grammar

/-- A grammar in which nothing refers to the nonterminal `gap`, whose alternatives are empty. -/
def idleGap : Grammar where
  productions := [⟨"list", [[.terminal .semicolon]]⟩,
    ⟨"gap", [[.nonterminal "blank"], [.nonterminal "space"]]⟩, ⟨"blank", [[]]⟩, ⟨"space", [[]]⟩]
  start := "list"

lemma wellFormed_idleGap : idleGap.WellFormed := by
  have h : Grammar.define [.rule "list" [.terminal .semicolon],
      .rule "gap" [.nonterminal "blank"], .rule "gap" [.nonterminal "space"],
      .rule "blank" [], .rule "space" []] = .ok idleGap := by decide +kernel
  exact Grammar.wellFormed_of_define h

/-- The check refuses it, although it has a table. -/
theorem check_refuses_idleGap : ∃ n r table e,
    idleGap.normalize 5 = some n ∧ Rules.resolve n.grammar = .ok r ∧
      Table.ofRules r r.firstFollow = .ok table ∧ r.firstFollow.check r = .error e ∧
      ∃ i < r.size, ∃ a b, e = .conflict (r.name i) (.singleton .epsilon) (.firstFirst a b) ∧
        r.firstFollow.followOf i = ∅ := by
  have h : (idleGap.normalize 5).any (fun n => (Rules.resolve n.grammar).toOption.any fun r =>
      (Table.ofRules r r.firstFollow).isOk && ! (r.firstFollow.check r).isOk) = true := by
    decide +kernel
  obtain ⟨n, hn, h⟩ := (Option.any_eq_true _ _).mp h
  cases hr : Rules.resolve n.grammar with
  | error x => exact absurd h (by simp [hr, Except.toOption])
  | ok r =>
    rw [hr, Except.toOption, Option.any_some] at h
    cases htable : Table.ofRules r r.firstFollow with
    | error c => exact absurd h (by simp [htable, Except.isOk, Except.toBool])
    | ok table =>
      cases he : r.firstFollow.check r with
      | ok u => exact absurd h (by simp [he, Except.isOk, Except.toBool])
      | error e =>
        obtain ⟨-, hall⟩ := Grammar.check_agrees_with_table wellFormed_idleGap 5
        exact ⟨n, r, table, e, hn, hr, htable, he, (hall n r hn hr).2 table e htable he⟩

end LL1
