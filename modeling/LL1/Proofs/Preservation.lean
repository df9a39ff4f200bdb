/-
# Normalization of LL(1) grammars

A grammar that is LL(1) and has no useless nonterminals is transformed like any other one: leading
nonterminals are replaced by their alternatives, and phrases that are common to alternatives are
taken out.  It stays LL(1) all along.  The proof is about separated rules: each change of a single
production keeps them separated, so that transformations do.  Since separated rules have no left
recursion, no production is ever split, and leading nonterminals are replaced only finitely often.

The terminals that can follow a nonterminal are not computed anew after every step.  It is enough
that the relation with which one starts says what can follow a nonterminal, since FOLLOW is the
least one that does.
-/
import LL1.Proofs.Factoring
import LL1.Proofs.Separation

namespace LL1

/-- Productions with different names and alternatives, whose rules are separated when the end of the
source can follow the start symbol. -/
structure Separable (start : String) (ps : List Production) : Prop where
  nodup : (namesOf ps).Nodup
  alternatives_nodup : ∀ p ∈ ps, p.alternatives.Nodup
  start_mem : start ∈ namesOf ps
  separated : ∃ F, (ruleSetOf ps).Separated F ∧ F start .endOfInput

section

variable {start : String} {ps l r : List Production} {p q : Production}

/-! ### Changes of single productions -/

/-- With different names and alternatives, an alternative of a production is gone when it has been
removed there. -/
lemma not_ruleSetOf_of_not_mem {a : Alternative} (hps : (namesOf (l ++ p :: r)).Nodup)
    {as : List Alternative} (ha : a ∉ as) :
    ¬ ruleSetOf (l ++ { p with alternatives := as } :: r) p.name a := by
  rw [ruleSetOf_insert]
  rintro (h | ⟨-, h⟩)
  · exact (nodup_namesOf_insert.mp hps).1 (mem_namesOf_of_rule h)
  · exact ha h

/-- The alternatives are still different from each other after a leading nonterminal has been
replaced. -/
lemma nodup_alternatives_replace {F : String → Terminal → Prop} {rest : Phrase String}
    {others : List Alternative} (h : (ruleSetOf ps).Separated F) (hp : p ∈ ps) (hq : q ∈ ps)
    (hpn : p.alternatives.Nodup) (hqn : q.alternatives.Nodup)
    (hperm : p.alternatives.Perm ((.nonterminal q.name :: rest) :: others)) :
    (Elimination.replace p q rest others).alternatives.Nodup := by
  obtain ⟨hnot, hothers⟩ := List.nodup_cons.mp (hperm.nodup_iff.mp hpn)
  refine List.Nodup.append hothers (hqn.map fun a b hab => List.append_cancel_right hab) ?_
  intro a ha hnew
  obtain ⟨b, hb, rfl⟩ := List.mem_map.mp hnew
  -- the alternative that was replaced would derive the same strings
  have hrule : ruleSetOf ps p.name (b ++ rest) :=
    ⟨p, hp, rfl, hperm.mem_iff.mpr (List.mem_cons_of_mem _ ha)⟩
  have hold : ruleSetOf ps p.name (.nonterminal q.name :: rest) :=
    ⟨p, hp, rfl, hperm.mem_iff.mpr List.mem_cons_self⟩
  obtain ⟨w, hw⟩ := h.productive _ _ hrule
  obtain ⟨u, v, rfl, hu, hv⟩ := RuleSet.yields_append_iff.mp hw
  have hw' : (ruleSetOf ps).Yields (.nonterminal q.name :: rest) (u ++ v) :=
    .nonterminal ⟨q, hq, rfl, hb⟩ hu hv
  have hsame := h.first_first _ _ _ _ _ hrule hold hw hw' rfl
  exact hnot (hsame ▸ ha)

lemma Separable.replace {rest : Phrase String} {others : List Alternative}
    (h : Separable start (l ++ p :: r)) (hq : q ∈ l ++ r)
    (hperm : p.alternatives.Perm ((.nonterminal q.name :: rest) :: others)) :
    Separable start (l ++ Elimination.replace p q rest others :: r) := by
  have hmem (a : Alternative) :
      a ∈ p.alternatives ↔ a = .nonterminal q.name :: rest ∨ a ∈ others := by
    rw [hperm.mem_iff, List.mem_cons]
  have hk := KeepsLanguages.substitute h.nodup hq hmem
  have hp : p ∈ l ++ p :: r := by simp
  have hq' : q ∈ l ++ p :: r := by
    rw [List.mem_append, List.mem_cons]
    exact (List.mem_append.mp hq).imp_right .inr
  obtain ⟨F, hF, hstart⟩ := h.separated
  refine ⟨hk.nodup, ?_, hk.names_subset h.start_mem, F, ?_, hstart⟩
  · intro p' hp'
    rw [List.mem_append, List.mem_cons] at hp'
    rcases hp' with hp' | rfl | hp'
    · exact h.alternatives_nodup p' (by simp [hp'])
    · exact nodup_alternatives_replace hF hp hq' (h.alternatives_nodup p hp)
        (h.alternatives_nodup q hq') hperm
    · exact h.alternatives_nodup p' (by simp [hp'])
  · have hnot : .nonterminal q.name :: rest ∉ others :=
      (List.nodup_cons.mp (hperm.nodup_iff.mp (h.alternatives_nodup p hp))).1
    exact hF.substitute (Elimination.substitutes_replace h.nodup hq hmem)
      (not_ruleSetOf_of_not_mem h.nodup hnot)

lemma Separable.toCanonical (h : Separable start ps) :
    Separable start (ps.map Production.toCanonical) := by
  have hk := KeepsLanguages.toCanonical h.nodup
  have hrules : ruleSetOf (ps.map Production.toCanonical) = ruleSetOf ps := by
    funext n a
    simp [ruleSetOf, Production.toCanonical, mem_canonical]
  refine ⟨hk.nodup, ?_, hk.names_subset h.start_mem, hrules ▸ h.separated⟩
  intro p hp
  obtain ⟨q, -, rfl⟩ := List.mem_map.mp hp
  exact (increasing_canonical q.alternatives).nodup

lemma Separable.factor {T : String} (h : Separable start (l ++ p :: r)) (hshared : p.shared ≠ [])
    (hT : T ∉ mentionedNames (l ++ p :: r)) : Separable start (l ++ (p.factor T ++ r)) := by
  have hk := KeepsLanguages.factor h.nodup hshared hT
  have hrules : ruleSetOf (l ++ (p.factor T ++ r)) = ruleSetOf
      (l ++ (p.splitShared p.shared T).1 :: (p.splitShared p.shared T).2 :: r) := by
    funext n a
    simp [Production.factor, ruleSetOf_insert, Production.toCanonical, mem_canonical]
  obtain ⟨F, hF, hstart⟩ := h.separated
  refine ⟨hk.nodup, ?_, hk.names_subset h.start_mem, RuleSet.FollowWith F p.name T, ?_, ?_⟩
  · intro p' hp'
    simp only [Production.factor, List.mem_append, List.mem_cons, List.not_mem_nil,
      or_false] at hp'
    rcases hp' with hp' | (rfl | rfl) | hp'
    · exact h.alternatives_nodup p' (by simp [hp'])
    · exact (increasing_canonical _).nodup
    · exact (increasing_canonical _).nodup
    · exact h.alternatives_nodup p' (by simp [hp'])
  · rw [hrules]
    refine hF.factor (Production.factors_splitShared hT) (fun d => ?_) ?_
    · refine not_ruleSetOf_of_not_mem h.nodup ?_
      simp
    · -- the two alternatives that begin with the phrase go on differently
      obtain ⟨a, b, hsub, ⟨d, rfl⟩, ⟨d', rfl⟩⟩ := p.isShared_shared hshared
      refine ⟨d, d', hsub.subset (by simp), hsub.subset (by simp), ?_⟩
      rintro rfl
      have hnodup := (h.alternatives_nodup p (by simp)).sublist hsub
      simp at hnodup
  · refine .inr ⟨?_, hstart⟩
    rintro rfl
    exact (not_mem_mentionedNames_iff.mp hT).1 h.start_mem

end

/-! ### Removing left recursion -/

section

variable {start : String} {ps : List Production} {p : Production} {later : List Production}
  {e e' : Elimination} {a : Alternative} {fuel : Nat}

lemma Separable.not_leadsTo_self (h : Separable start ps) (hp : p ∈ ps) : ¬ p.LeadsTo p.name := by
  rintro ⟨a, ha, hlead⟩
  obtain ⟨r, rfl⟩ := Phrase.leading?_eq_some_iff.mp hlead
  obtain ⟨F, hF, -⟩ := h.separated
  have hcorner : (ruleSetOf ps).LeftCorner p.name p.name := ⟨[], r, ⟨p, hp, rfl, ha⟩, .nil⟩
  exact hF.wellFounded_leftCorner.asymmetric _ _ hcorner hcorner

lemma Separable.step (h : Separable start e.productions) (hstep : e.step = some e') :
    Separable start e'.productions := by
  obtain ⟨p, later, hp, ⟨q, hq, rest, others, hperm, hs, hpend⟩ | ⟨-, rfl⟩⟩ :=
    Elimination.step_cases hstep
  · rw [Elimination.productions, hp] at h
    rw [Elimination.productions, hs, hpend]
    exact h.replace (by simp [hq]) hperm
  · have hself : ¬ p.LeadsTo p.name :=
      h.not_leadsTo_self (Elimination.mem_productions_of_pending hp)
    obtain ⟨hpend, ⟨-, hs⟩ | ⟨hlead, -⟩⟩ := Elimination.settle_cases e p later
    · -- the production only moves to the settled ones
      have hsame : (e.settle p later).productions = e.productions := by
        simp [Elimination.productions, hpend, hs, hp]
      exact hsame ▸ h
    · exact absurd hlead hself

lemma Separable.acc_unfolds (h : Separable start e.productions) :
    Acc (ruleSetOf e.settled).Unfolds a := by
  obtain ⟨F, hF, -⟩ := h.separated
  refine RuleSet.acc_unfolds fun n _ => ?_
  refine Subrelation.accessible (RuleSet.LeftCorner.mono fun m b hb => ?_)
    (hF.wellFounded_leftCorner.apply n)
  obtain ⟨p, hp, hm, hb⟩ := hb
  exact ⟨p, Elimination.mem_productions_of_settled hp, hm, hb⟩

namespace Grammar

variable {g : Grammar} {t : Transformed} {n : Normalization}

/-- The removal of left recursion comes to an end. -/
lemma exists_removeLeftRecursion_of_separable (h : Separable g.start g.productions) :
    ∃ fuel t, g.removeLeftRecursion fuel = some t := by
  have hacc : Acc Elimination.Steps (Elimination.ofProductions g.productions) :=
    Elimination.acc_steps (I := fun e => Separable g.start e.productions)
      (fun _ _ h hstep => h.step hstep) (fun _ _ _ h _ _ _ => h.acc_unfolds) h
  obtain ⟨fuel, e, hrun⟩ := Elimination.exists_run_of_acc hacc
  exact ⟨fuel, _, by rw [removeLeftRecursion, hrun]; rfl⟩

lemma separable_removeLeftRecursion (h : Separable g.start g.productions)
    (ht : g.removeLeftRecursion fuel = some t) : Separable g.start t.grammar.productions := by
  obtain ⟨e, he, rfl⟩ := Option.map_eq_some_iff.mp ht
  have hrun := (Elimination.run_induction (motive := fun e => Separable g.start e.productions) he h
    fun _ _ h hstep => h.step hstep).1
  exact hrun.toCanonical

/-- **Normalization keeps the rules of a grammar separated.** -/
lemma separable_normalize (h : Separable g.start g.productions)
    (hn : g.normalize fuel = some n) : Separable g.start n.grammar.productions := by
  obtain ⟨t, ht, rfl⟩ := Option.map_eq_some_iff.mp hn
  refine leftFactor_induction (motive := Separable g.start) ?_ (separable_removeLeftRecursion h ht)
  intro l p r T h hshared hT
  exact h.factor hshared hT

end Grammar

end

/-! ### Named and numbered rules -/

namespace RuleSet

variable {ν : Type} {P : RuleSet ν} {p : Phrase ν}

/-- A phrase derives a string if its nonterminals do. -/
lemma exists_yields_of_nonterminals
    (h : ∀ n ∈ p.nonterminals, ∃ w, P.Yields [.nonterminal n] w) : ∃ w, P.Yields p w := by
  induction p with
  | nil => exact ⟨[], .nil⟩
  | cons s p ih =>
    obtain ⟨w, hw⟩ := ih fun n hn => h n (by simpa using .inr (Phrase.mem_nonterminals.mp hn))
    cases s with
    | terminal t => exact ⟨t :: w, .terminal hw⟩
    | nonterminal n =>
      obtain ⟨u, hu⟩ := h n (by simp)
      exact ⟨u ++ w, hu.append hw⟩

end RuleSet

namespace Rules

variable {g : Grammar} {r : Rules} {F : String → Terminal → Prop} {G : Nat → Terminal → Prop}

/-- An alternative with numbers derives a string if those with names do. -/
lemma productive_resolve (h : resolve g = .ok r) (hg : g.nonterminals.Nodup)
    (hproductive : ∀ n a, g.ruleSet n a → ∃ w, g.ruleSet.Yields a w) (i : Nat) (b : Phrase Nat)
    (hb : r.ruleSet i b) : ∃ w, r.ruleSet.Yields b w := by
  obtain ⟨w, hw⟩ := hproductive _ _ (ruleSet_of_resolve h hb).1
  have hw' := hw.rename fun n a ha => ruleSet_resolve h hg ha
  rw [rename_getD_of_resolve h hg hb] at hw'
  exact ⟨w, hw'⟩

/-- Names can be given back to separated rules. -/
lemma separated_of_resolve (h : resolve g = .ok r) (hg : g.nonterminals.Nodup)
    (hproductive : ∀ n a, g.ruleSet n a → ∃ w, g.ruleSet.Yields a w)
    (hr : r.ruleSet.Separated G) :
    g.ruleSet.Separated fun n => G (g.nonterminals.idxOf n) := by
  refine hr.of_rename (fun n a ha => ruleSet_resolve h hg ha) (fun n a b ha hb hab => ?_)
    hproductive
  rw [← rename_idxOf_of_resolve h hg ha, ← rename_idxOf_of_resolve h hg hb, hab]

/-- Separated rules can be numbered. -/
lemma separated_resolve (h : resolve g = .ok r) (hg : g.nonterminals.Nodup)
    (hF : g.ruleSet.Separated F) :
    r.ruleSet.Separated fun i => F (g.nonterminals.getD i "") := by
  refine hF.of_rename (fun i b hb => (ruleSet_of_resolve h hb).1) (fun i a b ha hb hab => ?_)
    (productive_resolve h hg hF.productive)
  rw [← rename_getD_of_resolve h hg ha, ← rename_getD_of_resolve h hg hb, hab]

/-- Separated rules pass the check, whatever relation says what can follow a nonterminal: FOLLOW is
the least one. -/
lemma isLL1_of_separated (hε : r.ruleSet.Avoids .epsilon) (hG : r.ruleSet.Separated G)
    (hstart : G r.start .endOfInput) : r.ruleSet.IsLL1 r.CanFollow := by
  have hle (i : Nat) (t : Terminal) (ht : r.CanFollow i t) : G i t := by
    refine (followOf_induction hε hstart (fun i u j v t hrule _ hv => ?_) ht).2
    rcases hv with hv | ⟨hv, hi⟩
    · obtain ⟨w, hw⟩ := hv.exists_yields hG.productive (hG.exists_yields_behind hrule)
      exact hG.follow_first i u j v t w hrule hw
    · exact hG.follow_follow i u j v t hrule hv.yields hi
  exact ⟨hG.isLL1.first_first, fun n t ht hempty hbegins hfollow =>
    hG.isLL1.first_follow n t ht hempty hbegins (hle n t hfollow)⟩

end Rules

namespace Grammar

variable {g : Grammar} {r : Rules}

/-- The rules of an LL(1) grammar without useless nonterminals are separated. -/
lemma separable_of_check (hg : g.WellFormed)
    (hproductive : ∀ A ∈ g.nonterminals, (g.language A).Nonempty)
    (hr : Rules.resolve g = .ok r) (hcheck : r.firstFollow.check r = .ok ()) :
    Separable g.start g.productions := by
  have hε : r.ruleSet.Avoids .epsilon := Rules.avoids_resolve hr hg.noMarker
  have hll1 : r.ruleSet.IsLL1 r.CanFollow :=
    (Rules.check_eq_ok_iff hε (Rules.nodup_alternatives_resolve hr)).mp hcheck
  have hrules : ∀ n a, g.ruleSet n a → ∃ w, g.ruleSet.Yields a w := by
    intro n a ha
    refine RuleSet.exists_yields_of_nonterminals fun m hm => ?_
    obtain ⟨w, hw⟩ := hproductive m (Rules.mem_nonterminals_of_resolve hr hg.nodup ha hm)
    exact ⟨w, mem_language_iff.mp hw⟩
  have hseparated : r.ruleSet.Separated r.CanFollow :=
    hll1.separated (Rules.follows (Rules.wellFormed_of_resolve hr) hε)
      (fun _ _ h => Rules.ne_epsilon_of_canFollow hε h) hε
      (Rules.productive_resolve hr hg.nodup hrules)
  refine ⟨hg.nodup, fun p hp => (hg.increasing p hp).nodup, hg.start_mem, _,
    Rules.separated_of_resolve hr hg.nodup hrules hseparated, ?_⟩
  have hstart := (idxOf_of_idxOf?_eq_some (Rules.resolve_eq_ok hr).2).1
  rw [hstart]
  exact Rules.endOfInput_mem_followOf_start (Rules.wellFormed_of_resolve hr)

/-- **Normalization keeps a grammar LL(1).**  If the rules of a grammar pass the check as they are
and every nonterminal derives some string, then there is a normal form, on which a further pass of
left factoring would have no effect, and if its names can be resolved, then its rules pass the check
and have a table. -/
theorem check_normalize_eq_ok (hg : g.WellFormed)
    (hproductive : ∀ A ∈ g.nonterminals, (g.language A).Nonempty)
    (hr : Rules.resolve g = .ok r) (hcheck : r.firstFollow.check r = .ok ()) :
    (∃ fuel n, g.normalize fuel = some n) ∧
    ∀ fuel n, g.normalize fuel = some n →
      (FactoringPass.ofProductions n.grammar.productions).changed = false ∧
      ∀ r', Rules.resolve n.grammar = .ok r' →
        r'.firstFollow.check r' = .ok () ∧
          ∃ table, Table.ofRules r' r'.firstFollow = .ok table := by
  have hseparable := separable_of_check hg hproductive hr hcheck
  constructor
  · obtain ⟨fuel, t, ht⟩ := exists_removeLeftRecursion_of_separable hseparable
    exact ⟨fuel, ⟨t, t.grammar.leftFactor⟩, by rw [normalize, ht]; rfl⟩
  · intro fuel n hn
    obtain ⟨t, ht, rfl⟩ := Option.map_eq_some_iff.mp hn
    refine ⟨t.grammar.changed_leftFactor, fun r' hr' => ?_⟩
    have hnormal := separable_normalize hseparable hn
    have hε := avoids_epsilon_normalize hg hn hr'
    have hnodup := Rules.nodup_alternatives_resolve hr'
    obtain ⟨F, hF, hstart⟩ := hnormal.separated
    have hll1 : r'.ruleSet.IsLL1 r'.CanFollow := by
      refine Rules.isLL1_of_separated hε (Rules.separated_resolve hr' hnormal.nodup hF) ?_
      rw [(idxOf_of_idxOf?_eq_some (Rules.resolve_eq_ok hr').2).2.1, start_normalize hn]
      exact hstart
    exact ⟨(Rules.check_eq_ok_iff hε hnodup).mpr hll1,
      (Rules.exists_table_iff hε hnodup).mpr hll1.deterministic⟩

end Grammar

/-- A grammar in which a leading nonterminal is replaced, and a common one that can be empty is taken
out. -/
def gappedList : Grammar where
  productions := [
    ⟨"item", [[.nonterminal "gap", .terminal .comma], [.nonterminal "gap", .terminal .identifier]]⟩,
    ⟨"list", [[.nonterminal "item", .terminal .semicolon]]⟩,
    ⟨"gap", [[]]⟩]
  start := "list"

lemma wellFormed_gappedList : gappedList.WellFormed := by
  have h : Grammar.define [.rule "item" [.nonterminal "gap", .terminal .comma],
      .rule "item" [.nonterminal "gap", .terminal .identifier],
      .rule "list" [.nonterminal "item", .terminal .semicolon], .rule "gap" [],
      .startAt "list"] = .ok gappedList := by decide +kernel
  exact Grammar.wellFormed_of_define h

lemma productive_gappedList : ∀ A ∈ gappedList.nonterminals, (gappedList.language A).Nonempty := by
  have hgap : gappedList.ruleSet.Yields [.nonterminal "gap"] [] := by
    refine RuleSet.Yields.nil.of_rule ⟨⟨"gap", [[]]⟩, ?_, rfl, ?_⟩ <;> simp [gappedList]
  have hitem : gappedList.ruleSet.Yields [.nonterminal "item"] [.comma] := by
    refine (hgap.append (.terminal (t := .comma) .nil)).of_rule
      ⟨⟨"item", [[.nonterminal "gap", .terminal .comma],
        [.nonterminal "gap", .terminal .identifier]]⟩, ?_, rfl, ?_⟩ <;> simp [gappedList]
  have hlist : gappedList.ruleSet.Yields [.nonterminal "list"] [.comma, .semicolon] := by
    refine (hitem.append (.terminal (t := .semicolon) .nil)).of_rule
      ⟨⟨"list", [[.nonterminal "item", .terminal .semicolon]]⟩, ?_, rfl, ?_⟩ <;> simp [gappedList]
  have hnames : gappedList.nonterminals = ["item", "list", "gap"] := rfl
  rw [hnames]
  simp only [List.forall_mem_cons, List.not_mem_nil, false_imp_iff, implies_true, and_true]
  exact ⟨⟨_, Grammar.mem_language_iff.mpr hitem⟩, ⟨_, Grammar.mem_language_iff.mpr hlist⟩,
    ⟨_, Grammar.mem_language_iff.mpr hgap⟩⟩

/-- Its normal form has two nonterminals more, and passes the check. -/
theorem check_normalize_gappedList : ∃ r n r', Rules.resolve gappedList = .ok r ∧
    r.firstFollow.check r = .ok () ∧ gappedList.normalize 10 = some n ∧
      n.grammar.nonterminals = ["item", "item_rest1", "list", "list_rest1", "gap"] ∧
      Rules.resolve n.grammar = .ok r' ∧ r'.firstFollow.check r' = .ok () ∧
      ∃ table, Table.ofRules r' r'.firstFollow = .ok table := by
  have hbefore : (Rules.resolve gappedList).bind (fun r => r.firstFollow.check r) = .ok () := by
    decide +kernel
  have hafter : (gappedList.normalize 10).map
      (fun n => (n.grammar.nonterminals, (Rules.resolve n.grammar).isOk)) =
        some (["item", "item_rest1", "list", "list_rest1", "gap"], true) := by decide +kernel
  obtain ⟨n, hn, hpair⟩ := Option.map_eq_some_iff.mp hafter
  obtain ⟨hnames, hok⟩ := Prod.mk.inj hpair
  cases hr : Rules.resolve gappedList with
  | error e => exact absurd hbefore (by simp [hr, Except.bind])
  | ok r =>
    have hcheck : r.firstFollow.check r = .ok () := by simpa [hr, Except.bind] using hbefore
    cases hr' : Rules.resolve n.grammar with
    | error e => exact absurd hok (by simp [hr', Except.isOk, Except.toBool])
    | ok r' =>
      have hall := (Grammar.check_normalize_eq_ok wellFormed_gappedList productive_gappedList hr
        hcheck).2 10 n hn
      obtain ⟨hcheck', htable⟩ := hall.2 r' hr'
      exact ⟨r, n, r', rfl, hcheck, hn, hnames, hr', hcheck', htable⟩

end LL1
