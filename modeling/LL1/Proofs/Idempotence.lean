/-
# Normalizing again

Removing left recursion leaves a grammar as it is if and only if all of its nonterminals lead
forward, that is, to nonterminals behind them only.  The nonterminals of a grammar do so once left
recursion has been removed, and they still do in the normal form.  But nonterminals that were added
on the way need not: what they begin with has stood in the middle of an alternative before, where
it was not looked at.  So a normal form is left as it is by another normalization if and only if
these lead forward as well, and in `wordList` they do not.
-/
import LL1.Proofs.Factoring
import LL1.Proofs.Unfolding

namespace LL1

/-- The productions whose names satisfy `S` lead neither to themselves nor to those before them. -/
structure LeadsForward (S : String → Prop) (ps : List Production) : Prop where
  earlier : ps.Pairwise fun p q => S q.name → ¬ q.LeadsTo p.name
  self : ∀ p ∈ ps, S p.name → ¬ p.LeadsTo p.name

namespace LeadsForward

variable {S S' : String → Prop} {ps l r : List Production} {p : Production}

lemma append_iff : LeadsForward S (l ++ r) ↔ LeadsForward S l ∧ LeadsForward S r ∧
    ∀ p ∈ l, ∀ q ∈ r, S q.name → ¬ q.LeadsTo p.name := by
  constructor
  · rintro ⟨hearlier, hself⟩
    obtain ⟨hl, hr, hlr⟩ := List.pairwise_append.mp hearlier
    obtain ⟨hself_l, hself_r⟩ := List.forall_mem_append.mp hself
    exact ⟨⟨hl, hself_l⟩, ⟨hr, hself_r⟩, hlr⟩
  · rintro ⟨hl, hr, hlr⟩
    exact ⟨List.pairwise_append.mpr ⟨hl.earlier, hr.earlier, hlr⟩,
      List.forall_mem_append.mpr ⟨hl.self, hr.self⟩⟩

lemma cons_iff : LeadsForward S (p :: ps) ↔
    (S p.name → ¬ p.LeadsTo p.name) ∧ (∀ q ∈ ps, S q.name → ¬ q.LeadsTo p.name) ∧
      LeadsForward S ps := by
  constructor
  · rintro ⟨hearlier, hself⟩
    obtain ⟨hp, hps⟩ := List.pairwise_cons.mp hearlier
    obtain ⟨hself_p, hself_ps⟩ := List.forall_mem_cons.mp hself
    exact ⟨hself_p, hp, hps, hself_ps⟩
  · rintro ⟨hself, hp, hps⟩
    exact ⟨List.pairwise_cons.mpr ⟨hp, hps.earlier⟩, List.forall_mem_cons.mpr ⟨hself, hps.self⟩⟩

lemma mono (h : LeadsForward S ps) (hS : ∀ p ∈ ps, S' p.name → S p.name) : LeadsForward S' ps where
  earlier := h.earlier.imp_of_mem fun _ hq hpq hq' => hpq (hS _ hq hq')
  self p hp hp' := h.self p hp (hS p hp hp')

/-- Whether productions lead forward can be looked at for some of them first and then for the
others. -/
lemma forall_iff (h : LeadsForward S ps) :
    LeadsForward (fun _ => True) ps ↔ LeadsForward (¬ S ·) ps := by
  constructor
  · intro hall
    exact hall.mono fun _ _ _ => trivial
  · intro hothers
    refine ⟨(h.earlier.and hothers.earlier).imp ?_, fun p hp _ => ?_⟩
    · rintro p q ⟨hpq, hpq'⟩ -
      by_cases hq : S q.name
      · exact hpq hq
      · exact hpq' hq
    · by_cases hS : S p.name
      · exact h.self p hp hS
      · exact hothers.self p hp hS

lemma toCanonical_iff : LeadsForward S (ps.map Production.toCanonical) ↔ LeadsForward S ps := by
  have hlead (p : Production) (n : String) : p.toCanonical.LeadsTo n ↔ p.LeadsTo n := by
    simp [Production.LeadsTo, Production.toCanonical, mem_canonical]
  constructor
  · rintro ⟨hearlier, hself⟩
    rw [List.pairwise_map] at hearlier
    rw [List.forall_mem_map] at hself
    exact ⟨hearlier.imp fun hpq hq hlead' => hpq hq ((hlead _ _).mpr hlead'),
      fun p hp hS hlead' => hself p hp hS ((hlead _ _).mpr hlead')⟩
  · rintro ⟨hearlier, hself⟩
    refine ⟨List.pairwise_map.mpr ?_, List.forall_mem_map.mpr ?_⟩
    · exact hearlier.imp fun hpq hq hlead' => hpq hq ((hlead _ _).mp hlead')
    · exact fun p hp hS hlead' => hself p hp hS ((hlead _ _).mp hlead')

end LeadsForward

/-! ### Removing left recursion -/

namespace Elimination

variable {settled pending later : List Production} {p : Production} {notices : List Notice}

/-- A production that leads forward is settled as it is. -/
lemma step_of_not_leadsTo (hfirst : ∀ q ∈ settled, ¬ p.LeadsTo q.name)
    (hself : ¬ p.LeadsTo p.name) :
    step ⟨settled, p :: later, notices⟩ = some ⟨p :: settled, later, notices⟩ := by
  have hnone : extractFirst (expansion? settled) p.alternatives = none := by
    refine extractFirst_eq_none_iff.mpr fun a ha => ?_
    cases hx : expansion? settled a with
    | none => rfl
    | some x =>
      obtain ⟨rfl, hfind⟩ := expansion?_eq_some_iff.mp hx
      exact absurd ⟨_, ha, rfl⟩ (hfirst x.1 (List.mem_of_find?_eq_some hfind))
  have hrecursive : ¬ p.alternatives.any (isRecursive p.name) = true :=
    any_isRecursive_iff.not.mpr hself
  simp only [step, hnone, settle, if_neg hrecursive]

/-- A list of productions that lead forward is gone through without any change. -/
lemma run_of_leadsForward (h : LeadsForward (fun _ => True) (settled.reverse ++ pending)) :
    run (pending.length + 1) ⟨settled, pending, notices⟩ =
      some ⟨pending.reverse ++ settled, [], notices⟩ := by
  induction pending generalizing settled with
  | nil => rfl
  | cons p later ih =>
    obtain ⟨-, hlater, hfirst⟩ := LeadsForward.append_iff.mp h
    obtain ⟨hself, -, -⟩ := LeadsForward.cons_iff.mp hlater
    have hstep : step ⟨settled, p :: later, notices⟩ = some ⟨p :: settled, later, notices⟩ := by
      refine step_of_not_leadsTo (fun q hq => ?_) (hself trivial)
      exact hfirst q (List.mem_reverse.mpr hq) p List.mem_cons_self trivial
    have hnext : run (later.length + 1) ⟨p :: settled, later, notices⟩ =
        some ⟨later.reverse ++ p :: settled, [], notices⟩ := ih (by simpa using h)
    rw [List.length_cons, run, hstep]
    simpa using hnext

end Elimination

/-- The alternatives of all productions are in canonical form. -/
def CanonicalForm (ps : List Production) : Prop := ∀ p ∈ ps, Increasing p.alternatives

namespace Grammar

variable {g : Grammar} {t : Transformed} {fuel : Nat}

lemma canonicalForm_toCanonical (ps : List Production) :
    CanonicalForm (ps.map Production.toCanonical) :=
  List.forall_mem_map.mpr fun p _ => increasing_canonical p.alternatives

lemma map_toCanonical {ps : List Production} (h : CanonicalForm ps) :
    ps.map Production.toCanonical = ps := by
  calc ps.map Production.toCanonical
      = ps.map id := List.map_congr_left fun p hp => by
        simp [Production.toCanonical, canonical_of_increasing (h p hp)]
    _ = ps := List.map_id ps

/-- **The nonterminals of a grammar lead forward** when left recursion has been removed. -/
theorem leadsForward_removeLeftRecursion (hg : g.nonterminals.Nodup)
    (h : g.removeLeftRecursion fuel = some t) :
    LeadsForward (· ∈ g.nonterminals) t.grammar.productions ∧
      CanonicalForm t.grammar.productions := by
  obtain ⟨e, he, rfl⟩ := Option.map_eq_some_iff.mp h
  obtain ⟨hforward, hend⟩ := Elimination.run_induction he (Elimination.forward_ofProductions hg)
    fun _ _ h hstep => h.step hstep
  have hpending : e.pending = [] := Elimination.step_eq_none_iff.mp hend
  have hprod : e.productions = e.settled.reverse := by
    rw [Elimination.productions, hpending, List.append_nil]
  refine ⟨LeadsForward.toCanonical_iff.mpr ?_, canonicalForm_toCanonical _⟩
  rw [hprod]
  exact ⟨List.pairwise_reverse.mpr hforward.settled_first,
    fun p hp => hforward.not_self p (List.mem_reverse.mp hp)⟩

/-- **Removing left recursion leaves a grammar as it is** if and only if all nonterminals lead
forward. -/
theorem removeLeftRecursion_eq_self_iff (hg : g.nonterminals.Nodup)
    (hcanonical : CanonicalForm g.productions) :
    (∃ fuel t, g.removeLeftRecursion fuel = some t ∧ t.grammar = g) ↔
      LeadsForward (fun _ => True) g.productions := by
  constructor
  · rintro ⟨fuel, t, ht, heq⟩
    have hforward := (leadsForward_removeLeftRecursion hg ht).1
    rw [heq] at hforward
    exact hforward.mono fun p hp _ => List.mem_map_of_mem hp
  · intro h
    have hrun : (Elimination.ofProductions g.productions).run (g.productions.length + 1) =
        some ⟨g.productions.reverse ++ [], [], []⟩ := Elimination.run_of_leadsForward h
    refine ⟨_, _, Option.map_eq_some_iff.mpr ⟨_, hrun, rfl⟩, ?_⟩
    simp [Elimination.productions, map_toCanonical hcanonical]

end Grammar

/-! ### Left factoring -/

/-- The state while a grammar with the given nonterminals is being factored. -/
structure FactoredForward (names : List String) (ps : List Production) : Prop where
  names_subset : names ⊆ namesOf ps
  forward : LeadsForward (· ∈ names) ps
  canonical : CanonicalForm ps

namespace FactoredForward

variable {names : List String} {l r : List Production} {p : Production} {n T : String}

/-- The phrase that is taken out begins as some alternative did before. -/
lemma leadsTo_of_splitShared (hshared : p.shared ≠ [])
    (h : (p.splitShared p.shared T).1.LeadsTo n) : p.LeadsTo n := by
  obtain ⟨a, ha, hlead⟩ := h
  rcases mem_splitShared_fst.mp ha with ha | rfl
  · exact ⟨a, (mem_alternatives_iff_continues p.shared).mpr (.inl ha), hlead⟩
  · obtain ⟨d, hd⟩ := p.continues_shared hshared
    rw [Phrase.leading?_append hshared] at hlead
    exact ⟨p.shared ++ d, hd, (Phrase.leading?_append hshared d).trans hlead⟩

/-- **Factoring a production keeps the order.** -/
lemma factor (h : FactoredForward names (l ++ p :: r)) (hshared : p.shared ≠ [])
    (hT : T ∉ mentionedNames (l ++ p :: r)) :
    FactoredForward names (l ++ (p.factor T ++ r)) := by
  have hnew : T ∉ names := fun hT' =>
    (not_mem_mentionedNames_iff.mp hT).1 (h.names_subset hT')
  obtain ⟨hl, hpr, hfirst⟩ := LeadsForward.append_iff.mp h.forward
  obtain ⟨hself, hafter, hr⟩ := LeadsForward.cons_iff.mp hpr
  have hsplit : LeadsForward (· ∈ names)
      (l ++ (p.splitShared p.shared T).1 :: (p.splitShared p.shared T).2 :: r) := by
    refine LeadsForward.append_iff.mpr ⟨hl, LeadsForward.cons_iff.mpr ⟨?_, ?_,
      LeadsForward.cons_iff.mpr ⟨fun hT => absurd hT hnew, ?_, hr⟩⟩, ?_⟩
    · exact fun hp hlead => hself hp (leadsTo_of_splitShared hshared hlead)
    · intro q hq hqnames
      rcases List.mem_cons.mp hq with rfl | hq
      · exact absurd hqnames hnew
      · exact hafter q hq hqnames
    · -- what comes later does not refer to the new nonterminal
      rintro q hq - ⟨a, ha, hlead⟩
      obtain ⟨c, rfl⟩ := Phrase.leading?_eq_some_iff.mp hlead
      exact nonterminal_not_mem_of_fresh hT (by simp [hq]) ha List.mem_cons_self
    · intro q hq x hx hxnames hlead
      rcases List.mem_cons.mp hx with rfl | hx
      · exact hfirst q hq p List.mem_cons_self hxnames (leadsTo_of_splitShared hshared hlead)
      · rcases List.mem_cons.mp hx with rfl | hx
        · exact absurd hxnames hnew
        · exact hfirst q hq x (List.mem_cons_of_mem p hx) hxnames hlead
  -- the other productions are in canonical form already
  obtain ⟨hcanonical_l, hcanonical⟩ := List.forall_mem_append.mp h.canonical
  have hcanonical_r := (List.forall_mem_cons.mp hcanonical).2
  have hmap : l ++ (p.factor T ++ r) =
      (l ++ (p.splitShared p.shared T).1 :: (p.splitShared p.shared T).2 :: r).map
        Production.toCanonical := by
    rw [List.map_append, List.map_cons, List.map_cons, Grammar.map_toCanonical hcanonical_l,
      Grammar.map_toCanonical hcanonical_r]
    rfl
  have hnames : namesOf (l ++ p :: r) ⊆ namesOf (l ++ (p.factor T ++ r)) := by
    intro m hm
    simp only [namesOf, List.map_append, List.map_cons, List.mem_append, List.mem_cons,
      Production.factor, Production.toCanonical, Production.splitShared] at hm ⊢
    tauto
  refine ⟨List.Subset.trans h.names_subset hnames, ?_, ?_⟩
  · rw [hmap]
    exact LeadsForward.toCanonical_iff.mpr hsplit
  · rw [hmap]
    exact Grammar.canonicalForm_toCanonical _

end FactoredForward

namespace Grammar

variable {g : Grammar} {n : Normalization} {fuel : Nat}

lemma factoredForward_leftFactor {names : List String}
    (h : FactoredForward names g.productions) :
    FactoredForward names g.leftFactor.grammar.productions :=
  leftFactor_induction (fun _ _ _ _ hps hshared hT => hps.factor hshared hT) h

/-- If a pass changes nothing, there is only this one. -/
lemma leftFactor_eq_self (h : (FactoringPass.ofProductions g.productions).changed = false) :
    g.leftFactor.grammar = g := by
  have hps : (FactoringPass.ofProductions g.productions).visited.reverse = g.productions := by
    rcases FactoringPass.ofProductions_cases g.productions with ⟨-, hps⟩ | ⟨hchanged, -⟩
    · exact hps
    · rw [h] at hchanged
      exact absurd hchanged (by simp)
  rw [leftFactor, Factored.iterate]
  simp only [h, Bool.false_eq_true, if_false, hps]

lemma factoredForward_normalize (hg : g.nonterminals.Nodup) (h : g.normalize fuel = some n) :
    FactoredForward g.nonterminals n.grammar.productions := by
  obtain ⟨t, ht, rfl⟩ := Option.map_eq_some_iff.mp h
  obtain ⟨hforward, hcanonical⟩ := leadsForward_removeLeftRecursion hg ht
  exact factoredForward_leftFactor
    ⟨(keepsLanguages_removeLeftRecursion hg ht).names_subset, hforward, hcanonical⟩

/-- **Normalization is idempotent exactly when all new nonterminals lead forward.**  So is the
removal of left recursion, and left factoring always is. -/
theorem normalize_again_iff (hg : g.WellFormed) (h : g.normalize fuel = some n) :
    ((∃ fuel t, n.recursionFree.grammar.removeLeftRecursion fuel = some t ∧
        t.grammar = n.recursionFree.grammar) ↔
      LeadsForward (· ∉ g.nonterminals) n.recursionFree.grammar.productions) ∧
    ((∃ fuel n', n.grammar.normalize fuel = some n' ∧ n'.grammar = n.grammar) ↔
      LeadsForward (· ∉ g.nonterminals) n.grammar.productions) ∧
    n.grammar.leftFactor.grammar = n.grammar := by
  have hnormal := factoredForward_normalize hg.nodup h
  have hnodup := (keepsLanguages_normalize hg.nodup h).nodup
  obtain ⟨t, ht, rfl⟩ := Option.map_eq_some_iff.mp h
  have hself : t.grammar.leftFactor.grammar.leftFactor.grammar = t.grammar.leftFactor.grammar :=
    leftFactor_eq_self (changed_leftFactor t.grammar)
  refine ⟨?_, ?_, hself⟩
  · obtain ⟨hforward, hcanonical⟩ := leadsForward_removeLeftRecursion hg.nodup ht
    rw [removeLeftRecursion_eq_self_iff (keepsLanguages_removeLeftRecursion hg.nodup ht).nodup
      hcanonical]
    exact hforward.forall_iff
  · rw [← hnormal.forward.forall_iff]
    constructor
    · rintro ⟨fuel, n', hn', heq⟩
      have hagain := (factoredForward_normalize hnodup hn').forward
      rw [heq] at hagain
      exact hagain.mono fun p hp _ => List.mem_map_of_mem hp
    · intro hforward
      obtain ⟨fuel, t', ht', heq⟩ :=
        (removeLeftRecursion_eq_self_iff hnodup hnormal.canonical).mpr hforward
      refine ⟨fuel, _, Option.map_eq_some_iff.mpr ⟨t', ht', rfl⟩, ?_⟩
      show t'.grammar.leftFactor.grammar = _
      rw [heq]
      exact hself

/-- For instance, nothing changes when the list of identifiers is normalized again. -/
theorem normalize_again_identifierList : ∃ n, identifierList.normalize 3 = some n ∧
    (∃ fuel t, n.recursionFree.grammar.removeLeftRecursion fuel = some t ∧
      t.grammar = n.recursionFree.grammar) ∧
    (∃ fuel n', n.grammar.normalize fuel = some n' ∧ n'.grammar = n.grammar) ∧
    n.grammar.leftFactor.grammar = n.grammar := by
  let ps : List Production := [
    ⟨"list", [[.terminal .identifier, .nonterminal "list_tail1"]]⟩,
    ⟨"list_tail1", [[], [.terminal .comma, .terminal .identifier, .nonterminal "list_tail1"]]⟩]
  have hps : LeadsForward (· ∉ identifierList.nonterminals) ps := by
    constructor
    · unfold Production.LeadsTo
      decide
    · unfold Production.LeadsTo
      decide
  have h : (identifierList.normalize 3).map
      (fun n => (n.recursionFree.grammar.productions, n.grammar.productions)) = some (ps, ps) := by
    decide +kernel
  obtain ⟨n, hn, heq⟩ := Option.map_eq_some_iff.mp h
  obtain ⟨hfree, hnormal⟩ := Prod.mk.inj heq
  obtain ⟨hremoval, hnormalization, hfactoring⟩ := normalize_again_iff wellFormed_identifierList hn
  exact ⟨n, hn, hremoval.mpr (hfree ▸ hps), hnormalization.mpr (hnormal ▸ hps), hfactoring⟩

end Grammar

/-- A list of words, which are defined before it. -/
def wordList : Grammar where
  productions := [⟨"word", [[.terminal .comma]]⟩,
    ⟨"list", [[.terminal .star], [.nonterminal "list", .nonterminal "word"]]⟩]
  start := "word"

/-- **Another normalization can change a normal form.**  The new nonterminal for the rest of a list
begins with a word, which is replaced only the second time. -/
theorem Grammar.normalize_again_wordList :
    Grammar.define [.rule "word" [.terminal .comma],
      .rule "list" [.nonterminal "list", .nonterminal "word"],
      .rule "list" [.terminal .star]] = .ok wordList ∧
    ∃ n t' n', wordList.normalize 3 = some n ∧
      n.recursionFree.grammar.removeLeftRecursion 5 = some t' ∧
      t'.grammar ≠ n.recursionFree.grammar ∧
      n.grammar.normalize 5 = some n' ∧ n'.grammar ≠ n.grammar := by
  refine ⟨by decide +kernel, ?_⟩
  have h : ((wordList.normalize 3).any fun n =>
      ((n.recursionFree.grammar.removeLeftRecursion 5).any
        (·.grammar ≠ n.recursionFree.grammar)) &&
      ((n.grammar.normalize 5).any (·.grammar ≠ n.grammar))) = true := by decide +kernel
  obtain ⟨n, hn, h⟩ := (Option.any_eq_true _ _).mp h
  obtain ⟨hremoval, hnormalization⟩ := Bool.and_eq_true_iff.mp h
  obtain ⟨t', ht', hne⟩ := (Option.any_eq_true _ _).mp hremoval
  obtain ⟨n', hn', hne'⟩ := (Option.any_eq_true _ _).mp hnormalization
  exact ⟨n, t', n', hn, ht', of_decide_eq_true hne, hn', of_decide_eq_true hne'⟩

end LL1
