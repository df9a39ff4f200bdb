/-
# What left factoring adds

Passes are made until one changes nothing, and a pass visits all productions, those included that it
has added itself.  Both loops come to an end: an added production is left as it is, and every pass
but the last leaves fewer clashes.

A common phrase is taken out of at least two alternatives, and it stays in one.  So the symbols
that there are afterwards, together with at least one copy of the phrase, are those that there were
before and the new nonterminal: symbols do not become more.  The new nonterminal occurs once, behind
the phrase.  As long as it occurs once it is in no common phrase, so it is moved about but neither
doubled nor lost.  And since each of the new nonterminals takes up a symbol of its own, there are
no more of them than symbols in the given grammar.
-/
import LL1.Proofs.Transformation

namespace LL1

/-! ### The loops -/

/-- There is a common phrase if and only if two alternatives clash. -/
lemma Production.shared_eq_nil_iff {p : Production} : p.shared = [] ↔ p.clashes = 0 := by
  rw [clashes, countClashes_eq_zero_iff, List.pairwise_iff_forall_sublist]
  constructor
  · intro hnil a b hsub
    by_contra hclash
    obtain ⟨s, ha, hb⟩ : ∃ s, a.head? = some s ∧ b.head? = some s := by
      obtain ⟨hsome, heq⟩ : a.head?.isSome = true ∧ a.head? = b.head? := by
        simpa [clash] using hclash
      obtain ⟨s, hs⟩ := Option.isSome_iff_exists.mp hsome
      exact ⟨s, hs, heq ▸ hs⟩
    have hprefix {c : Alternative} (hc : c.head? = some s) : [s] <+: c := by
      obtain ⟨d, rfl⟩ := List.head?_eq_some_iff.mp hc
      exact ⟨d, rfl⟩
    have hle := (longest_longestShared [] p.alternatives).le [s]
      ⟨a, b, hsub, hprefix ha, hprefix hb⟩
    change [s].length ≤ p.shared.length at hle
    rw [hnil] at hle
    exact absurd hle (by simp)
  · intro hnone
    by_contra hshared
    obtain ⟨a, b, hsub, ha, hb⟩ := p.isShared_shared hshared
    obtain ⟨s, c, hs⟩ := List.exists_cons_of_ne_nil hshared
    rw [hs] at ha hb
    obtain ⟨d, rfl⟩ := ha
    obtain ⟨e, rfl⟩ := hb
    exact absurd (hnone hsub) (by simp [clash])

namespace FactoringPass

/-- One turn of the loop of a pass: a production is visited, and an added one is to be visited
next. -/
def turn (f : FactoringPass) (p : Production) (later : List Production) :
    FactoringPass × List Production :=
  if p.shared.isEmpty then ({ f with visited := p :: f.visited }, later)
  else
    let rest := freshName (mentionedNames (f.visited ++ p :: later)) p.name "rest"
    let (head, tail) := p.splitShared p.shared rest
    let told := .factored p.shared p.name rest :: head.duplicateNotices ++ tail.duplicateNotices
    (⟨head.toCanonical :: f.visited, told.reverse ++ f.notices, true⟩, tail.toCanonical :: later)

/-- Turns are made until there is nothing left to be visited. -/
inductive Loops : FactoringPass → List Production → FactoringPass → Prop
  | done {f : FactoringPass} : Loops f [] f
  | turn {f f' : FactoringPass} {p : Production} {later : List Production} :
      Loops (f.turn p later).1 (f.turn p later).2 f' → Loops f (p :: later) f'

/-- The loop of a pass ends, although productions are added to those that it has to visit. -/
lemma loops_visit (f : FactoringPass) (later : List Production) :
    Loops f later (visit f later) := by
  induction later generalizing f with
  | nil => exact .done
  | cons p later ih =>
    refine .turn ?_
    rw [turn, visit]
    split
    · exact ih _
    · -- the added production comes next, and there is nothing to be taken out of it
      have hclashes (T : String) : (p.splitShared p.shared T).2.toCanonical.clashes = 0 := by
        have hle := countClashes_canonical_le (p.splitShared p.shared T).2.alternatives
        have hnone := Production.clashes_splitShared_snd (p := p) (T := T)
        change (p.splitShared p.shared T).2.toCanonical.clashes ≤
          (p.splitShared p.shared T).2.clashes at hle
        omega
      refine .turn ?_
      rw [turn, Production.shared_eq_nil_iff.mpr (hclashes _)]
      exact ih _

/-- A pass without a change has found nothing to be taken out. -/
lemma shared_eq_nil_of_visit {f : FactoringPass} {later : List Production}
    (h : (visit f later).changed = false) :
    f.changed = false ∧ ∀ p ∈ later, p.shared = [] := by
  induction later generalizing f with
  | nil => exact ⟨h, by simp⟩
  | cons p later ih =>
    rcases visit_cons f p later with ⟨hshared, hvisit⟩ | ⟨-, T, told, -, hvisit⟩
    · rw [hvisit] at h
      exact ⟨(ih h).1, List.forall_mem_cons.mpr ⟨hshared, (ih h).2⟩⟩
    · rw [hvisit] at h
      exact absurd (ih h).1 (by simp)

end FactoringPass

namespace Factored

/-- What has been done after a further pass. -/
def next (f : Factored) (pass : FactoringPass) : Factored where
  grammar := { f.grammar with productions := pass.visited.reverse }
  notices := f.notices ++ pass.notices.reverse
  passes := f.passes + 1

/-- Passes are made until one changes nothing, without any limit to their number. -/
inductive Settles : Factored → Factored → Prop
  | last {f : Factored} {pass : FactoringPass} :
      FactoringPass.Loops ⟨[], [], false⟩ f.grammar.productions pass → pass.changed = false →
      Settles f (f.next pass)
  | again {f f' : Factored} {pass : FactoringPass} :
      FactoringPass.Loops ⟨[], [], false⟩ f.grammar.productions pass → pass.changed = true →
      Settles (f.next pass) f' → Settles f f'

/-- With more passes than clashes, the passes come to an end by themselves. -/
lemma settles_iterate {fuel : Nat} {f : Factored}
    (hfuel : Production.totalClashes f.grammar.productions < fuel) :
    Settles f (iterate fuel f) := by
  induction fuel generalizing f with
  | zero => omega
  | succ fuel ih =>
    have hloops := FactoringPass.loops_visit ⟨[], [], false⟩ f.grammar.productions
    rw [iterate]
    rcases FactoringPass.ofProductions_cases f.grammar.productions with ⟨h, -⟩ | ⟨h, hlt⟩
    · rw [h, if_neg Bool.false_ne_true]
      exact .last hloops h
    · rw [if_pos h]
      refine .again hloops h (ih ?_)
      change Production.totalClashes (FactoringPass.ofProductions _).visited.reverse < fuel
      omega

end Factored

namespace Grammar

variable {g : Grammar}

/-- Left factoring comes to an end by itself, not because of a limit to the number of passes. -/
lemma settles_leftFactor (g : Grammar) : Factored.Settles ⟨⟨g, []⟩, 0⟩ g.leftFactor := by
  refine Factored.settles_iterate ?_
  rw [Production.totalClashes, List.sum_eq_foldr, List.foldr_map]
  exact Nat.lt_succ_self _

/-- Of two different alternatives of a left-factored grammar, only one can be empty, and if none is
they begin differently. -/
lemma pairwise_head?_leftFactor (hg : g.WellFormed) :
    ∀ p ∈ g.leftFactor.grammar.productions,
      p.alternatives.Pairwise fun a b => a.head? ≠ b.head? := by
  intro p hp
  have hshared := (FactoringPass.shared_eq_nil_of_visit (changed_leftFactor g)).2 p hp
  have hclash := countClashes_eq_zero_iff.mp (Production.shared_eq_nil_iff.mp hshared)
  have hnodup : p.alternatives.Nodup := ((transformsTo_leftFactor hg).canonical p hp).nodup
  refine (hclash.and hnodup).imp ?_
  rintro a b ⟨hab, hne⟩ heq
  cases ha : a.head? with
  | none =>
    rw [ha] at heq
    rw [List.head?_eq_none_iff.mp ha, List.head?_eq_none_iff.mp heq.symm] at hne
    exact hne rfl
  | some s =>
    rw [clash, ← heq, ha] at hab
    exact absurd hab (by simp)

end Grammar

/-! ### Symbols -/

/-- All occurrences of symbols in the alternatives of productions. -/
def symbolsOf (ps : List Production) : List (Symbol String) := ps.flatMap (·.alternatives.flatten)

/-- All occurrences of symbols in the alternatives of a grammar. -/
def Grammar.symbols (g : Grammar) : List (Symbol String) := symbolsOf g.productions

lemma nonterminal_not_mem_symbolsOf {ps : List Production} {T : String}
    (hT : T ∉ mentionedNames ps) : .nonterminal T ∉ symbolsOf ps := by
  intro hmem
  obtain ⟨p, hp, hmem⟩ := List.mem_flatMap.mp hmem
  obtain ⟨a, ha, hTa⟩ := List.mem_flatten.mp hmem
  exact nonterminal_not_mem_of_fresh hT hp ha hTa

/-- A list without repetitions has the elements of its canonical form. -/
lemma canonical_perm {α : Type} [Ord α] [Std.TransOrd α] [Std.LawfulEqOrd α] {as : List α}
    (h : as.Nodup) : (canonical as).Perm as :=
  (List.perm_ext_iff_of_nodup (increasing_canonical as).nodup h).mpr fun _ => mem_canonical

/-- A phrase in front of each of the lists. -/
lemma flatten_map_append_perm {α : Type} (c : List α) (as : List (List α)) :
    (as.map (c ++ ·)).flatten.Perm ((List.replicate as.length c).flatten ++ as.flatten) := by
  induction as with
  | nil => exact .refl _
  | cons a as ih =>
    rw [List.map_cons, List.flatten_cons, List.length_cons, List.replicate_succ, List.flatten_cons,
      List.flatten_cons, List.append_assoc, List.append_assoc]
    refine List.Perm.append_left c ((List.Perm.append_left a ih).trans ?_)
    rw [← List.append_assoc, ← List.append_assoc]
    exact List.perm_append_comm.append_right _

namespace Production

variable {p : Production} {T : String}

/-- What the common phrase is followed by, with the phrase in front of it. -/
lemma map_append_splitShared_snd (p : Production) (T : String) :
    (p.splitShared p.shared T).2.alternatives.map (p.shared ++ ·) = p.sharing := by
  rw [alternatives_splitShared_snd, List.map_map]
  refine (List.map_congr_left fun a ha => ?_).trans (List.map_id _)
  obtain ⟨d, rfl⟩ := prefix_of_mem_sharing ha
  simp

/-- Neither of the two productions has an alternative twice. -/
lemma nodup_alternatives_splitShared (hp : p.alternatives.Nodup)
    (hT : ∀ a ∈ p.alternatives, .nonterminal T ∉ a) :
    (p.splitShared p.shared T).1.alternatives.Nodup ∧
      (p.splitShared p.shared T).2.alternatives.Nodup := by
  constructor
  · rw [alternatives_splitShared_fst]
    refine List.nodup_append_comm.mp (List.nodup_cons.mpr ⟨fun hmem => ?_, hp.filter _⟩)
    exact hT _ (List.mem_filter.mp hmem).1 (by simp)
  · have hsharing : p.sharing.Nodup := hp.filter _
    rw [← map_append_splitShared_snd p T] at hsharing
    exact hsharing.of_map

/-- **The symbols that factoring leaves.**  With at least one copy of the common phrase they are the
symbols that were there and the new nonterminal. -/
lemma exists_perm_factor (hshared : p.shared ≠ []) (hp : p.alternatives.Nodup)
    (hT : ∀ a ∈ p.alternatives, .nonterminal T ∉ a) :
    ∃ k, (symbolsOf (p.factor T) ++ (List.replicate (k + 1) p.shared).flatten).Perm
      (.nonterminal T :: p.alternatives.flatten) := by
  obtain ⟨hhead, htail⟩ := nodup_alternatives_splitShared hp hT
  set others := (p.without p.shared).alternatives
  set rests := (p.splitShared p.shared T).2.alternatives
  -- the phrase was there at least twice
  obtain ⟨k, hk⟩ : ∃ k, rests.length = k + 2 := by
    obtain ⟨a, b, hsub⟩ := exists_pair_sharing hshared
    have hle : 2 ≤ rests.length := by
      simpa [← map_append_splitShared_snd p T] using hsub.length_le
    exact ⟨rests.length - 2, by omega⟩
  have hbefore : p.alternatives.flatten.Perm
      ((List.replicate (k + 2) p.shared).flatten ++ rests.flatten ++ others.flatten) := by
    rw [← hk]
    refine alternatives_perm.flatten.trans ?_
    rw [List.flatten_append, ← map_append_splitShared_snd p T]
    exact (flatten_map_append_perm p.shared rests).append_right _
  have hafter : (symbolsOf (p.factor T)).Perm
      (others.flatten ++ (p.shared ++ [.nonterminal T]) ++ rests.flatten) := by
    have hsymbols : symbolsOf (p.factor T) =
        (canonical (p.splitShared p.shared T).1.alternatives).flatten ++
          (canonical rests).flatten := by
      simp [symbolsOf, factor, toCanonical, rests]
    rw [hsymbols]
    refine ((canonical_perm hhead).flatten.append (canonical_perm htail).flatten).trans ?_
    rw [alternatives_splitShared_fst]
    simp [others]
  refine ⟨k, List.perm_iff_count.mpr fun s => ?_⟩
  have hbefore' := hbefore.count_eq s
  have hafter' := hafter.count_eq s
  simp only [List.replicate_succ, List.flatten_cons, List.count_append, List.count_cons,
    List.count_nil] at hbefore' hafter' ⊢
  omega

/-- The common phrase is still there once. -/
lemma count_shared_le (p : Production) (T : String) (l r : List Production)
    (s : Symbol String) : p.shared.count s ≤ (symbolsOf (l ++ (p.factor T ++ r))).count s := by
  have hphrase : (p.shared ++ [.nonterminal T]) ∈
      (p.splitShared p.shared T).1.toCanonical.alternatives :=
    mem_canonical.mpr (mem_splitShared_fst.mpr (.inr rfl))
  have hle := (List.sublist_flatten_of_mem hphrase).count_le s
  simp only [symbolsOf, factor, List.flatMap_append, List.flatMap_cons,
    List.count_append] at hle ⊢
  omega

end Production

/-! ### What factoring preserves -/

/-- Productions that have come from others by factoring: there are at most `n` symbols in them, and
those that are not among the given names are referred to once. -/
structure Economical (names : List String) (n : Nat) (ps : List Production) : Prop where
  canonical : CanonicalForm ps
  length_le : (symbolsOf ps).length ≤ n
  count_eq : ∀ m ∈ namesOf ps, m ∉ names → (symbolsOf ps).count (.nonterminal m) = 1

lemma Economical.factor {names : List String} {n : Nat} {l r : List Production} {p : Production}
    {T : String} (h : Economical names n (l ++ p :: r)) (hshared : p.shared ≠ [])
    (hT : T ∉ mentionedNames (l ++ p :: r)) : Economical names n (l ++ (p.factor T ++ r)) := by
  have hmem : p ∈ l ++ p :: r := by simp
  obtain ⟨k, hperm⟩ := Production.exists_perm_factor hshared (h.canonical p hmem).nodup
    fun a ha => nonterminal_not_mem_of_fresh hT hmem ha
  -- the symbols of the other productions stay
  have hsymbols : (symbolsOf (l ++ (p.factor T ++ r)) ++
      (List.replicate (k + 1) p.shared).flatten).Perm
        (.nonterminal T :: symbolsOf (l ++ p :: r)) := by
    refine List.perm_iff_count.mpr fun s => ?_
    have hcount := hperm.count_eq s
    simp only [symbolsOf, List.flatMap_append, List.flatMap_cons, List.count_append,
      List.count_cons] at hcount ⊢
    omega
  refine ⟨?_, ?_, fun m hm hnew => ?_⟩
  · obtain ⟨hl, hpr⟩ := List.forall_mem_append.mp h.canonical
    refine List.forall_mem_append.mpr ⟨hl, List.forall_mem_append.mpr ⟨?_, ?_⟩⟩
    · exact Grammar.canonicalForm_toCanonical
        [(p.splitShared p.shared T).1, (p.splitShared p.shared T).2]
    · exact (List.forall_mem_cons.mp hpr).2
  · have hlength := hsymbols.length_eq
    have hpos : 0 < p.shared.length := List.length_pos_iff.mpr hshared
    rw [List.replicate_succ, List.flatten_cons, List.length_append, List.length_append,
      List.length_cons] at hlength
    have := h.length_le
    omega
  · -- before, the nonterminal has been referred to once, or it is the new one
    have hbefore : (.nonterminal T :: symbolsOf (l ++ p :: r)).count (.nonterminal m) = 1 := by
      have hfresh : .nonterminal T ∉ symbolsOf (l ++ p :: r) := nonterminal_not_mem_symbolsOf hT
      by_cases hmT : m = T
      · rw [hmT, List.count_cons_self, List.count_eq_zero_of_not_mem hfresh]
      · have hold : m ∈ namesOf (l ++ p :: r) := by
          simp only [namesOf, Production.factor, Production.toCanonical, Production.splitShared,
            List.map_append, List.map_cons, List.map_nil, List.mem_append, List.mem_cons,
            List.not_mem_nil] at hm ⊢
          tauto
        rw [List.count_cons_of_ne (by simpa using Ne.symm hmT)]
        exact h.count_eq m hold hnew
    -- so it is not in the common phrase, which is still there once and was there twice
    have hafter := p.count_shared_le T l r (.nonterminal m)
    have hcount := hsymbols.count_eq (.nonterminal m)
    rw [hbefore, List.replicate_succ, List.flatten_cons, List.count_append,
      List.count_append] at hcount
    by_cases hzero : p.shared.count (.nonterminal m) = 0
    · have hcopies : ((List.replicate k p.shared).flatten).count (.nonterminal m) = 0 := by
        rw [List.count_flatten, List.map_replicate, hzero]
        simp
      omega
    · omega

namespace Grammar

variable {g : Grammar}

lemma economical_leftFactor (hg : g.WellFormed) :
    Economical g.nonterminals g.symbols.length g.leftFactor.grammar.productions := by
  refine leftFactor_induction (motive := Economical g.nonterminals g.symbols.length) ?_ ?_
  · exact fun _ _ _ _ hps hshared hT => hps.factor hshared hT
  · exact ⟨hg.increasing, Nat.le_refl _, fun m hm hnew => absurd hm hnew⟩

/-- **Left factoring comes to an end, and it adds little.**  The loops of a reachable grammar, for
instance one that has been freed from left recursion, end by themselves.  Then the alternatives of
every nonterminal begin with different symbols, and at most one of them is empty.  There are no more
new nonterminals than symbols in the given alternatives, and each of them occurs once in those that
result. -/
theorem leftFactor_economical (hg : g.Reachable) :
    Factored.Settles ⟨⟨g, []⟩, 0⟩ g.leftFactor ∧
    (∀ p ∈ g.leftFactor.grammar.productions,
      p.alternatives.Pairwise fun a b => a.head? ≠ b.head?) ∧
    (g.leftFactor.grammar.nonterminals.diff g.nonterminals).length ≤ g.symbols.length ∧
    ∀ n ∈ g.leftFactor.grammar.nonterminals.diff g.nonterminals,
      g.leftFactor.grammar.symbols.count (.nonterminal n) = 1 := by
  have hwf := hg.wellFormed
  have heconomical := economical_leftFactor hwf
  have hnodup : g.leftFactor.grammar.nonterminals.Nodup := (transformsTo_leftFactor hwf).keeps.nodup
  have hcount : ∀ n ∈ g.leftFactor.grammar.nonterminals.diff g.nonterminals,
      g.leftFactor.grammar.symbols.count (.nonterminal n) = 1 := by
    intro n hn
    obtain ⟨hmem, hnew⟩ := hnodup.mem_sdiff_iff.mp hn
    exact heconomical.count_eq n hmem hnew
  refine ⟨settles_leftFactor g, pairwise_head?_leftFactor hwf, ?_, hcount⟩
  -- the new nonterminals are among the symbols that result
  have hadded : ((g.leftFactor.grammar.nonterminals.diff g.nonterminals).map
      Symbol.nonterminal).Nodup :=
    hnodup.diff.map fun _ _ => Symbol.nonterminal.inj
  have hsubset : (g.leftFactor.grammar.nonterminals.diff g.nonterminals).map Symbol.nonterminal ⊆
      g.leftFactor.grammar.symbols := by
    intro s hs
    obtain ⟨n, hn, rfl⟩ := List.mem_map.mp hs
    have hone := hcount n hn
    exact List.count_pos_iff.mp (by omega)
  calc (g.leftFactor.grammar.nonterminals.diff g.nonterminals).length
      = ((g.leftFactor.grammar.nonterminals.diff g.nonterminals).map Symbol.nonterminal).length :=
        (List.length_map _).symm
    _ ≤ g.leftFactor.grammar.symbols.length := (hadded.subperm hsubset).length_le
    _ ≤ g.symbols.length := heconomical.length_le

end Grammar

/-- A bracket with a star behind it, or one that is closed at once, with a comma or a semicolon
behind it. -/
def bracketedItem : Grammar where
  productions := [⟨"item", [[.terminal .parenOpen, .terminal .star],
    [.terminal .parenOpen, .terminal .parenClose, .terminal .comma],
    [.terminal .parenOpen, .terminal .parenClose, .terminal .semicolon]]⟩]
  start := "item"

lemma reachable_bracketedItem : bracketedItem.Reachable := by
  have h : Grammar.define [.rule "item" [.terminal .parenOpen, .terminal .star],
      .rule "item" [.terminal .parenOpen, .terminal .parenClose, .terminal .comma],
      .rule "item" [.terminal .parenOpen, .terminal .parenClose, .terminal .semicolon]] =
      .ok bracketedItem := by decide +kernel
  exact Grammar.reachable_of_define h

/-- Both brackets are taken out of two alternatives first, and then the opening one out of what has
come of them and the third. -/
theorem Grammar.leftFactor_economical_bracketedItem : ∃ t,
    bracketedItem.removeLeftRecursion 3 = some t ∧ t.grammar.Reachable ∧
    Factored.Settles ⟨⟨t.grammar, []⟩, 0⟩ t.grammar.leftFactor ∧
    t.grammar.leftFactor.grammar.nonterminals = ["item", "item_rest2", "item_rest1"] ∧
    (∀ p ∈ t.grammar.leftFactor.grammar.productions,
      p.alternatives.Pairwise fun a b => a.head? ≠ b.head?) ∧
    2 ≤ t.grammar.symbols.length ∧
    t.grammar.leftFactor.grammar.symbols.count (.nonterminal "item_rest1") = 1 ∧
    t.grammar.leftFactor.grammar.symbols.count (.nonterminal "item_rest2") = 1 := by
  have h : (bracketedItem.removeLeftRecursion 3).map (fun t =>
      (t.grammar.leftFactor.grammar.nonterminals, t.grammar.nonterminals)) =
      some (["item", "item_rest2", "item_rest1"], ["item"]) := by decide +kernel
  obtain ⟨t, ht, heq⟩ := Option.map_eq_some_iff.mp h
  obtain ⟨hfactored, hgiven⟩ := Prod.mk.inj heq
  have hreachable : t.grammar.Reachable := reachable_bracketedItem.removeLeftRecursion ht
  obtain ⟨hsettles, hdifferent, hfew, hcount⟩ := leftFactor_economical hreachable
  have hadded : t.grammar.leftFactor.grammar.nonterminals.diff t.grammar.nonterminals =
      ["item_rest2", "item_rest1"] := by
    rw [hfactored, hgiven]
    rfl
  rw [hadded] at hfew hcount
  exact ⟨t, ht, hreachable, hsettles, hfactored, hdifferent, hfew,
    hcount "item_rest1" (by simp), hcount "item_rest2" (by simp)⟩

end LL1
