/-
# No left recursion is left

In a grammar without empty alternatives whose nonterminals do not derive themselves, left recursion
is removed for good: in the outcome no nonterminal derives a phrase that begins with it, also if
symbols before it have to be erased.  The nonterminals that were given begin with others of them
only, which are treated later.  A new nonterminal repeats phrases that may begin with new ones, too.
But these are older, and behind them stands something that cannot be erased; for otherwise the
nonterminal from which the new one was split off would have derived itself.
-/
import LL1.Proofs.Transformation

namespace LL1

/-! ### What comes to the front of a phrase -/

namespace RuleSet

variable {ν : Type} {P : RuleSet ν} {m n : ν} {p q : Phrase ν}

/-- A nonterminal at the front of a derived phrase comes from a left corner, behind symbols that are
erased. -/
lemma Derives.exists_leftCorner (h : P.Derives p (.nonterminal m :: q)) :
    ∃ u n v, p = u ++ .nonterminal n :: v ∧ P.Erasable u ∧
      Relation.ReflTransGen P.LeftCorner m n := by
  induction h using Relation.ReflTransGen.head_induction_on with
  | refl => exact ⟨[], m, q, rfl, .nil, .refl⟩
  | head hstep _ ih =>
    obtain ⟨u, n, v, rfl, hu, hmn⟩ := ih
    rcases hstep.cases_of_mem with ⟨v', rfl, -⟩ | ⟨x, k, y, l, r, rfl, hk, rfl, rfl⟩ |
      ⟨u', rfl, hu'⟩
    · exact ⟨u, n, v', rfl, hu, hmn⟩
    · obtain ⟨hx, hl⟩ := hu.of_append
      exact ⟨x, k, y, rfl, hx, hmn.tail ⟨l, r, hk, hl⟩⟩
    · exact ⟨u', n, v, rfl, .of_rewrites hu' hu, hmn⟩

/-- **A nonterminal that comes to the front of another one** is one of its left corners, or a left
corner of these. -/
theorem transGen_leftCorner
    (h : Relation.TransGen P.Rewrites [.nonterminal n] (.nonterminal m :: q)) :
    Relation.TransGen P.LeftCorner m n := by
  obtain ⟨a, ha, hd⟩ := transGen_rewrites_iff.mp h
  obtain ⟨u, k, v, rfl, hu, hmk⟩ := hd.exists_leftCorner
  exact .tail' hmk ⟨u, v, ha, hu⟩

/-- Where nonterminals lead on only finitely often, none comes to the front of itself. -/
lemma not_transGen_rewrites (h : WellFounded P.LeftCorner) :
    ¬ Relation.TransGen P.Rewrites [.nonterminal n] (.nonterminal n :: q) :=
  fun hd => h.transGen.irrefl.irrefl n (transGen_leftCorner hd)

end RuleSet

/-- The phrase without certain nonterminals. -/
def Phrase.without (ns : List String) (p : Phrase String) : Phrase String :=
  p.filter fun s => s ∉ ns.map .nonterminal

namespace Phrase

variable {ns : List String} {n : String} {p q : Phrase String}

lemma without_append : without ns (p ++ q) = without ns p ++ without ns q :=
  List.filter_append ..

lemma without_cons_of_not_mem (hn : n ∉ ns) :
    without ns (.nonterminal n :: p) = .nonterminal n :: without ns p :=
  List.filter_cons_of_pos (by simpa using hn)

lemma without_eq_nil_iff : without ns p = [] ↔ ∀ s ∈ p, s ∈ ns.map .nonterminal := by
  simp only [without, List.filter_eq_nil_iff, decide_eq_true_eq, not_not]

/-- A nonterminal that does not occur need not be taken out. -/
lemma without_cons_eq (hn : .nonterminal n ∉ p) : without (n :: ns) p = without ns p := by
  refine List.filter_congr fun s hs => ?_
  have hne : s ≠ .nonterminal n := fun h => hn (h ▸ hs)
  simp [hne]

end Phrase

namespace Elimination

variable {e e' : Elimination} {p q : Production} {later : List Production} {names : List String}
  {P : RuleSet String} {a : Alternative} {n : String}

/-- The settled nonterminals that are not among the given ones. -/
def tails (names : List String) (settled : List Production) : List String :=
  (namesOf settled).filter (· ∉ names)

lemma mem_tails {settled : List Production} :
    n ∈ tails names settled ↔ n ∈ namesOf settled ∧ n ∉ names := by
  simp [tails]

lemma tails_cons_of_mem {settled : List Production} (hp : p.name ∈ names) :
    tails names (p :: settled) = tails names settled := by
  simp [tails, hp]

lemma tails_cons_of_not_mem {settled : List Production} (hp : p.name ∉ names) :
    tails names (p :: settled) = p.name :: tails names settled := by
  simp [tails, hp]

/-- The state while a grammar with the rules `P` is being treated, none of which is empty.  When the
new nonterminals are taken out of an alternative of a given one, what is left is derived by `P`.
A new nonterminal repeats phrases of which something is left, and it does not occur in the
alternatives of older ones. -/
structure Traced (P : RuleSet String) (names : List String) (e : Elimination) : Prop where
  ordered : e.Ordered names
  derives : ∀ p ∈ e.productions, p.name ∈ names → ∀ a ∈ p.alternatives,
    Relation.TransGen P.Rewrites [.nonterminal p.name]
      (Phrase.without (tails names e.settled) a)
  repeats : ∀ p ∈ e.settled, p.name ∉ names → ∀ a ∈ p.alternatives,
    RuleSet.Repeats (fun c => .nonterminal p.name ∉ c ∧
      Phrase.without (tails names e.settled) c ≠ []) p.name a
  older : e.settled.Pairwise fun p q => p.name ∉ names → q.name ∉ names →
    ∀ a ∈ q.alternatives, .nonterminal p.name ∉ a

lemma traced_ofProductions {ps : List Production} (hps : (namesOf ps).Nodup)
    (hne : ∀ p ∈ ps, [] ∉ p.alternatives) :
    (ofProductions ps).Traced (ruleSetOf ps) (namesOf ps) where
  ordered := ordered_ofProductions hps hne
  derives p hp _ a ha := by
    have hkept : Phrase.without [] a = a := by simp [Phrase.without]
    refine RuleSet.transGen_rewrites_iff.mpr ⟨a, ⟨p, hp, rfl, ha⟩, ?_⟩
    exact hkept.symm ▸ .refl
  repeats _ hp := absurd hp List.not_mem_nil
  older := List.Pairwise.nil

/-- A leading nonterminal is replaced by one of its alternatives, which is derived from it. -/
lemma Traced.replace {rest : Phrase String} {others : List Alternative} (h : e.Traced P names)
    (hordered : e'.Ordered names) (hp : e.pending = p :: later) (hq : q ∈ e.settled)
    (hperm : p.alternatives.Perm ((.nonterminal q.name :: rest) :: others))
    (hsettled : e'.settled = e.settled)
    (hpending : e'.pending = Elimination.replace p q rest others :: later) :
    e'.Traced P names := by
  have hmem : p ∈ e.productions := mem_productions_of_pending hp
  have hname : p.name ∈ names := h.ordered.pending_mem p (by simp [hp])
  have halternative : .nonterminal q.name :: rest ∈ p.alternatives :=
    hperm.mem_iff.mpr List.mem_cons_self
  have hqname : q.name ∈ names :=
    (h.ordered.solid p hmem hname _ halternative).2 _ (List.mem_map_of_mem hq) rfl
  refine ⟨hordered, fun p' hp' hn a ha => ?_, hsettled ▸ h.repeats, hsettled ▸ h.older⟩
  rw [hsettled]
  rcases eq_or_mem_of_replace hp hsettled hpending hp' with rfl | hp'
  · rw [Elimination.replace, List.mem_append, List.mem_map] at ha
    rcases ha with ha | ⟨b, hb, rfl⟩
    · exact h.derives p hmem hname a (hperm.mem_iff.mpr (List.mem_cons_of_mem _ ha))
    · have hlead := h.derives p hmem hname _ halternative
      rw [Phrase.without_cons_of_not_mem fun hq => (mem_tails.mp hq).2 hqname] at hlead
      have hb := h.derives q (mem_productions_of_settled hq) hqname b hb
      rw [Phrase.without_append]
      exact hlead.trans (hb.lift (· ++ _) fun _ _ => RuleSet.Rewrites.append_right _)
  · exact h.derives p' hp' hn a ha

/-- Settling a production as it is adds no new nonterminal. -/
lemma Traced.settle (h : e.Traced P names) (hordered : e'.Ordered names)
    (hp : e.pending = p :: later) (hsettled : e'.settled = p :: e.settled)
    (hpending : e'.pending = later) : e'.Traced P names := by
  have hname : p.name ∈ names := h.ordered.pending_mem p (by simp [hp])
  have htails : tails names e'.settled = tails names e.settled := by
    rw [hsettled, tails_cons_of_mem hname]
  refine ⟨hordered, fun p' hp' hn a ha => ?_, ?_, ?_⟩
  · rw [htails]
    exact h.derives p' (mem_productions_of_settle hp hsettled hpending hp') hn a ha
  · rw [htails, hsettled]
    exact List.forall_mem_cons.mpr ⟨fun hnew => absurd hname hnew, h.repeats⟩
  · rw [hsettled]
    exact List.pairwise_cons.mpr ⟨fun _ _ hnew => absurd hname hnew, h.older⟩

/-- A production that is split in two adds its new nonterminal. -/
lemma tails_splitRecursion {settled : List Production} {T : String} (hp : p.name ∈ names)
    (hT : T ∉ names) :
    tails names ((splitRecursion p T).2 :: (splitRecursion p T).1 :: settled) =
      T :: tails names settled := by
  have hhead : (splitRecursion p T).1.name ∈ names := hp
  have hrest : (splitRecursion p T).2.name ∉ names := hT
  rw [tails_cons_of_not_mem hrest, tails_cons_of_mem hhead]
  rfl

/-- With nothing left of a phrase that is to be repeated, the nonterminal of the production would
derive itself. -/
lemma Traced.without_ne_nil (h : e.Traced P names)
    (hcycle : ∀ n, ¬ Relation.TransGen P.Rewrites [.nonterminal n] [.nonterminal n])
    (hp : p ∈ e.productions) (hn : p.name ∈ names) {c : Phrase String} (hc : Recurring p c) :
    Phrase.without (tails names e.settled) c ≠ [] := by
  intro hnil
  have hself := h.derives p hp hn _ hc
  rw [Phrase.without_cons_of_not_mem fun hmem => (mem_tails.mp hmem).2 hn, hnil] at hself
  exact hcycle p.name hself

lemma Traced.derives_of_fresh {T : String} (h : e.Traced P names)
    (hT : T ∉ mentionedNames e.productions) (hp : p ∈ e.productions) (hn : p.name ∈ names)
    (ha : a ∈ p.alternatives) :
    Relation.TransGen P.Rewrites [.nonterminal p.name]
      (Phrase.without (T :: tails names e.settled) a) := by
  rw [Phrase.without_cons_eq (nonterminal_not_mem_of_fresh hT hp ha)]
  exact h.derives p hp hn a ha

/-- A new nonterminal is split off: it occurs in no older alternative, and something is left of what
it repeats. -/
lemma Traced.split {T : String} (h : e.Traced P names) (hordered : e'.Ordered names)
    (hcycle : ∀ n, ¬ Relation.TransGen P.Rewrites [.nonterminal n] [.nonterminal n])
    (hp : e.pending = p :: later)
    (hT : T ∉ mentionedNames (e.settled ++ p :: later))
    (hsettled : e'.settled = (splitRecursion p T).2 :: (splitRecursion p T).1 :: e.settled)
    (hpending : e'.pending = later) : e'.Traced P names := by
  have hfresh : T ∉ mentionedNames e.productions := not_mem_mentionedNames_productions hp hT
  have hmem : p ∈ e.productions := mem_productions_of_pending hp
  have hname : p.name ∈ names := h.ordered.pending_mem p (by simp [hp])
  have hTgiven : T ∉ names := fun hT' =>
    (not_mem_mentionedNames_iff.mp hfresh).1 (h.ordered.names_subset hT')
  have htails : tails names e'.settled = T :: tails names e.settled :=
    hsettled ▸ tails_splitRecursion hname hTgiven
  refine ⟨hordered, fun p' hp' hn a ha => ?_, ?_, ?_⟩
  · rw [htails]
    rcases eq_or_eq_or_mem_of_split hp hsettled hpending hp' with rfl | rfl | hp'
    · exact absurd hn hTgiven
    · obtain ⟨d, ⟨hd, -⟩, rfl⟩ := mem_splitRecursion_fst.mp ha
      have hnil : Phrase.without (T :: tails names e.settled) [.nonterminal T] = [] :=
        Phrase.without_eq_nil_iff.mpr (by simp)
      have hkept := h.derives_of_fresh hfresh hmem hname hd
      rwa [Phrase.without_append, hnil, List.append_nil]
    · exact h.derives_of_fresh hfresh hp' hn ha
  · rw [htails, hsettled]
    refine List.forall_mem_cons.mpr ⟨fun _ a ha => ?_,
      List.forall_mem_cons.mpr ⟨fun hnew => absurd hname hnew, fun q hq hnew a ha => ?_⟩⟩
    · -- the new nonterminal repeats what the recursive alternatives went on with
      refine (mem_splitRecursion_snd.mp ha).imp_right ?_
      rintro ⟨c, hc, rfl⟩
      have hTc : .nonterminal T ∉ c := fun hTc =>
        nonterminal_not_mem_of_fresh hfresh hmem hc (List.mem_cons_of_mem _ hTc)
      refine ⟨c, ⟨hTc, ?_⟩, rfl⟩
      rw [Phrase.without_cons_eq hTc]
      exact h.without_ne_nil hcycle hmem hname hc
    · refine (h.repeats q hq hnew a ha).imp_right ?_
      rintro ⟨c, ⟨hself, hleft⟩, rfl⟩
      have hTa := nonterminal_not_mem_of_fresh hfresh (mem_productions_of_settled hq) ha
      have hTc : .nonterminal T ∉ c := fun hTc => hTa (List.mem_append_left _ hTc)
      exact ⟨c, ⟨hself, by rwa [Phrase.without_cons_eq hTc]⟩, rfl⟩
  · rw [hsettled]
    refine List.pairwise_cons.mpr ⟨fun q hq _ hnew a ha => ?_,
      List.pairwise_cons.mpr ⟨fun _ _ hnew => absurd hname hnew, h.older⟩⟩
    rcases List.mem_cons.mp hq with rfl | hq
    · exact absurd hname hnew
    · exact nonterminal_not_mem_of_fresh hfresh (mem_productions_of_settled hq) ha

lemma Traced.step (hcycle : ∀ n, ¬ Relation.TransGen P.Rewrites [.nonterminal n] [.nonterminal n])
    (h : e.Traced P names) (hstep : e.step = some e') : e'.Traced P names := by
  have hordered : e'.Ordered names := h.ordered.step hstep
  obtain ⟨p, later, hp, ⟨q, hq, rest, others, hperm, hs, hpend⟩ | ⟨-, rfl⟩⟩ := step_cases hstep
  · exact h.replace hordered hp hq hperm hs hpend
  · obtain ⟨hpend, ⟨-, hs⟩ | ⟨-, T, hT, hs⟩⟩ := settle_cases e p later
    · exact h.settle hordered hp hs hpend
    · exact h.split hordered hcycle hp hT hs hpend

/-! ### The order of the left corners -/

/-- Only new nonterminals can be erased. -/
lemma Ordered.without_eq_nil_of_erasable (h : e.Ordered names)
    (ha : (ruleSetOf e.settled).Erasable a) : Phrase.without (tails names e.settled) a = [] := by
  rw [Phrase.without_eq_nil_iff]
  induction ha with
  | nil => simp
  | @cons n b a hn hb ha _ ih =>
    have hnew : n ∈ tails names e.settled :=
      mem_tails.mpr ⟨mem_namesOf_of_rule hn, h.not_mem_of_erasable (.cons hn hb ha)⟩
    exact List.forall_mem_cons.mpr ⟨List.mem_map_of_mem hnew, ih⟩

lemma Ordered.nodup_settled (h : e.Ordered names) : (namesOf e.settled).Nodup := by
  have hnodup := h.nodup
  rw [productions, namesOf, List.map_append, List.map_reverse] at hnodup
  exact List.nodup_reverse.mp hnodup.of_append_left

/-- A left corner of a new nonterminal stands in one of its alternatives, and it is another one. -/
lemma Traced.ne_and_mem_of_leftCorner (h : e.Traced P names) (hp : p ∈ e.settled)
    (hnew : p.name ∉ names) (hn : (ruleSetOf e.settled).LeftCorner n p.name) :
    n ≠ p.name ∧ ∃ a ∈ p.alternatives, .nonterminal n ∈ a := by
  obtain ⟨u, v, hrule, hu⟩ := hn
  have ha := (ruleSetOf_name_iff h.ordered.nodup_settled hp).mp hrule
  obtain ⟨c, ⟨hself, hleft⟩, hc⟩ := (h.repeats p hp hnew _ ha).resolve_left (by simp)
  have hmem : .nonterminal n ∈ c := by
    rcases RuleSet.append_eq_append_cons_iff.mp hc.symm with ⟨v', rfl, -⟩ | ⟨u', rfl, -⟩
    · simp
    · -- the whole of the repeated phrase would be erased
      exact absurd (h.ordered.without_eq_nil_of_erasable hu.of_append.1) hleft
  exact ⟨fun hname => hself (hname ▸ hmem), _, ha, by simp⟩

/-- The left corners of a new nonterminal are given ones, undefined ones and new ones that are
older, which stand behind it in the list. -/
lemma Traced.acc_leftCorner_of_append (h : e.Traced P names) {r : List Production} :
    ∀ l, e.settled = l ++ r → ∀ p ∈ r, p.name ∉ names →
      Acc (ruleSetOf e.settled).LeftCorner p.name := by
  induction r with
  | nil => exact fun l _ p hp => absurd hp List.not_mem_nil
  | cons p r ih =>
    intro l hl p' hp' hnew
    rcases List.mem_cons.mp hp' with rfl | hp'
    · refine Acc.intro _ fun m hm => ?_
      obtain ⟨hne, a, ha, hma⟩ := h.ne_and_mem_of_leftCorner (by simp [hl]) hnew hm
      by_cases hgiven : m ∈ names
      · exact h.ordered.acc_leftCorner hgiven
      by_cases hsettled : m ∈ namesOf e.settled
      · obtain ⟨q, hq, rfl⟩ := List.mem_map.mp hsettled
        have holder := h.older
        rw [hl, List.pairwise_append] at holder
        rw [hl, List.mem_append, List.mem_cons] at hq
        rcases hq with hq | rfl | hq
        · exact absurd hma (holder.2.2 q hq p' List.mem_cons_self hgiven hnew a ha)
        · exact absurd rfl hne
        · exact ih (l ++ [p']) (by simp [hl]) q hq hgiven
      · exact acc_leftCorner_of_not_mem hsettled
    · exact ih (l ++ [p]) (by simp [hl]) p' hp' hnew

lemma Traced.wellFounded_leftCorner (h : e.Traced P names) :
    WellFounded (ruleSetOf e.settled).LeftCorner := by
  refine ⟨fun n => ?_⟩
  by_cases hgiven : n ∈ names
  · exact h.ordered.acc_leftCorner hgiven
  by_cases hsettled : n ∈ namesOf e.settled
  · obtain ⟨p, hp, rfl⟩ := List.mem_map.mp hsettled
    exact h.acc_leftCorner_of_append [] rfl p hp hgiven
  · exact acc_leftCorner_of_not_mem hsettled

lemma Ordered.exists_run (h : e.Ordered names) : ∃ fuel e', e.run fuel = some e' :=
  exists_run_of_acc (acc_steps (I := (·.Ordered names)) (fun _ _ h hstep => h.step hstep)
    (fun _ _ _ h hp _ ha => h.acc_unfolds hp ha) h)

end Elimination

namespace Grammar

variable {g : Grammar} {fuel : Nat} {t : Transformed}

/-- The rules that are left when all productions are settled. -/
lemma ruleSet_of_settled {e : Elimination} (he : e.pending = []) {n : String} {a : Alternative}
    (h : ruleSetOf (e.productions.map Production.toCanonical) n a) : ruleSetOf e.settled n a := by
  obtain ⟨p', hp', rfl, ha⟩ := h
  obtain ⟨p, hp, rfl⟩ := List.mem_map.mp hp'
  have hsettled : p ∈ e.settled := by
    simpa only [Elimination.productions, he, List.append_nil, List.mem_reverse] using hp
  exact ⟨p, hsettled, rfl, mem_canonical.mp ha⟩

lemma traced_of_nonempty (hg : g.WellFormed) (hne : ∀ n a, g.ruleSet n a → a ≠ []) :
    (Elimination.ofProductions g.productions).Traced g.ruleSet g.nonterminals :=
  Elimination.traced_ofProductions hg.nodup fun p hp hnil => hne p.name [] ⟨p, hp, rfl, hnil⟩ rfl

lemma wellFounded_leftCorner_removeLeftRecursion (hg : g.WellFormed)
    (hne : ∀ n a, g.ruleSet n a → a ≠ [])
    (hcycle : ∀ n, ¬ Relation.TransGen g.ruleSet.Rewrites [.nonterminal n] [.nonterminal n])
    (h : g.removeLeftRecursion fuel = some t) : WellFounded t.grammar.ruleSet.LeftCorner := by
  obtain ⟨e, he, rfl⟩ := Option.map_eq_some_iff.mp h
  obtain ⟨htraced, hend⟩ := Elimination.run_induction he (traced_of_nonempty hg hne)
    fun _ _ h hstep => h.step hcycle hstep
  have hsettled : e.pending = [] := Elimination.step_eq_none_iff.mp hend
  refine Subrelation.wf (fun hmn => ?_) htraced.wellFounded_leftCorner
  exact hmn.mono fun n a => ruleSet_of_settled hsettled

/-- **Left recursion is removed for good** from a grammar without empty alternatives whose
nonterminals do not derive themselves.  There is an outcome, and in it no nonterminal derives a
phrase that begins with it. -/
theorem not_transGen_removeLeftRecursion (hg : g.Reachable)
    (hne : ∀ n a, g.ruleSet n a → a ≠ [])
    (hcycle : ∀ n, ¬ Relation.TransGen g.ruleSet.Rewrites [.nonterminal n] [.nonterminal n]) :
    (∃ fuel t, g.removeLeftRecursion fuel = some t) ∧
    ∀ fuel t, g.removeLeftRecursion fuel = some t → ∀ n q,
      ¬ Relation.TransGen t.grammar.ruleSet.Rewrites [.nonterminal n] (.nonterminal n :: q) := by
  constructor
  · obtain ⟨fuel, e, he⟩ := (traced_of_nonempty hg.wellFormed hne).ordered.exists_run
    exact ⟨fuel, _, Option.map_eq_some_iff.mpr ⟨e, he, rfl⟩⟩
  · intro fuel t ht n q
    exact RuleSet.not_transGen_rewrites
      (wellFounded_leftCorner_removeLeftRecursion hg.wellFormed hne hcycle ht)

end Grammar

/-- Lists that grow at their end, and entries that go on from lists. -/
def starredList : Grammar where
  productions := [⟨"list", [[.nonterminal "entry"], [.nonterminal "list", .terminal .comma]]⟩,
    ⟨"entry", [[.terminal .identifier], [.nonterminal "list", .terminal .star]]⟩]
  start := "list"

lemma reachable_starredList : starredList.Reachable := by
  have h : Grammar.define [.rule "list" [.nonterminal "list", .terminal .comma],
      .rule "list" [.nonterminal "entry"],
      .rule "entry" [.nonterminal "list", .terminal .star],
      .rule "entry" [.terminal .identifier]] = .ok starredList := by decide +kernel
  exact Grammar.reachable_of_define h

/-- All alternatives have a terminal but one. -/
lemma terminal_mem_starredList {n : String} {a : Alternative} (h : starredList.ruleSet n a) :
    (∃ t, .terminal t ∈ a) ∨ n = "list" ∧ a = [.nonterminal "entry"] := by
  obtain ⟨p, hp, rfl, ha⟩ := h
  simp only [starredList, List.mem_cons, List.not_mem_nil, or_false] at hp
  rcases hp with rfl | rfl
  · rcases List.mem_cons.mp ha with rfl | ha
    · exact .inr ⟨rfl, rfl⟩
    · exact .inl ⟨.comma, by simp [List.mem_singleton.mp ha]⟩
  · rcases List.mem_cons.mp ha with rfl | ha
    · exact .inl ⟨.identifier, by simp⟩
    · exact .inl ⟨.star, by simp [List.mem_singleton.mp ha]⟩

lemma not_transGen_starredList (n : String) :
    ¬ Relation.TransGen starredList.ruleSet.Rewrites [.nonterminal n] [.nonterminal n] := by
  have hterminal {t : Terminal} {a : Alternative} {m : String} (ht : .terminal t ∈ a) :
      ¬ starredList.ruleSet.Derives a [.nonterminal m] :=
    fun h => absurd (h.terminal_mem ht) (by simp)
  intro h
  obtain ⟨a, ha, hd⟩ := RuleSet.transGen_rewrites_iff.mp h
  rcases terminal_mem_starredList ha with ⟨t, ht⟩ | ⟨rfl, rfl⟩
  · exact hterminal ht hd
  · rcases Relation.reflTransGen_iff_eq_or_transGen.mp hd with heq | hd
    · exact absurd heq (by decide)
    · obtain ⟨b, hb, hd⟩ := RuleSet.transGen_rewrites_iff.mp hd
      rcases terminal_mem_starredList hb with ⟨t, ht⟩ | ⟨heq, -⟩
      · exact hterminal ht hd
      · exact absurd heq (by decide)

/-- The rest of an entry begins with the rest of a list, which can be erased. -/
theorem Grammar.not_transGen_removeLeftRecursion_starredList :
    starredList.Reachable ∧ (∀ n a, starredList.ruleSet n a → a ≠ []) ∧
    (∀ n, ¬ Relation.TransGen starredList.ruleSet.Rewrites [.nonterminal n] [.nonterminal n]) ∧
    ∃ t, starredList.removeLeftRecursion 4 = some t ∧
      t.grammar.alternatives? "entry_tail1" = some [[],
        [.nonterminal "list_tail1", .terminal .star, .nonterminal "entry_tail1"]] ∧
      ∀ n q,
        ¬ Relation.TransGen t.grammar.ruleSet.Rewrites [.nonterminal n] (.nonterminal n :: q) := by
  have hne : ∀ n a, starredList.ruleSet n a → a ≠ [] := by
    rintro n a ⟨p, hp, -, ha⟩ rfl
    revert p
    decide
  have h : (starredList.removeLeftRecursion 4).map (·.grammar.alternatives? "entry_tail1") =
      some (some [[],
        [.nonterminal "list_tail1", .terminal .star, .nonterminal "entry_tail1"]]) := by
    decide +kernel
  obtain ⟨t, ht, htail⟩ := Option.map_eq_some_iff.mp h
  have hcomplete := not_transGen_removeLeftRecursion reachable_starredList hne
    not_transGen_starredList
  exact ⟨reachable_starredList, hne, not_transGen_starredList, t, ht, htail, hcomplete.2 4 t ht⟩

end LL1
