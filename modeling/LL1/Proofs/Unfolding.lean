/-
# Termination of the removal of left recursion

Replacing the leading nonterminal of a phrase by its alternatives again and again comes to an end
if no nonterminal can be brought to the front of itself, erased symbols before it included.  The
alternatives of a production are replaced one at a time, each by finitely many others, so that the
multiset of them goes down in the order of cut and expansion as long as every one of them can be
unfolded only finitely often.

In a grammar without empty alternatives nothing is erased before a new nonterminal comes into it,
and no alternative begins with a new one.  So leading nonterminals only lead on to those that are
treated later, and left recursion is always removed.  With empty alternatives it need not be, even
if no nonterminal derives itself: `hiddenRecursion` is unfolded forever.
-/
import LL1.Proofs.Normalization
import Mathlib.Logic.Hydra

namespace LL1

/-! ### Unfolding phrases -/

namespace RuleSet

variable {ν : Type} {P Q : RuleSet ν} {m n : ν} {p q : Phrase ν} {t : Terminal}

/-- Once the symbols before it have been erased, `m` is the first symbol of an alternative
of `n`. -/
def LeftCorner (P : RuleSet ν) (m n : ν) : Prop :=
  ∃ u v, P n (u ++ .nonterminal m :: v) ∧ P.Erasable u

/-- The first symbol of the phrase `p` is a nonterminal, and it is replaced in `q`. -/
def Unfolds (P : RuleSet ν) (q p : Phrase ν) : Prop :=
  ∃ n a r, P n a ∧ p = .nonterminal n :: r ∧ q = a ++ r

lemma acc_unfolds_terminal (p : Phrase ν) : Acc P.Unfolds (.terminal t :: p) := by
  refine Acc.intro _ fun q hq => ?_
  obtain ⟨n, a, r, -, hp, -⟩ := hq
  exact absurd (List.cons.inj hp).1 (by simp)

/-- What stands behind a nonterminal comes to the front only if the nonterminal is erased. -/
lemma acc_unfolds_nonterminal (hn : Acc P.LeftCorner n) :
    ∀ r, (P.Erasable [.nonterminal n] → Acc P.Unfolds r) →
      Acc P.Unfolds (.nonterminal n :: r) := by
  induction hn with
  | intro n _ ih =>
    intro r hr
    refine Acc.intro _ fun q hq => ?_
    obtain ⟨n', a, r', hna, hp, rfl⟩ := hq
    obtain ⟨hn', rfl⟩ := List.cons.inj hp
    obtain rfl := Symbol.nonterminal.inj hn'
    -- the symbols of the alternative that come to the front leave only erased ones behind
    suffices h : ∀ v u, a = u ++ v → P.Erasable u → Acc P.Unfolds (v ++ r) from h a [] rfl .nil
    intro v
    induction v with
    | nil =>
      intro u hu herase
      rw [List.append_nil] at hu
      exact hr (.cons (hu ▸ hna) herase .nil)
    | cons s v ihv =>
      intro u hu herase
      cases s with
      | terminal t => exact acc_unfolds_terminal _
      | nonterminal m =>
        have hcorner : P.LeftCorner m n := ⟨u, v, hu ▸ hna, herase⟩
        refine ih m hcorner (v ++ r) fun hm => ?_
        exact ihv (u ++ [.nonterminal m]) (by simpa using hu) (herase.append hm)

/-- **A phrase is unfolded only finitely often** if its nonterminals lead on to others only
finitely often. -/
theorem acc_unfolds (h : ∀ n ∈ p.nonterminals, Acc P.LeftCorner n) : Acc P.Unfolds p := by
  induction p with
  | nil =>
    refine Acc.intro _ fun q hq => ?_
    obtain ⟨n, a, r, -, hp, -⟩ := hq
    exact absurd hp (by simp)
  | cons s p ih =>
    cases s with
    | terminal t => exact acc_unfolds_terminal p
    | nonterminal n =>
      refine acc_unfolds_nonterminal (h n (by simp)) p fun _ => ih fun m hm => h m ?_
      rw [Phrase.mem_nonterminals] at hm ⊢
      exact List.mem_cons_of_mem _ hm

lemma Erasable.mono (h : ∀ n a, P n a → Q n a) (hp : P.Erasable p) : Q.Erasable p :=
  yields_nil_iff.mp (hp.yields.mono h)

lemma LeftCorner.mono (h : ∀ n a, P n a → Q n a) (hmn : P.LeftCorner m n) : Q.LeftCorner m n := by
  obtain ⟨u, v, hn, hu⟩ := hmn
  exact ⟨u, v, h n _ hn, hu.mono h⟩

end RuleSet

/-! ### Unfolding alternatives one at a time -/

/-- Elements of a multiset can be replaced by smaller ones only finitely often if each of them has
only finitely long chains of smaller ones below it. -/
lemma acc_cutExpand {α : Type} {r : α → α → Prop} {s : Multiset α} (h : ∀ a ∈ s, Acc r a) :
    Acc (Relation.CutExpand fun b a => r b a ∧ Acc r a) s := by
  -- below accessible elements the relation is irreflexive
  have : Std.Irrefl fun b a => r b a ∧ Acc r a :=
    ⟨fun a ⟨hlt, ha⟩ => ha.recOn (fun b _ ih hlt => ih b hlt hlt) hlt⟩
  refine Relation.acc_of_singleton fun a ha => Acc.cutExpand ?_
  exact Subrelation.accessible (fun hab => hab.1) (h a ha)

lemma cutExpand_of_perm {α : Type} {r : α → α → Prop} {as others bs : List α} {a : α}
    (hperm : as.Perm (a :: others)) (h : ∀ b ∈ bs, r b a) :
    Relation.CutExpand r (↑(others ++ bs)) (↑as) := by
  refine ⟨bs, a, fun b hb => h b (Multiset.mem_coe.mp hb), ?_⟩
  rw [Multiset.coe_eq_coe.mpr hperm, ← Multiset.coe_add, ← Multiset.cons_coe,
    ← Multiset.singleton_add, add_comm, add_assoc]

namespace Elimination

variable {e e' : Elimination} {p q : Production} {later : List Production} {fuel : Nat}
  {I : Elimination → Prop} {names : List String}

/-- The state `e'` comes after `e`. -/
def Steps (e' e : Elimination) : Prop := e.step = some e'

/-- **Left recursion is removed in finitely many steps** if in every state the alternatives of the
current production are unfolded only finitely often. -/
theorem acc_steps (hstep : ∀ e e', I e → e.step = some e' → I e')
    (hacc : ∀ e p later, I e → e.pending = p :: later →
      ∀ a ∈ p.alternatives, Acc (ruleSetOf e.settled).Unfolds a)
    (he : I e) : Acc Steps e := by
  -- settling makes the list of pending productions shorter
  generalize hpending : e.pending = pending
  induction pending generalizing e with
  | nil =>
    refine Acc.intro _ fun e' he' => ?_
    obtain ⟨p, later, hp, -⟩ := step_cases he'
    exact absurd (hpending.symm.trans hp) (by simp)
  | cons p later ih =>
    -- and a replacement makes the multiset of alternatives smaller
    have hcut := acc_cutExpand (s := (p.alternatives : Multiset Alternative)) fun a ha =>
      hacc e p later he hpending a (by simpa using ha)
    generalize hs : (p.alternatives : Multiset Alternative) = s at hcut
    generalize hS : e.settled = settled at hcut
    induction hcut generalizing e p with
    | intro s _ ihs =>
      refine Acc.intro _ fun e' he' => ?_
      have hI : I e' := hstep e e' he he'
      obtain ⟨p', later', hp, hcases⟩ := step_cases he'
      obtain ⟨rfl, rfl⟩ := List.cons.inj (hpending.symm.trans hp)
      rcases hcases with ⟨q, hq, rest, others, hperm, hsettled, hpending'⟩ | ⟨-, rfl⟩
      · subst hs hS
        refine ihs _ (cutExpand_of_perm hperm fun b hb => ⟨?_, ?_⟩) _ hI hpending' rfl hsettled
        · obtain ⟨c, hc, rfl⟩ := List.mem_map.mp hb
          exact ⟨q.name, c, rest, ⟨q, hq, rfl, hc⟩, rfl, rfl⟩
        · exact hacc e p later he hpending _ (hperm.mem_iff.mpr List.mem_cons_self)
      · exact ih hI (settle_cases e p later).1

lemma step_eq_none_iff : e.step = none ↔ e.pending = [] := by
  rw [step]
  split
  · next h => simp [h]
  · next p later h => split <;> simp [h]

/-- What comes to an end has a result. -/
lemma exists_run_of_acc (h : Acc Steps e) : ∃ fuel e', e.run fuel = some e' := by
  induction h with
  | intro e _ ih =>
    cases hstep : e.step with
    | none => exact ⟨1, e, by rw [run, hstep]⟩
    | some e₁ =>
      obtain ⟨fuel, e', hrun⟩ := ih e₁ hstep
      exact ⟨fuel + 1, e', by rw [run, hstep]; exact hrun⟩

end Elimination

/-! ### Grammars without empty alternatives -/

lemma Phrase.leading?_append {ν : Type} {p : Phrase ν} (hp : p ≠ []) (r : Phrase ν) :
    Phrase.leading? (p ++ r) = p.leading? := by
  match p with
  | [] => exact absurd rfl hp
  | .terminal t :: c => rfl
  | .nonterminal m :: c => rfl

namespace Elimination

variable {e e' : Elimination} {p q : Production} {later settled : List Production} {fuel : Nat}
  {names : List String} {n : String} {a : Alternative} {rest : Phrase String}
  {others : List Alternative}

lemma extractFirst_eq_none_iff {α β : Type} {f : α → Option β} {as : List α} :
    extractFirst f as = none ↔ ∀ a ∈ as, f a = none := by
  induction as with
  | nil => simp [extractFirst]
  | cons a as ih =>
    rw [extractFirst, List.forall_mem_cons, ← ih]
    split
    · next b hb => simp [hb]
    · next hb => simp [hb]

/-- A production is settled when none of its alternatives begins with a settled nonterminal. -/
lemma not_leadsTo_of_extractFirst (h : extractFirst (expansion? settled) p.alternatives = none)
    (hn : n ∈ namesOf settled) : ¬ p.LeadsTo n := by
  rintro ⟨a, ha, hlead⟩
  obtain ⟨r, rfl⟩ := Phrase.leading?_eq_some_iff.mp hlead
  have hnone := extractFirst_eq_none_iff.mp h _ ha
  rw [expansion?, Option.map_eq_none_iff, List.find?_eq_none] at hnone
  obtain ⟨q, hq, rfl⟩ := List.mem_map.mp hn
  exact hnone q hq (by simp)

/-- What is left of a production when its recursive alternatives are taken out leads to the same
nonterminals but itself, or to the new one. -/
lemma leadsTo_or_eq_of_splitRecursion {T : String} (h : (splitRecursion p T).1.LeadsTo n) :
    p.LeadsTo n ∧ n ≠ p.name ∨ n = T := by
  obtain ⟨a, ha, hlead⟩ := h
  obtain ⟨d, ⟨hd, hrecurring⟩, rfl⟩ := mem_splitRecursion_fst.mp ha
  by_cases hnil : d = []
  · subst hnil
    exact .inr (by simpa [Phrase.leading?, eq_comm] using hlead)
  · rw [Phrase.leading?_append hnil] at hlead
    refine .inl ⟨⟨d, hd, hlead⟩, ?_⟩
    rintro rfl
    obtain ⟨c, rfl⟩ := Phrase.leading?_eq_some_iff.mp hlead
    exact hrecurring c rfl

/-- The settled productions of the given names lead neither to those that were settled before them
nor to themselves. -/
structure Forward (names : List String) (e : Elimination) : Prop where
  nodup : (namesOf e.productions).Nodup
  names_subset : names ⊆ namesOf e.productions
  settled_first : e.settled.Pairwise fun p q => p.name ∈ names → ¬ p.LeadsTo q.name
  not_self : ∀ p ∈ e.settled, p.name ∈ names → ¬ p.LeadsTo p.name

lemma forward_ofProductions {ps : List Production} (hps : (namesOf ps).Nodup) :
    (ofProductions ps).Forward (namesOf ps) where
  nodup := hps
  names_subset := List.Subset.refl _
  settled_first := List.Pairwise.nil
  not_self _ hp := absurd hp List.not_mem_nil

/-- **A production that is settled leads forward**, whatever was done to it before. -/
lemma Forward.step (h : e.Forward names) (hstep : e.step = some e') : e'.Forward names := by
  have hk : KeepsLanguages e.productions e'.productions := keepsLanguages_step hstep h.nodup
  have hnames : names ⊆ namesOf e'.productions := List.Subset.trans h.names_subset hk.names_subset
  obtain ⟨p, later, hp, ⟨q, -, rest, others, -, hs, -⟩ | ⟨hnone, rfl⟩⟩ := step_cases hstep
  · exact ⟨hk.nodup, hnames, hs ▸ h.settled_first, hs ▸ h.not_self⟩
  · have hfirst : ∀ q ∈ e.settled, ¬ p.LeadsTo q.name := fun q hq =>
      not_leadsTo_of_extractFirst hnone (List.mem_map_of_mem hq)
    obtain ⟨-, ⟨hself, hs⟩ | ⟨-, T, hT, hs⟩⟩ := settle_cases e p later
    · refine ⟨hk.nodup, hnames, ?_, ?_⟩
      · rw [hs]
        exact List.pairwise_cons.mpr ⟨fun q hq _ => hfirst q hq, h.settled_first⟩
      · rw [hs]
        exact List.forall_mem_cons.mpr ⟨fun _ => hself, h.not_self⟩
    · have hTnames : T ∉ namesOf e.productions :=
        (not_mem_mentionedNames_iff.mp (not_mem_mentionedNames_productions hp hT)).1
      have hTgiven : T ∉ names := fun hT => hTnames (h.names_subset hT)
      -- what is left of the production leads to nothing old but what it led to before
      have hold {q : Production} (hq : q ∈ e.productions)
          (hlead : (splitRecursion p T).1.LeadsTo q.name) : p.LeadsTo q.name ∧ q.name ≠ p.name :=
        (leadsTo_or_eq_of_splitRecursion hlead).resolve_right fun heq =>
          hTnames (heq ▸ List.mem_map_of_mem hq)
      refine ⟨hk.nodup, hnames, ?_, ?_⟩
      · rw [hs]
        refine List.pairwise_cons.mpr ⟨fun _ _ hT => absurd hT hTgiven,
          List.pairwise_cons.mpr ⟨fun q hq _ hlead => ?_, h.settled_first⟩⟩
        exact hfirst q hq (hold (mem_productions_of_settled hq) hlead).1
      · rw [hs]
        refine List.forall_mem_cons.mpr ⟨fun hT => absurd hT hTgiven,
          List.forall_mem_cons.mpr ⟨fun _ hlead => ?_, h.not_self⟩⟩
        have hmem : p ∈ e.productions := mem_productions_of_pending hp
        exact (hold hmem hlead).2 rfl

/-- The alternative is not empty, and if it begins with a settled nonterminal, then with one of the
given ones. -/
def Solid (names : List String) (settled : List Production) (a : Alternative) : Prop :=
  a ≠ [] ∧ ∀ n ∈ namesOf settled, a.leading? = some n → n ∈ names

/-- The state while a grammar with the given nonterminals and without empty alternatives is being
treated.  The given nonterminals lead neither to new ones nor to those that were settled before
them. -/
structure Ordered (names : List String) (e : Elimination) : Prop where
  nodup : (namesOf e.productions).Nodup
  names_subset : names ⊆ namesOf e.productions
  pending_mem : ∀ p ∈ e.pending, p.name ∈ names
  solid : ∀ p ∈ e.productions, p.name ∈ names → ∀ a ∈ p.alternatives, Solid names e.settled a
  settled_first : e.settled.Pairwise fun p q => p.name ∈ names → ¬ p.LeadsTo q.name
  not_self : ∀ p ∈ e.settled, p.name ∈ names → ¬ p.LeadsTo p.name

/-- A phrase that can be erased begins with a new nonterminal. -/
lemma Ordered.not_mem_of_erasable (h : e.Ordered names)
    (hp : (ruleSetOf e.settled).Erasable (.nonterminal n :: rest)) : n ∉ names := by
  generalize hq : .nonterminal n :: rest = q at hp
  induction hp generalizing n rest with
  | nil => exact absurd hq (by simp)
  | @cons m a r hm ha _ iha _ =>
    obtain ⟨hnm, -⟩ := List.cons.inj hq
    obtain rfl := Symbol.nonterminal.inj hnm
    intro hn
    obtain ⟨p, hp, rfl, hap⟩ := hm
    have hsolid := h.solid p (mem_productions_of_settled hp) hn a hap
    cases ha with
    | nil => exact hsolid.1 rfl
    | cons hk _ _ => exact iha rfl (hsolid.2 _ (mem_namesOf_of_rule hk) rfl)

lemma Ordered.leadsTo_of_leftCorner (h : e.Ordered names) (hn : n ∈ names) {m : String}
    (hmn : (ruleSetOf e.settled).LeftCorner m n) :
    ∃ p ∈ e.settled, p.name = n ∧ p.LeadsTo m := by
  obtain ⟨u, v, ⟨p, hp, rfl, ha⟩, hu⟩ := hmn
  cases hu with
  | nil => exact ⟨p, hp, rfl, _, ha, rfl⟩
  | @cons k b r hk hb hr =>
    -- the alternative would begin with a new nonterminal
    have hsolid := h.solid p (mem_productions_of_settled hp) hn _ ha
    have hmem : k ∈ names := hsolid.2 k (mem_namesOf_of_rule hk) rfl
    exact absurd hmem (h.not_mem_of_erasable (.cons hk hb hr))

lemma acc_leftCorner_of_not_mem (hn : n ∉ namesOf settled) :
    Acc (ruleSetOf settled).LeftCorner n := by
  refine Acc.intro _ fun m hm => ?_
  obtain ⟨u, v, hrule, -⟩ := hm
  exact absurd (mem_namesOf_of_rule hrule) hn

/-- A settled nonterminal of the grammar leads on only to nonterminals that were settled after it,
which stand before it in the list. -/
lemma Ordered.acc_leftCorner_of_append (h : e.Ordered names) {l : List Production} :
    ∀ r, e.settled = l ++ r → ∀ p ∈ l, p.name ∈ names →
      Acc (ruleSetOf e.settled).LeftCorner p.name := by
  induction l using List.reverseRecOn with
  | nil => exact fun r _ p hp => absurd hp List.not_mem_nil
  | append_singleton l p ih =>
    intro r hl p' hp' hn
    rw [List.append_assoc, List.singleton_append] at hl
    rcases List.mem_append.mp hp' with hp' | hp'
    · exact ih (p :: r) hl p' hp' hn
    · obtain rfl := List.mem_singleton.mp hp'
      have hp : p' ∈ e.settled := by simp [hl]
      refine Acc.intro _ fun m hm => ?_
      obtain ⟨p, hp₁, hname, hlead⟩ := h.leadsTo_of_leftCorner hn hm
      obtain rfl : p = p' := by
        refine List.inj_on_of_nodup_map h.nodup ?_ ?_ hname
        · exact mem_productions_of_settled hp₁
        · exact mem_productions_of_settled hp
      by_cases hsettled : m ∈ namesOf e.settled
      · obtain ⟨q, hq, rfl⟩ := List.mem_map.mp hsettled
        have hqnames : q.name ∈ names := by
          obtain ⟨a, ha, hlead⟩ := hlead
          exact (h.solid p (mem_productions_of_settled hp) hn a ha).2 q.name hsettled hlead
        have hfirst := h.settled_first
        rw [hl, List.pairwise_append, List.pairwise_cons] at hfirst
        rw [hl, List.mem_append, List.mem_cons] at hq
        rcases hq with hq | rfl | hq
        · exact ih (p :: r) hl q hq hqnames
        · exact absurd hlead (h.not_self q hp hn)
        · exact absurd hlead (hfirst.2.1.1 q hq hn)
      · exact acc_leftCorner_of_not_mem hsettled

lemma Ordered.acc_leftCorner (h : e.Ordered names) (hn : n ∈ names) :
    Acc (ruleSetOf e.settled).LeftCorner n := by
  by_cases hsettled : n ∈ namesOf e.settled
  · obtain ⟨p, hp, rfl⟩ := List.mem_map.mp hsettled
    exact h.acc_leftCorner_of_append [] (List.append_nil _).symm p hp hn
  · exact acc_leftCorner_of_not_mem hsettled

lemma Ordered.acc_unfolds (h : e.Ordered names) (hp : e.pending = p :: later)
    (ha : a ∈ p.alternatives) : Acc (ruleSetOf e.settled).Unfolds a := by
  have hmem : p ∈ e.productions := mem_productions_of_pending hp
  have hsolid := h.solid p hmem (h.pending_mem p (by simp [hp])) a ha
  match a with
  | [] => exact absurd rfl hsolid.1
  | .terminal t :: r => exact RuleSet.acc_unfolds_terminal r
  | .nonterminal n :: r =>
    by_cases hn : n ∈ namesOf e.settled
    · have hn' : n ∈ names := hsolid.2 n hn rfl
      refine RuleSet.acc_unfolds_nonterminal (h.acc_leftCorner hn') r fun herase => ?_
      exact absurd hn' (h.not_mem_of_erasable herase)
    · refine RuleSet.acc_unfolds_nonterminal (acc_leftCorner_of_not_mem hn) r fun herase => ?_
      obtain ⟨b, hb, -⟩ := herase.exists_rule
      exact absurd (mem_namesOf_of_rule hb) hn

lemma Ordered.forward (h : e.Ordered names) : e.Forward names :=
  ⟨h.nodup, h.names_subset, h.settled_first, h.not_self⟩

lemma ordered_ofProductions {ps : List Production} (hps : (namesOf ps).Nodup)
    (hne : ∀ p ∈ ps, [] ∉ p.alternatives) : (ofProductions ps).Ordered (namesOf ps) where
  nodup := hps
  names_subset := List.Subset.refl _
  pending_mem _ hp := List.mem_map_of_mem hp
  solid p hp _ _ ha := ⟨fun hnil => hne p hp (hnil ▸ ha), fun _ hn => absurd hn List.not_mem_nil⟩
  settled_first := List.Pairwise.nil
  not_self _ hp := absurd hp List.not_mem_nil

lemma Solid.append (h : Solid names settled a) (r : Phrase String) :
    Solid names settled (a ++ r) :=
  ⟨fun hnil => h.1 (List.append_eq_nil_iff.mp hnil).1, Phrase.leading?_append h.1 r ▸ h.2⟩

/-- A leading nonterminal is replaced by alternatives that begin with a given one if they begin
with a settled one. -/
lemma Ordered.replace (h : e.Ordered names) (hforward : e'.Forward names)
    (hp : e.pending = p :: later) (hq : q ∈ e.settled)
    (hperm : p.alternatives.Perm ((.nonterminal q.name :: rest) :: others))
    (hsettled : e'.settled = e.settled)
    (hpending : e'.pending = Elimination.replace p q rest others :: later) :
    e'.Ordered names := by
  have hmem : p ∈ e.productions := mem_productions_of_pending hp
  have hname : p.name ∈ names := h.pending_mem p (by simp [hp])
  have hsolid := h.solid p hmem hname
  have hqname : q.name ∈ names :=
    (hsolid _ (hperm.mem_iff.mpr List.mem_cons_self)).2 _ (List.mem_map_of_mem hq) rfl
  refine ⟨hforward.nodup, hforward.names_subset, ?_, ?_, hforward.settled_first,
    hforward.not_self⟩
  · rw [hpending]
    refine List.forall_mem_cons.mpr ⟨hname, fun p' hp' => h.pending_mem p' ?_⟩
    exact hp ▸ List.mem_cons_of_mem _ hp'
  · rw [hsettled]
    intro p' hp' hn a ha
    rcases eq_or_mem_of_replace hp hsettled hpending hp' with rfl | hp'
    · rw [Elimination.replace, List.mem_append, List.mem_map] at ha
      rcases ha with ha | ⟨b, hb, rfl⟩
      · exact hsolid a (hperm.mem_iff.mpr (List.mem_cons_of_mem _ ha))
      · exact (h.solid q (mem_productions_of_settled hq) hqname b hb).append rest
    · exact h.solid p' hp' hn a ha

lemma Solid.mono {settled' : List Production} (h : Solid names settled a)
    (hle : ∀ n ∈ namesOf settled', a.leading? = some n → n ∈ names ∨ n ∈ namesOf settled) :
    Solid names settled' a :=
  ⟨h.1, fun n hn hlead => (hle n hn hlead).elim id fun hn' => h.2 n hn' hlead⟩

/-- A production without recursive alternatives is settled as it is. -/
lemma Ordered.settle (h : e.Ordered names) (hforward : e'.Forward names)
    (hp : e.pending = p :: later) (hsettled : e'.settled = p :: e.settled)
    (hpending : e'.pending = later) : e'.Ordered names := by
  have hname : p.name ∈ names := h.pending_mem p (by simp [hp])
  refine ⟨hforward.nodup, hforward.names_subset, ?_, ?_, hforward.settled_first,
    hforward.not_self⟩
  · exact fun p' hp' => h.pending_mem p' (by rw [hp, ← hpending]; exact List.mem_cons_of_mem _ hp')
  · intro p' hp' hn a ha
    have hold : p' ∈ e.productions := mem_productions_of_settle hp hsettled hpending hp'
    refine (h.solid p' hold hn a ha).mono fun n hn' _ => ?_
    rw [hsettled] at hn'
    rcases List.mem_cons.mp hn' with rfl | hn'
    · exact .inl hname
    · exact .inr hn'

/-- A production with recursive alternatives is split; the others go on to the new nonterminal,
but do not begin with it. -/
lemma Ordered.split {T : String} (h : e.Ordered names) (hforward : e'.Forward names)
    (hp : e.pending = p :: later)
    (hT : T ∉ mentionedNames (e.settled ++ p :: later))
    (hsettled : e'.settled = (splitRecursion p T).2 :: (splitRecursion p T).1 :: e.settled)
    (hpending : e'.pending = later) : e'.Ordered names := by
  have hmem : p ∈ e.productions := mem_productions_of_pending hp
  have hname : p.name ∈ names := h.pending_mem p (by simp [hp])
  have hfresh : T ∉ mentionedNames e.productions := not_mem_mentionedNames_productions hp hT
  have hTgiven : T ∉ names := fun hT' =>
    (not_mem_mentionedNames_iff.mp hfresh).1 (h.names_subset hT')
  -- old alternatives do not begin with the new nonterminal
  have hsolid : ∀ p' ∈ e.productions, p'.name ∈ names → ∀ a ∈ p'.alternatives,
      Solid names e'.settled a := by
    intro p' hp' hn a ha
    refine (h.solid p' hp' hn a ha).mono fun n hn' hlead => ?_
    rw [hsettled] at hn'
    rcases List.mem_cons.mp hn' with rfl | hn'
    · obtain ⟨r, rfl⟩ := Phrase.leading?_eq_some_iff.mp hlead
      exact absurd List.mem_cons_self (nonterminal_not_mem_of_fresh hfresh hp' ha)
    · rcases List.mem_cons.mp hn' with rfl | hn'
      · exact .inl hname
      · exact .inr hn'
  refine ⟨hforward.nodup, hforward.names_subset, ?_, ?_, hforward.settled_first,
    hforward.not_self⟩
  · exact fun p' hp' => h.pending_mem p' (by rw [hp, ← hpending]; exact List.mem_cons_of_mem _ hp')
  · intro p' hp' hn a ha
    rcases eq_or_eq_or_mem_of_split hp hsettled hpending hp' with rfl | rfl | hp'
    · exact absurd hn hTgiven
    · obtain ⟨d, ⟨hd, -⟩, rfl⟩ := mem_splitRecursion_fst.mp ha
      exact (hsolid p hmem hname d hd).append _
    · exact hsolid p' hp' hn a ha

lemma Ordered.step (h : e.Ordered names) (hstep : e.step = some e') : e'.Ordered names := by
  have hforward : e'.Forward names := h.forward.step hstep
  obtain ⟨p, later, hp, ⟨q, hq, rest, others, hperm, hs, hpend⟩ | ⟨-, rfl⟩⟩ := step_cases hstep
  · exact h.replace hforward hp hq hperm hs hpend
  · obtain ⟨hpend, ⟨-, hs⟩ | ⟨-, T, hT, hs⟩⟩ := settle_cases e p later
    · exact h.settle hforward hp hs hpend
    · exact h.split hforward hp hT hs hpend

end Elimination

/-- **Left recursion is removed from a grammar without empty alternatives**, also if nonterminals
derive themselves.  In the end its nonterminals begin neither with those that were treated before
them nor with themselves. -/
theorem Grammar.exists_run_of_nonempty {g : Grammar} (hg : g.WellFormed)
    (hne : ∀ n a, g.ruleSet n a → a ≠ []) :
    ∃ fuel e, (Elimination.ofProductions g.productions).run fuel = some e ∧ e.pending = [] ∧
      e.settled.Pairwise (fun p q => p.name ∈ g.nonterminals → ¬ p.LeadsTo q.name) ∧
      ∀ p ∈ e.settled, p.name ∈ g.nonterminals → ¬ p.LeadsTo p.name := by
  have hstart : (Elimination.ofProductions g.productions).Ordered g.nonterminals :=
    Elimination.ordered_ofProductions hg.nodup fun p hp hnil => hne p.name [] ⟨p, hp, rfl, hnil⟩ rfl
  have hacc := Elimination.acc_steps (I := (·.Ordered g.nonterminals))
    (fun _ _ h hstep => h.step hstep) (fun _ _ _ h hp _ ha => h.acc_unfolds hp ha) hstart
  obtain ⟨fuel, e, hrun⟩ := Elimination.exists_run_of_acc hacc
  obtain ⟨hordered, hend⟩ := Elimination.run_induction hrun hstart fun _ _ h hstep => h.step hstep
  exact ⟨fuel, e, hrun, Elimination.step_eq_none_iff.mp hend, hordered.settled_first,
    hordered.not_self⟩

/-- In a list that grows at its end, with entries that go on from lists, entries begin with what is
treated before them. -/
theorem exists_run_branchingList :
    (∃ p ∈ branchingList.productions, p.name = "entry" ∧ p.LeadsTo "list") ∧
    (∀ n a, branchingList.ruleSet n a → a ≠ []) ∧
      ∃ fuel e, (Elimination.ofProductions branchingList.productions).run fuel = some e ∧
        e.pending = [] ∧
        e.settled.Pairwise (fun p q =>
          p.name ∈ branchingList.nonterminals → ¬ p.LeadsTo q.name) ∧
        ∀ p ∈ e.settled, p.name ∈ branchingList.nonterminals → ¬ p.LeadsTo p.name := by
  have hleads : ∃ p ∈ branchingList.productions, p.name = "entry" ∧ p.LeadsTo "list" := by
    unfold Production.LeadsTo
    decide
  have hne : ∀ n a, branchingList.ruleSet n a → a ≠ [] := by
    rintro n a ⟨p, hp, -, ha⟩ rfl
    revert p
    decide
  exact ⟨hleads, hne, Grammar.exists_run_of_nonempty wellFormed_branchingList hne⟩

/-! ### A grammar that is unfolded forever -/

namespace RuleSet

variable {ν : Type} {P : RuleSet ν} {n : ν} {p q : Phrase ν} {t : Terminal}

/-- Terminals stay where they are. -/
lemma Derives.terminal_mem (h : P.Derives p q) (ht : .terminal t ∈ p) : .terminal t ∈ q := by
  induction h with
  | refl => exact ht
  | tail _ hstep ih =>
    cases hstep with
    | mk l r _ =>
      simp only [List.mem_append, List.mem_cons, reduceCtorEq, false_or] at ih ⊢
      tauto

lemma Derives.eq_nil (h : P.Derives [] q) : q = [] := by
  induction h with
  | refl => rfl
  | tail _ hstep ih =>
    subst ih
    generalize hp : ([] : Phrase ν) = p at hstep
    cases hstep with
    | mk l r _ => exact absurd hp (by simp)

lemma transGen_rewrites_iff : Relation.TransGen P.Rewrites [.nonterminal n] q ↔
    ∃ a, P n a ∧ P.Derives a q := by
  rw [Relation.TransGen.head'_iff]
  constructor
  · rintro ⟨r, hstep, h⟩
    generalize hp : [Symbol.nonterminal n] = p at hstep
    cases hstep with
    | @mk l r m a hm =>
      obtain ⟨rfl, rfl, rfl⟩ : l = [] ∧ n = m ∧ r = [] := by
        cases l with
        | nil => simpa [eq_comm] using hp
        | cons s l => exact absurd (congrArg List.length hp) (by simp)
      rw [List.nil_append, List.append_nil] at h
      exact ⟨a, hm, h⟩
  · rintro ⟨a, ha, h⟩
    exact ⟨a, by simpa using Rewrites.mk [] [] ha, h⟩

end RuleSet

namespace Elimination

variable {e : Elimination} {I : Elimination → Prop} {p q : Production} {n : String}
  {rest : Phrase String} {others : List Alternative}

/-- With an invariant in which every state has a successor, a run does not end. -/
lemma run_eq_none (h : ∀ e, I e → ∃ e', e.step = some e' ∧ I e') (fuel : Nat) :
    ∀ e, I e → e.run fuel = none := by
  induction fuel with
  | zero => exact fun e _ => rfl
  | succ fuel ih =>
    intro e he
    obtain ⟨e', hstep, he'⟩ := h e he
    rw [run, hstep]
    exact ih e' he'

/-- Every settled production has an alternative that begins with a settled nonterminal, and so
does the current one. -/
structure Unending (e : Elimination) : Prop where
  settled : ∀ q ∈ e.settled, ∃ q' ∈ e.settled, q.LeadsTo q'.name
  current : ∃ p later, e.pending = p :: later ∧ ∃ q ∈ e.settled, p.LeadsTo q.name

lemma leadsTo_replace (h : q.LeadsTo n) : (Elimination.replace p q rest others).LeadsTo n := by
  obtain ⟨a, ha, hlead⟩ := h
  refine ⟨a ++ rest, List.mem_append_right _ (List.mem_map_of_mem ha), ?_⟩
  rw [Phrase.leading?_append _ rest, hlead]
  rintro rfl
  exact absurd hlead (by simp [Phrase.leading?])

/-- A replacement brings another settled nonterminal to the front. -/
lemma Unending.step (h : e.Unending) : ∃ e', e.step = some e' ∧ e'.Unending := by
  obtain ⟨p, later, hpending, q, hq, hlead⟩ := h.current
  cases hstep : e.step with
  | none => exact absurd (step_eq_none_iff.mp hstep) (by simp [hpending])
  | some e' =>
    refine ⟨e', rfl, ?_⟩
    obtain ⟨p', later', hp, ⟨q', hq', rest, others, -, hs, hpend⟩ | ⟨hnone, -⟩⟩ :=
      step_cases hstep
    · obtain ⟨q₁, hq₁, hlead₁⟩ := h.settled q' hq'
      refine ⟨hs ▸ h.settled, _, _, hpend, q₁, hs ▸ hq₁, leadsTo_replace hlead₁⟩
    · obtain ⟨rfl, rfl⟩ := List.cons.inj (hpending.symm.trans hp)
      exact absurd hlead (not_leadsTo_of_extractFirst hnone (List.mem_map_of_mem hq))

/-- **Unfolding settled productions that all lead to settled ones never ends.** -/
theorem Unending.run_eq_none (h : e.Unending) (fuel : Nat) : e.run fuel = none :=
  Elimination.run_eq_none (fun _ he => he.step) fuel e h

end Elimination

/-- A grammar in which an empty alternative hides left recursion.  No nonterminal derives itself,
since what contains a comma keeps it. -/
def hiddenRecursion : Grammar where
  productions := [
    ⟨"list", [[], [.nonterminal "list", .nonterminal "list", .terminal .comma]]⟩,
    ⟨"item", [[.nonterminal "list"]]⟩,
    ⟨"other", [[.nonterminal "missing"]]⟩]
  start := "list"

lemma wellFormed_hiddenRecursion : hiddenRecursion.WellFormed := by
  have h : Grammar.define [
      .rule "list" [.nonterminal "list", .nonterminal "list", .terminal .comma],
      .rule "list" [], .rule "item" [.nonterminal "list"],
      .rule "other" [.nonterminal "missing"]] = .ok hiddenRecursion := by decide +kernel
  exact Grammar.wellFormed_of_define h

lemma not_transGen_hiddenRecursion (n : String) :
    ¬ Relation.TransGen hiddenRecursion.ruleSet.Rewrites [.nonterminal n] [.nonterminal n] := by
  rw [RuleSet.transGen_rewrites_iff]
  rintro ⟨a, ⟨p, hp, rfl, ha⟩, h⟩
  have halternatives : ∀ n ∈ ["item", "other"], ∀ p ∈ hiddenRecursion.productions,
      ∀ a ∈ p.alternatives, .nonterminal n ∉ a := by decide
  have hunused : ∀ n ∈ ["item", "other"], ∀ m a, hiddenRecursion.ruleSet m a →
      .nonterminal n ∉ a := by
    rintro n hn m a ⟨p, hp, -, ha⟩
    exact halternatives n hn p hp a ha
  simp only [hiddenRecursion, List.mem_cons, List.not_mem_nil, or_false] at hp
  rcases hp with rfl | rfl | rfl
  · rcases List.mem_cons.mp ha with rfl | ha
    · exact absurd h.eq_nil (by simp)
    · obtain rfl := List.mem_singleton.mp ha
      exact absurd (h.terminal_mem (t := .comma) (by simp)) (by simp)
  · obtain rfl := List.mem_singleton.mp ha
    exact h.not_mem (hunused "item" (by simp)) (by simp) (by simp)
  · obtain rfl := List.mem_singleton.mp ha
    exact h.not_mem (hunused "other" (by simp)) (by simp) (by simp)

/-- **An empty alternative can keep left recursion from being removed**, although no nonterminal
derives itself. -/
theorem removeLeftRecursion_hiddenRecursion :
    hiddenRecursion.WellFormed ∧
    (∀ n, ¬ Relation.TransGen hiddenRecursion.ruleSet.Rewrites [.nonterminal n]
      [.nonterminal n]) ∧
    ∀ fuel, hiddenRecursion.removeLeftRecursion fuel = none := by
  refine ⟨wellFormed_hiddenRecursion, not_transGen_hiddenRecursion, fun fuel => ?_⟩
  -- the two nonterminals that come of the list begin with each other
  let e : Elimination := {
    settled := [
      ⟨"list_tail1", [[.nonterminal "list", .terminal .comma, .nonterminal "list_tail1"], []]⟩,
      ⟨"list", [[.nonterminal "list_tail1"]]⟩]
    pending := [⟨"item", [[.nonterminal "list"]]⟩, ⟨"other", [[.nonterminal "missing"]]⟩]
    notices := [.tailIntroduced "list" "list_tail1"] }
  have hstep : (Elimination.ofProductions hiddenRecursion.productions).step = some e := by
    decide +kernel
  have he : e.Unending := by
    constructor
    · unfold Production.LeadsTo
      decide
    · refine ⟨_, _, rfl, ?_⟩
      unfold Production.LeadsTo
      decide
  rw [Grammar.removeLeftRecursion, Option.map_eq_none_iff]
  cases fuel with
  | zero => rfl
  | succ fuel =>
    rw [Elimination.run, hstep]
    exact he.run_eq_none fuel

end LL1
