/-
# Languages of lists of productions

A transformation of a grammar turns one list of productions into another.  `KeepsLanguages` says
what must not change: the nonterminals that were there are still there, and they yield the same
strings.  Each change that a transformation makes to a single production is shown to keep the
languages; the position of that production in the list does not matter.
-/
import LL1.Grammar.LeftFactoring
import LL1.Proofs.FreshName
import LL1.Proofs.Rewriting
import Mathlib.Data.Set.Basic

namespace LL1

/-- The rules that a list of productions stands for. -/
def ruleSetOf (ps : List Production) : RuleSet String :=
  fun n a => ∃ p ∈ ps, p.name = n ∧ a ∈ p.alternatives

/-- The rules of a grammar. -/
def Grammar.ruleSet (g : Grammar) : RuleSet String := ruleSetOf g.productions

/-- The strings of terminals that a nonterminal derives. -/
def Grammar.language (g : Grammar) (n : String) : Set (List Terminal) :=
  {w | g.ruleSet.Derives [.nonterminal n] (w.map .terminal)}

lemma Grammar.mem_language_iff {g : Grammar} {n : String} {w : List Terminal} :
    w ∈ g.language n ↔ g.ruleSet.Yields [.nonterminal n] w :=
  RuleSet.derives_terminals_iff

/-- The names of a list of productions. -/
abbrev namesOf (ps : List Production) : List String := ps.map (·.name)

/-- The productions `qs` have those of `ps` among their nonterminals, with the same languages and
without any new terminal. -/
structure KeepsLanguages (ps qs : List Production) : Prop where
  nodup : (namesOf qs).Nodup
  names_subset : namesOf ps ⊆ namesOf qs
  yields_iff : ∀ n ∈ namesOf ps, ∀ w,
    (ruleSetOf ps).Yields [.nonterminal n] w ↔ (ruleSetOf qs).Yields [.nonterminal n] w
  avoids : ∀ t, (ruleSetOf ps).Avoids t → (ruleSetOf qs).Avoids t

section

variable {ps qs rs l r : List Production} {p q : Production} {n : String} {a : Alternative}

/-! ### The rules of a list of productions -/

lemma mem_namesOf_of_rule (h : ruleSetOf ps n a) : n ∈ namesOf ps := by
  obtain ⟨p, hp, rfl, -⟩ := h
  exact List.mem_map_of_mem hp

lemma ruleSetOf_cons :
    ruleSetOf (p :: ps) n a ↔ p.name = n ∧ a ∈ p.alternatives ∨ ruleSetOf ps n a := by
  simp [ruleSetOf]

lemma ruleSetOf_append : ruleSetOf (ps ++ qs) n a ↔ ruleSetOf ps n a ∨ ruleSetOf qs n a := by
  simp [ruleSetOf, or_and_right, exists_or]

lemma ruleSetOf_insert :
    ruleSetOf (l ++ p :: r) n a ↔ ruleSetOf (l ++ r) n a ∨ n = p.name ∧ a ∈ p.alternatives := by
  rw [ruleSetOf_append, ruleSetOf_append, ruleSetOf_cons, eq_comm (a := p.name)]
  tauto

lemma nodup_namesOf_insert :
    (namesOf (l ++ p :: r)).Nodup ↔ p.name ∉ namesOf (l ++ r) ∧ (namesOf (l ++ r)).Nodup := by
  simp only [namesOf, List.map_append, List.map_cons]
  rw [List.nodup_middle, List.nodup_cons]

lemma not_mem_namesOf_insert (h : n ∉ namesOf (l ++ p :: r)) :
    p.name ≠ n ∧ n ∉ namesOf (l ++ r) := by
  simp only [namesOf, List.map_append, List.map_cons, List.mem_append, List.mem_cons,
    not_or] at h ⊢
  exact ⟨Ne.symm h.2.1, h.1, h.2.2⟩

/-- With different names, the rules of a nonterminal are those of its production. -/
lemma ruleSetOf_name_iff (hps : (namesOf ps).Nodup) (hp : p ∈ ps) :
    ruleSetOf ps p.name a ↔ a ∈ p.alternatives := by
  constructor
  · rintro ⟨q, hq, hname, ha⟩
    obtain rfl : q = p := List.inj_on_of_nodup_map hps hq hp hname
    exact ha
  · exact fun ha => ⟨p, hp, rfl, ha⟩

/-! ### Keeping languages -/

namespace KeepsLanguages

lemma refl (h : (namesOf ps).Nodup) : KeepsLanguages ps ps :=
  ⟨h, List.Subset.refl _, fun _ _ _ => Iff.rfl, fun _ => id⟩

lemma trans (h₁ : KeepsLanguages ps qs) (h₂ : KeepsLanguages qs rs) : KeepsLanguages ps rs where
  nodup := h₂.nodup
  names_subset := List.Subset.trans h₁.names_subset h₂.names_subset
  yields_iff n hn w := (h₁.yields_iff n hn w).trans (h₂.yields_iff n (h₁.names_subset hn) w)
  avoids t ht := h₂.avoids t (h₁.avoids t ht)

/-- Lists with the same names and the same rules. -/
lemma of_ruleSetOf_iff (hps : (namesOf ps).Nodup) (hnames : namesOf qs = namesOf ps)
    (h : ∀ n a, ruleSetOf qs n a ↔ ruleSetOf ps n a) : KeepsLanguages ps qs where
  nodup := hnames ▸ hps
  names_subset := hnames ▸ List.Subset.refl _
  yields_iff _ _ _ := ⟨.mono fun n a => (h n a).mpr, .mono fun n a => (h n a).mp⟩
  avoids _ ht n a ha := ht n a ((h n a).mp ha)

/-- What keeping languages means for the grammars that have the productions. -/
lemma language_eq {g g' : Grammar} (h : KeepsLanguages g.productions g'.productions)
    (hn : n ∈ g.nonterminals) : g.language n = g'.language n := by
  ext w
  rw [Grammar.mem_language_iff, Grammar.mem_language_iff]
  exact h.yields_iff n hn w

end KeepsLanguages

/-! ### The changes of single productions -/

/-- The change that a replacement of the leading nonterminal of an alternative makes to a
production: the other alternatives stay, and the phrase `rest` goes on from those of `q`. -/
def Elimination.replace (p q : Production) (rest : Phrase String) (others : List Alternative) :
    Production :=
  { p with alternatives := others ++ q.alternatives.map (· ++ rest) }

/-- The rules change by a substitution. -/
lemma Elimination.substitutes_replace {rest : Phrase String} {others : List Alternative}
    (hps : (namesOf (l ++ p :: r)).Nodup) (hq : q ∈ l ++ r)
    (hp : ∀ a, a ∈ p.alternatives ↔ a = .nonterminal q.name :: rest ∨ a ∈ others) :
    RuleSet.Substitutes (ruleSetOf (l ++ p :: r)) (ruleSetOf (l ++ replace p q rest others :: r))
      (ruleSetOf (l ++ { p with alternatives := others } :: r)) p.name q.name rest := by
  obtain ⟨hname, hlr⟩ := nodup_namesOf_insert.mp hps
  have hqp : q.name ≠ p.name := fun h => hname (h ▸ List.mem_map_of_mem hq)
  have hR (b : Alternative) : ruleSetOf (l ++ { p with alternatives := others } :: r) q.name b ↔
      b ∈ q.alternatives := by
    simp only [ruleSetOf_insert, ruleSetOf_name_iff hlr hq]
    simp [hqp]
  refine ⟨hqp, fun n a => ?_, fun n a => ?_⟩
  · simp only [ruleSetOf_insert, hp]
    tauto
  · simp only [hR]
    simp only [replace, ruleSetOf_insert, List.mem_append, List.mem_map, eq_comm (a := a)]
    tauto

/-- Replacing a leading nonterminal by its alternatives keeps the languages. -/
lemma KeepsLanguages.substitute {rest : Phrase String} {others : List Alternative}
    (hps : (namesOf (l ++ p :: r)).Nodup) (hq : q ∈ l ++ r)
    (hp : ∀ a, a ∈ p.alternatives ↔ a = .nonterminal q.name :: rest ∨ a ∈ others) :
    KeepsLanguages (l ++ p :: r) (l ++ Elimination.replace p q rest others :: r) := by
  have hsub := Elimination.substitutes_replace hps hq hp
  have hnames : namesOf (l ++ Elimination.replace p q rest others :: r) =
      namesOf (l ++ p :: r) := by simp [Elimination.replace]
  refine ⟨hnames ▸ hps, hnames ▸ List.Subset.refl _, fun n _ w => hsub.yields_iff,
    fun t ht n a ha => ?_⟩
  rcases (hsub.new_iff n a).mp ha with ha | ⟨rfl, b, hb, rfl⟩
  · exact ht n a (hsub.kept ha)
  · have h₁ := ht _ b (hsub.kept hb)
    have h₂ := ht _ _ hsub.replaced
    simp only [List.mem_cons, not_or] at h₂
    simp [h₁, h₂.2]

lemma not_mem_mentionedNames_iff {T : String} : T ∉ mentionedNames ps ↔
    T ∉ namesOf ps ∧ ∀ n a, ruleSetOf ps n a → T ∉ Phrase.nonterminals a := by
  simp only [mem_mentionedNames, ruleSetOf, namesOf, List.mem_map, not_exists, not_and, not_or]
  constructor
  · intro h
    refine ⟨fun p hp hT => (h p hp).1 hT.symm, ?_⟩
    rintro n a ⟨p, hp, -, ha⟩
    exact (h p hp).2 a ha
  · rintro ⟨h₁, h₂⟩ p hp
    exact ⟨fun hT => h₁ p hp hT.symm, fun a ha => h₂ p.name a ⟨p, hp, rfl, ha⟩⟩

lemma nonterminal_not_mem_of_fresh {T : String} (hT : T ∉ mentionedNames ps) (hp : p ∈ ps)
    (ha : a ∈ p.alternatives) : .nonterminal T ∉ a := fun hTa =>
  (not_mem_mentionedNames_iff.mp hT).2 p.name a ⟨p, hp, rfl, ha⟩ (Phrase.mem_nonterminals.mpr hTa)

lemma Phrase.leading?_eq_some_iff {ν : Type} {p : Phrase ν} {n : ν} :
    p.leading? = some n ↔ ∃ r, p = .nonterminal n :: r := by
  match p with
  | [] => simp [leading?]
  | .terminal t :: r => simp [leading?]
  | .nonterminal m :: r => simp [leading?]

/-- An alternative of the production begins with the nonterminal. -/
def Production.LeadsTo (p : Production) (n : String) : Prop :=
  ∃ a ∈ p.alternatives, a.leading? = some n

lemma Elimination.isRecursive_iff : isRecursive n a = true ↔ ∃ c, a = .nonterminal n :: c := by
  rw [isRecursive, beq_iff_eq, Phrase.leading?_eq_some_iff]

section

variable {T : String}

/-- The phrases that follow the nonterminal of a production in its recursive alternatives. -/
def Recurring (p : Production) (c : Phrase String) : Prop :=
  .nonterminal p.name :: c ∈ p.alternatives

/-- The alternatives of a production that do not begin with its nonterminal. -/
def NonRecurring (p : Production) (d : Phrase String) : Prop :=
  d ∈ p.alternatives ∧ ∀ c, d ≠ .nonterminal p.name :: c

lemma nonRecurring_iff {d : Phrase String} :
    NonRecurring p d ↔ d ∈ p.alternatives ∧ ¬ Elimination.isRecursive p.name d = true := by
  rw [Elimination.isRecursive_iff, not_exists]
  exact Iff.rfl

lemma mem_alternatives_iff_recurring : a ∈ p.alternatives ↔
    NonRecurring p a ∨ ∃ c, Recurring p c ∧ a = .nonterminal p.name :: c := by
  constructor
  · intro ha
    by_cases h : ∃ c, a = .nonterminal p.name :: c
    · obtain ⟨c, rfl⟩ := h
      exact .inr ⟨c, ha, rfl⟩
    · exact .inl ⟨ha, not_exists.mp h⟩
  · rintro (h | ⟨c, hc, rfl⟩)
    · exact h.1
    · exact hc

lemma mem_splitRecursion_fst : a ∈ (Elimination.splitRecursion p T).1.alternatives ↔
    ∃ d, NonRecurring p d ∧ a = d ++ [.nonterminal T] := by
  simp only [Elimination.splitRecursion, List.partition_eq_filter_filter, List.mem_map,
    List.mem_filter, nonRecurring_iff, Function.comp, Bool.not_eq_true, Bool.not_eq_eq_eq_not,
    Bool.not_true, eq_comm (a := a)]

lemma mem_splitRecursion_snd : a ∈ (Elimination.splitRecursion p T).2.alternatives ↔
    RuleSet.Repeats (Recurring p) T a := by
  simp only [Elimination.splitRecursion, List.partition_eq_filter_filter, List.mem_append,
    List.mem_map, List.mem_filter, List.mem_singleton, Elimination.isRecursive_iff]
  constructor
  · rintro (⟨_, ⟨hc, c, rfl⟩, rfl⟩ | rfl)
    · exact .inr ⟨c, hc, rfl⟩
    · exact .inl rfl
  · rintro (rfl | ⟨c, hc, rfl⟩)
    · exact .inr rfl
    · exact .inl ⟨_, ⟨hc, c, rfl⟩, rfl⟩

/-- The names after a production has been split in two, of which the second one has a new name. -/
lemma nodup_and_subset_of_split {x y : Production} (hx : x.name = p.name)
    (hps : (namesOf (l ++ p :: r)).Nodup) (hy : y.name ∉ namesOf (l ++ p :: r)) :
    (namesOf (l ++ x :: y :: r)).Nodup ∧ namesOf (l ++ p :: r) ⊆ namesOf (l ++ x :: y :: r) := by
  have hperm : (namesOf (l ++ x :: y :: r)).Perm (y.name :: namesOf (l ++ p :: r)) := by
    simp only [namesOf, List.map_append, List.map_cons, hx]
    exact (List.perm_middle.trans (.cons _ List.perm_middle)).trans
      ((List.Perm.swap ..).trans (.cons _ List.perm_middle.symm))
  exact ⟨hperm.nodup_iff.mpr (List.nodup_cons.mpr ⟨hy, hps⟩),
    fun n hn => hperm.mem_iff.mpr (List.mem_cons_of_mem _ hn)⟩

/-- Turning left recursion into right recursion keeps the languages. -/
lemma KeepsLanguages.splitRecursion (hps : (namesOf (l ++ p :: r)).Nodup)
    (hT : T ∉ mentionedNames (l ++ p :: r)) :
    KeepsLanguages (l ++ p :: r)
      (l ++ (Elimination.splitRecursion p T).1 :: (Elimination.splitRecursion p T).2 :: r) := by
  obtain ⟨hTnames, hTrefs⟩ := not_mem_mentionedNames_iff.mp hT
  obtain ⟨hname, hlr⟩ := nodup_namesOf_insert.mp hps
  obtain ⟨hpT, hTlr⟩ := not_mem_namesOf_insert hTnames
  have hP (n : String) (a : Alternative) : ruleSetOf (l ++ p :: r) n a ↔ ruleSetOf (l ++ r) n a ∨
      n = p.name ∧ (NonRecurring p a ∨ ∃ c, Recurring p c ∧ a = .nonterminal p.name :: c) := by
    rw [ruleSetOf_insert, mem_alternatives_iff_recurring]
  set x := (Elimination.splitRecursion p T).1
  set y := (Elimination.splitRecursion p T).2
  have hQ (n : String) (a : Alternative) : ruleSetOf (l ++ x :: y :: r) n a ↔
      ruleSetOf (l ++ r) n a ∨ n = p.name ∧ (∃ d, NonRecurring p d ∧ a = d ++ [.nonterminal T]) ∨
        n = T ∧ RuleSet.Repeats (Recurring p) T a := by
    rw [ruleSetOf_insert, mem_splitRecursion_fst, ruleSetOf_insert, mem_splitRecursion_snd,
      or_assoc]
    exact or_congr_right or_comm
  obtain ⟨hnodup, hsub⟩ :=
    nodup_and_subset_of_split (p := p) (x := x) (y := y) rfl hps hTnames
  refine ⟨hnodup, hsub, fun n hn w => ?_, fun t ht n a ha => ?_⟩
  · have hnT : T ∉ Phrase.nonterminals [.nonterminal n] := by
      simpa using (ne_of_mem_of_not_mem hn hTnames).symm
    exact RuleSet.yields_unrecurse_iff hP hQ hpT (fun a h => hname (mem_namesOf_of_rule h))
      (fun a h => hTlr (mem_namesOf_of_rule h)) hTrefs hnT
  · rcases (hQ n a).mp ha with ha | ⟨rfl, d, hd, rfl⟩ | ⟨rfl, rfl | ⟨c, hc, rfl⟩⟩
    · exact ht n a ((hP n a).mpr (.inl ha))
    · simpa using ht _ d ((hP _ d).mpr (.inr ⟨rfl, .inl hd⟩))
    · exact List.not_mem_nil
    · simpa using ht _ _ ((hP _ _).mpr (.inr ⟨rfl, .inr ⟨c, hc, rfl⟩⟩))

/-! ### Common phrases -/

/-- What comes after a phrase in the alternatives of a production that begin with it. -/
def Continues (p : Production) (phrase d : Phrase String) : Prop := phrase ++ d ∈ p.alternatives

/-- The production without the alternatives that begin with a phrase. -/
def Production.without (p : Production) (phrase : Alternative) : Production :=
  { p with alternatives := p.alternatives.filter (! phrase.isPrefixOf ·) }

lemma mem_alternatives_iff_continues (phrase : Alternative) : a ∈ p.alternatives ↔
    a ∈ (p.without phrase).alternatives ∨ ∃ d, Continues p phrase d ∧ a = phrase ++ d := by
  simp only [Production.without, List.mem_filter, Bool.not_eq_eq_eq_not, Bool.not_true,
    Bool.eq_false_iff, ne_eq, List.isPrefixOf_iff_prefix]
  constructor
  · intro ha
    by_cases h : phrase <+: a
    · obtain ⟨d, rfl⟩ := h
      exact .inr ⟨d, ha, rfl⟩
    · exact .inl ⟨ha, h⟩
  · rintro (h | ⟨d, hd, rfl⟩)
    · exact h.1
    · exact hd

lemma mem_splitShared_fst {phrase : Alternative} : a ∈ (p.splitShared phrase T).1.alternatives ↔
    a ∈ (p.without phrase).alternatives ∨ a = phrase ++ [.nonterminal T] := by
  simp [Production.splitShared, Production.without, List.partition_eq_filter_filter]

lemma mem_splitShared_snd {phrase : Alternative} : a ∈ (p.splitShared phrase T).2.alternatives ↔
    Continues p phrase a := by
  simp only [Production.splitShared, List.partition_eq_filter_filter, List.mem_map,
    List.mem_filter, List.isPrefixOf_iff_prefix]
  constructor
  · rintro ⟨_, ⟨hb, d, rfl⟩, rfl⟩
    rw [List.drop_left]
    exact hb
  · exact fun h => ⟨phrase ++ a, ⟨h, a, rfl⟩, List.drop_left⟩

/-- The rules change by a factorization. -/
lemma Production.factors_splitShared {phrase : Alternative}
    (hT : T ∉ mentionedNames (l ++ p :: r)) :
    RuleSet.Factors (ruleSetOf (l ++ p :: r))
      (ruleSetOf (l ++ (p.splitShared phrase T).1 :: (p.splitShared phrase T).2 :: r))
      (ruleSetOf (l ++ p.without phrase :: r)) p.name T phrase (Continues p phrase) := by
  obtain ⟨hTnames, hTrefs⟩ := not_mem_mentionedNames_iff.mp hT
  obtain ⟨hpT, hTlr⟩ := not_mem_namesOf_insert hTnames
  refine ⟨hpT, fun n a => ?_, fun n a => ?_, fun a h => hTnames ?_, hTrefs⟩
  · rw [ruleSetOf_insert, mem_alternatives_iff_continues phrase]
    simp only [ruleSetOf_insert, and_or_left, or_assoc]
    rfl
  · rw [ruleSetOf_insert, mem_splitShared_fst, ruleSetOf_insert, mem_splitShared_snd]
    simp only [ruleSetOf_insert, and_or_left]
    rw [or_assoc, or_assoc, or_comm (a := n = _ ∧ Continues p phrase a), or_assoc]
    rfl
  · simpa [without] using mem_namesOf_of_rule h

/-- Taking a common phrase out of alternatives keeps the languages. -/
lemma KeepsLanguages.splitShared {phrase : Alternative} (hps : (namesOf (l ++ p :: r)).Nodup)
    (hT : T ∉ mentionedNames (l ++ p :: r)) (hphrase : ∃ d, Continues p phrase d) :
    KeepsLanguages (l ++ p :: r)
      (l ++ (p.splitShared phrase T).1 :: (p.splitShared phrase T).2 :: r) := by
  have hTnames := (not_mem_mentionedNames_iff.mp hT).1
  have hfac : RuleSet.Factors _ _ _ p.name T phrase (Continues p phrase) :=
    Production.factors_splitShared hT
  obtain ⟨hnodup, hsub⟩ := nodup_and_subset_of_split (p := p)
    (x := (p.splitShared phrase T).1) (y := (p.splitShared phrase T).2) rfl hps hTnames
  refine ⟨hnodup, hsub, fun n hn w => ?_, fun t ht n a ha => ?_⟩
  · exact hfac.yields_iff (by simpa using (ne_of_mem_of_not_mem hn hTnames).symm)
  · rcases (hfac.new_iff n a).mp ha with ha | ⟨rfl, rfl⟩ | ⟨rfl, hd⟩
    · exact ht n a (hfac.kept ha)
    · obtain ⟨d, hd⟩ := hphrase
      have := ht _ _ (hfac.joined hd)
      simp only [List.mem_append, not_or] at this
      simpa using this.1
    · have := ht _ _ (hfac.joined hd)
      simp only [List.mem_append, not_or] at this
      exact this.2

/-! ### Canonical form -/

lemma KeepsLanguages.toCanonical (hps : (namesOf ps).Nodup) :
    KeepsLanguages ps (ps.map Production.toCanonical) := by
  refine of_ruleSetOf_iff hps (by simp [Production.toCanonical]) fun n a => ?_
  simp [ruleSetOf, Production.toCanonical, mem_canonical]

end

end

end LL1
