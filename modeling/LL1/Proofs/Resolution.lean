/-
# Resolution keeps the languages

A grammar and its numbered rules are renamings of each other: nonterminals are numbered in their
order, and a number stands for the name at its position.  So a nonterminal yields the same
strings as its number.  All numbers in resolved rules belong to a nonterminal, which is what the
sets and tables that are computed from them rely on.
-/
import LL1.Proofs.WellFormed
import LL1.Rules.Resolution

namespace LL1

/-- The rules as a set. -/
def Rules.ruleSet (r : Rules) : RuleSet Nat := fun i a => a ∈ r.alternatives i

/-- Numbered rules in which every number belongs to a nonterminal. -/
structure Rules.WellFormed (r : Rules) : Prop where
  start_lt : r.start < r.size
  references_lt : ∀ i a, r.ruleSet i a → ∀ j ∈ Phrase.nonterminals a, j < r.size

lemma Rules.lt_size_of_rule {r : Rules} {i : Nat} {a : Phrase Nat} (h : r.ruleSet i a) :
    i < r.size := by
  unfold ruleSet alternatives at h
  by_contra hi
  rw [Array.getElem?_eq_none (by unfold size at hi; omega)] at h
  exact absurd h (by simp)

section

variable {names : List String} {referrer n : String} {a : Phrase String} {b : Phrase Nat} {i : Nat}
  {g : Grammar} {r : Rules} {w : List Terminal} {t : Terminal}

lemma forall₂_of_mapM {α β ε : Type} {f : α → Except ε β} {as : List α} {bs : List β}
    (h : as.mapM f = .ok bs) : List.Forall₂ (fun a b => f a = .ok b) as bs := by
  induction as generalizing bs with
  | nil =>
    obtain rfl : [] = bs := Except.ok.inj h
    exact .nil
  | cons a as ih =>
    simp only [List.mapM_cons, bind, Except.bind, pure, Except.pure] at h
    split at h
    · exact absurd h (by simp)
    · next b hb =>
      split at h
      · exact absurd h (by simp)
      · next bs' hbs =>
        obtain rfl := Except.ok.inj h
        exact .cons hb (ih hbs)

/-- The elements of a list and their values correspond to each other. -/
lemma mem_of_mapM {α β ε : Type} {f : α → Except ε β} {as : List α} {bs : List β}
    (h : as.mapM f = .ok bs) :
    (∀ a ∈ as, ∃ b ∈ bs, f a = .ok b) ∧ ∀ b ∈ bs, ∃ a ∈ as, f a = .ok b := by
  have hall := forall₂_of_mapM h
  clear h
  induction hall with
  | nil => simp
  | @cons a b as bs hab _ ih =>
    constructor
    · intro c hc
      rcases List.mem_cons.mp hc with rfl | hc
      · exact ⟨b, List.mem_cons_self, hab⟩
      · obtain ⟨d, hd, hcd⟩ := ih.1 c hc
        exact ⟨d, List.mem_cons_of_mem _ hd, hcd⟩
    · intro d hd
      rcases List.mem_cons.mp hd with rfl | hd
      · exact ⟨a, List.mem_cons_self, hab⟩
      · obtain ⟨c, hc, hcd⟩ := ih.2 d hd
        exact ⟨c, List.mem_cons_of_mem _ hc, hcd⟩

/-- A traversal fails with the failure of one of the elements. -/
lemma exists_of_mapM_eq_error {α β ε : Type} {f : α → Except ε β} {as : List α} {e : ε}
    (h : as.mapM f = .error e) : ∃ a ∈ as, f a = .error e := by
  induction as with
  | nil => exact absurd h (by simp [pure, Except.pure])
  | cons a as ih =>
    simp only [List.mapM_cons, bind, Except.bind, pure, Except.pure] at h
    split at h
    · next e' ha =>
      obtain rfl := Except.error.inj h
      exact ⟨a, List.mem_cons_self, ha⟩
    · split at h
      · next e' has =>
        obtain rfl := Except.error.inj h
        obtain ⟨b, hb, hbe⟩ := ih has
        exact ⟨b, List.mem_cons_of_mem _ hb, hbe⟩
      · exact absurd h (by simp)

/-- A traversal succeeds if it does for every element. -/
lemma exists_mapM_eq_ok_iff {α β ε : Type} {f : α → Except ε β} {as : List α} :
    (∃ bs, as.mapM f = .ok bs) ↔ ∀ a ∈ as, ∃ b, f a = .ok b := by
  constructor
  · rintro ⟨bs, h⟩ a ha
    obtain ⟨b, -, hb⟩ := (mem_of_mapM h).1 a ha
    exact ⟨b, hb⟩
  · intro h
    cases hbs : as.mapM f with
    | ok bs => exact ⟨bs, rfl⟩
    | error e =>
      obtain ⟨a, ha, he⟩ := exists_of_mapM_eq_error hbs
      obtain ⟨b, hb⟩ := h a ha
      exact absurd (he.symm.trans hb) (by simp)

/-- Traversals with functions that agree on the elements are the same. -/
lemma mapM_congr_left {α β ε : Type} {f f' : α → Except ε β} {as : List α}
    (h : ∀ a ∈ as, f a = f' a) : as.mapM f = as.mapM f' := by
  induction as with
  | nil => rfl
  | cons a as ih =>
    obtain ⟨ha, has⟩ := List.forall_mem_cons.mp h
    rw [List.mapM_cons, List.mapM_cons, ha, ih has]

lemma idxOf_of_idxOf?_eq_some (h : names.idxOf? n = some i) :
    names.idxOf n = i ∧ names.getD i "" = n ∧ i < names.length := by
  obtain ⟨hlt, hn, -⟩ := List.idxOf?_eq_some_iff.mp h
  refine ⟨by rw [List.idxOf_eq_getD_idxOf?, h]; rfl, ?_, hlt⟩
  rw [List.getD_eq_getElem?_getD, List.getElem?_eq_getElem hlt, hn]
  rfl

/-- A resolved phrase and the phrase with names are renamings of each other. -/
lemma Phrase.resolve_eq_ok (h : a.mapM (Symbol.resolve names referrer) = .ok b) :
    b = a.rename (names.idxOf ·) ∧ a = b.rename (names.getD · "") ∧
      ∀ i ∈ b.nonterminals, i < names.length := by
  have hall := forall₂_of_mapM h
  clear h
  induction hall with
  | nil => simp
  | @cons s s' a b hs _ ih =>
    obtain ⟨hb, ha, hlt⟩ := ih
    cases s with
    | terminal t =>
      obtain rfl : .terminal t = s' := Except.ok.inj hs
      rw [rename_terminal, rename_terminal, ← hb, ← ha]
      exact ⟨rfl, rfl, fun i hi => hlt i (by simpa using hi)⟩
    | nonterminal n =>
      rw [Symbol.resolve] at hs
      split at hs
      · next i hi =>
        obtain ⟨hidx, hget, hi⟩ := idxOf_of_idxOf?_eq_some hi
        obtain rfl := Except.ok.inj hs
        rw [rename_nonterminal, rename_nonterminal, ← hb, ← ha, hidx, hget]
        refine ⟨rfl, rfl, fun j hj => ?_⟩
        rw [Phrase.mem_nonterminals, List.mem_cons] at hj
        rcases hj with hj | hj
        · exact Symbol.nonterminal.inj hj ▸ hi
        · exact hlt j (by simpa using hj)
      · exact absurd hs (by simp)

/-- What a production is resolved to: its alternatives, of which there are not too many, are resolved
one by one and brought into canonical form. -/
lemma Production.resolve_eq_ok {p : Production} {rule : Rule} (h : p.resolve names = .ok rule) :
    p.alternatives.length ≤ numberLimit ∧
      ∃ phrases, p.alternatives.mapM (·.mapM (Symbol.resolve names p.name)) = .ok phrases ∧
        rule = ⟨p.name, canonical phrases⟩ := by
  simp only [Production.resolve, bind, Except.bind] at h
  split at h
  · exact absurd h (by simp)
  · next hlimit =>
    split at h
    · exact absurd h (by simp)
    · next phrases hphrases =>
      exact ⟨Nat.not_lt.mp hlimit, phrases, hphrases, (Except.ok.inj h).symm⟩

/-- A production cannot be resolved if it has too many alternatives or refers to something that
is not defined. -/
lemma Production.resolve_eq_error {p : Production} {e : GrammarError}
    (h : p.resolve names = .error e) :
    e = .tooManyAlternatives p.name ∨ ∃ n, e = .undefinedNonterminal n p.name := by
  simp only [Production.resolve, bind, Except.bind] at h
  split at h
  · exact .inl (Except.error.inj h).symm
  · split at h
    · next e' hphrases =>
      obtain rfl := Except.error.inj h
      obtain ⟨a, -, ha⟩ := exists_of_mapM_eq_error hphrases
      obtain ⟨s, -, hs⟩ := exists_of_mapM_eq_error ha
      rw [Symbol.resolve.eq_def] at hs
      split at hs
      · exact absurd hs (by simp)
      · next n =>
        split at hs
        · exact absurd hs (by simp)
        · exact .inr ⟨n, (Except.error.inj hs).symm⟩
    · exact absurd h (by simp)

namespace Rules

/-- What can be wrong with the names of a grammar or with their number. -/
lemma resolve_eq_error {e : GrammarError} (h : resolve g = .error e) :
    e = .tooManyNonterminals ∨ e = .unknownStartSymbol g.start ∨ ∃ p ∈ g.productions,
      e = .tooManyAlternatives p.name ∨ ∃ n, e = .undefinedNonterminal n p.name := by
  simp only [resolve, bind, Except.bind] at h
  split at h
  · exact .inl (Except.error.inj h).symm
  · split at h
    · next e' hrules =>
      obtain rfl := Except.error.inj h
      obtain ⟨p, hp, hpe⟩ := exists_of_mapM_eq_error hrules
      exact .inr (.inr ⟨p, hp, Production.resolve_eq_error hpe⟩)
    · split at h
      · exact absurd h (by simp)
      · exact .inr (.inl (Except.error.inj h).symm)

/-- The rule at a number comes from the production at that position. -/
lemma resolve_eq_ok (h : resolve g = .ok r) :
    List.Forall₂ (fun p rule => p.resolve g.nonterminals = .ok rule) g.productions
        r.rules.toList ∧
      g.nonterminals.idxOf? g.start = some r.start := by
  simp only [resolve, bind, Except.bind] at h
  split at h
  · exact absurd h (by simp)
  · split at h
    · exact absurd h (by simp)
    · next rules hrules =>
      split at h
      · next start hstart =>
        obtain rfl := Except.ok.inj h
        exact ⟨forall₂_of_mapM hrules, hstart⟩
      · exact absurd h (by simp)

lemma size_resolve (h : resolve g = .ok r) : r.size = g.nonterminals.length := by
  have hlen := (resolve_eq_ok h).1.length_eq
  rw [Grammar.nonterminals, List.length_map, hlen, Array.length_toList, size]

/-- The alternatives at a number are those of the production at that position, resolved. -/
lemma alternatives_resolve (h : resolve g = .ok r) (hi : i < g.productions.length) :
    ∃ phrases, g.productions[i].alternatives.mapM
        (·.mapM (Symbol.resolve g.nonterminals g.productions[i].name)) = .ok phrases ∧
      r.alternatives i = canonical phrases := by
  obtain ⟨hlen, hall⟩ := List.forall₂_iff_get.mp (resolve_eq_ok h).1
  obtain ⟨-, phrases, hphrases, hrule⟩ := Production.resolve_eq_ok (hall i hi (hlen ▸ hi))
  refine ⟨phrases, hphrases, ?_⟩
  have hr : r.rules[i]? = some (r.rules.toList.get ⟨i, hlen ▸ hi⟩) := by
    rw [← Array.getElem?_toList]
    exact List.getElem?_eq_getElem _
  rw [alternatives, hr, hrule]
  rfl

/-- A numbered alternative stands for an alternative with names. -/
lemma ruleSet_of_resolve (h : resolve g = .ok r) (hb : r.ruleSet i b) :
    g.ruleSet (g.nonterminals.getD i "") (b.rename (g.nonterminals.getD · "")) ∧
      ∀ j ∈ b.nonterminals, j < g.nonterminals.length := by
  have hi : i < g.productions.length := by
    have := lt_size_of_rule hb
    rwa [size_resolve h, Grammar.nonterminals, List.length_map] at this
  obtain ⟨phrases, hphrases, hr⟩ := alternatives_resolve h hi
  rw [ruleSet, hr, mem_canonical] at hb
  obtain ⟨a, ha, hab⟩ := (mem_of_mapM hphrases).2 b hb
  obtain ⟨-, rfl, hlt⟩ := Phrase.resolve_eq_ok hab
  exact ⟨⟨_, List.getElem_mem hi, by simp [Grammar.nonterminals, hi], ha⟩, hlt⟩

/-- An alternative with names is there with numbers. -/
lemma ruleSet_resolve (h : resolve g = .ok r) (hg : g.nonterminals.Nodup) (ha : g.ruleSet n a) :
    r.ruleSet (g.nonterminals.idxOf n) (a.rename (g.nonterminals.idxOf ·)) := by
  obtain ⟨p, hp, rfl, hmem⟩ := ha
  obtain ⟨i, hi, rfl⟩ := List.mem_iff_getElem.mp hp
  -- the names are different, so that of a production is first found at its position
  have hidx : g.nonterminals.idxOf (g.productions[i]).name = i := by
    have hi' : i < g.nonterminals.length := by simpa [Grammar.nonterminals] using hi
    simpa [Grammar.nonterminals] using hg.idxOf_getElem i hi'
  obtain ⟨phrases, hphrases, hr⟩ := alternatives_resolve h hi
  obtain ⟨b, hb, hab⟩ := (mem_of_mapM hphrases).1 a hmem
  obtain ⟨rfl, -, -⟩ := Phrase.resolve_eq_ok hab
  rw [hidx, ruleSet, hr, mem_canonical]
  exact hb

/-- The alternatives of a nonterminal are in canonical form. -/
lemma increasing_alternatives_resolve (h : resolve g = .ok r) (i : Nat) :
    Increasing (r.alternatives i) := by
  by_cases hi : i < g.productions.length
  · obtain ⟨phrases, -, hr⟩ := alternatives_resolve h hi
    rw [hr]
    exact increasing_canonical phrases
  · have hsize : ¬ i < r.size := by
      rwa [size_resolve h, Grammar.nonterminals, List.length_map]
    have hnone : r.alternatives i = [] := by
      rw [List.eq_nil_iff_forall_not_mem]
      exact fun a ha => hsize (lt_size_of_rule ha)
    rw [hnone]
    exact List.Pairwise.nil

/-- No nonterminal has an alternative twice. -/
lemma nodup_alternatives_resolve (h : resolve g = .ok r) (i : Nat) : (r.alternatives i).Nodup :=
  (increasing_alternatives_resolve h i).nodup

/-- Resolved rules are well-formed. -/
lemma wellFormed_of_resolve (h : resolve g = .ok r) : r.WellFormed where
  start_lt := by
    obtain ⟨-, -, hlt⟩ := idxOf_of_idxOf?_eq_some (resolve_eq_ok h).2
    rwa [size_resolve h]
  references_lt i b hb j hj := size_resolve h ▸ (ruleSet_of_resolve h hb).2 j hj

/-- The numbers of an alternative stand for its names. -/
lemma rename_getD_of_resolve (h : resolve g = .ok r) (hg : g.nonterminals.Nodup)
    (hb : r.ruleSet i b) :
    (b.rename (g.nonterminals.getD · "")).rename (g.nonterminals.idxOf ·) = b := by
  refine Phrase.rename_rename fun j hj => ?_
  have hlt : j < g.nonterminals.length := (ruleSet_of_resolve h hb).2 j hj
  rw [List.getD_eq_getElem?_getD, List.getElem?_eq_getElem hlt, Option.getD_some]
  exact hg.idxOf_getElem j hlt

/-- The names of an alternative are defined. -/
lemma mem_nonterminals_of_resolve (h : resolve g = .ok r) (hg : g.nonterminals.Nodup)
    (ha : g.ruleSet n a) {m : String} (hm : m ∈ a.nonterminals) : m ∈ g.nonterminals := by
  have hlt := (wellFormed_of_resolve h).references_lt _ _ (ruleSet_resolve h hg ha)
    (g.nonterminals.idxOf m) (Phrase.mem_nonterminals_rename hm)
  rwa [size_resolve h, List.idxOf_lt_length_iff] at hlt

lemma rename_idxOf_of_resolve (h : resolve g = .ok r) (hg : g.nonterminals.Nodup)
    (ha : g.ruleSet n a) :
    (a.rename (g.nonterminals.idxOf ·)).rename (g.nonterminals.getD · "") = a := by
  refine Phrase.rename_rename fun m hm => ?_
  have hlt := List.idxOf_lt_length_iff.mpr (mem_nonterminals_of_resolve h hg ha hm)
  rw [List.getD_eq_getElem?_getD, List.getElem?_eq_getElem hlt, Option.getD_some]
  exact List.getElem_idxOf hlt

lemma avoids_resolve (h : resolve g = .ok r) (ht : g.ruleSet.Avoids t) : r.ruleSet.Avoids t :=
  fun _ _ hb hmem => ht _ _ (ruleSet_of_resolve h hb).1 (Phrase.terminal_mem_rename hmem)

/-- **Resolution keeps the language of the start symbol.** -/
theorem yields_resolve_iff (h : resolve g = .ok r) (hg : g.nonterminals.Nodup) :
    r.ruleSet.Yields [.nonterminal r.start] w ↔ g.ruleSet.Yields [.nonterminal g.start] w := by
  obtain ⟨hidx, hget, -⟩ := idxOf_of_idxOf?_eq_some (resolve_eq_ok h).2
  constructor
  · intro hw
    have := hw.rename fun n a ha => (ruleSet_of_resolve h ha).1
    rwa [Phrase.rename_nonterminal, hget] at this
  · intro hw
    have := hw.rename fun n a ha => ruleSet_resolve h hg ha
    rwa [Phrase.rename_nonterminal, hidx] at this

end Rules

end

end LL1
