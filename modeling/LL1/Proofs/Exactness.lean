/-
# FIRST and FOLLOW in terms of derivations

The loops that compute FIRST and FOLLOW come to an end, and what they come to is what the rules
derive.  FIRST of a phrase has the terminals with which something begins that the phrase derives,
and the marker if the phrase can be erased.  FOLLOW of a nonterminal has the terminals that stand
behind it in something that any nonterminal derives, and the end of the source if the nonterminal
ends something that the start symbol derives.
-/
import LL1.Proofs.Ambiguity
import LL1.Proofs.Transformation

namespace LL1

namespace RuleSet

variable {ν : Type} {P : RuleSet ν} {F : ν → Terminal → Prop} {p q : Phrase ν} {i j : ν}
  {s : TerminalSet} {t : Terminal}

/-- The set has the terminals with which phrases begin that `p` derives, and the marker if and only
if `p` derives the empty phrase. -/
structure IsFirst (P : RuleSet ν) (p : Phrase ν) (s : TerminalSet) : Prop where
  mem_iff : ∀ t, t ≠ .epsilon → (t ∈ s ↔ ∃ q, P.Derives p (.terminal t :: q))
  epsilon_mem_iff : .epsilon ∈ s ↔ P.Derives p []

lemma isFirst_of_mem_iff (h : ∀ t, t ∈ s ↔ P.First p t) : P.IsFirst p s where
  mem_iff t ht := by rw [h, first_of_ne ht, exists_derives_cons_iff]
  epsilon_mem_iff := by rw [h, first_epsilon, derives_nil_iff]

lemma CallsFor.of_rewrites (h : P.Rewrites p q) (hq : P.CallsFor F i t q) : P.CallsFor F i t p :=
  hq.imp (Begins.of_rewrites h) (And.imp_left (Erasable.of_rewrites h))

/-- A terminal calls for a phrase because the first part can begin with it, or because that can be
erased and the terminal calls for the rest. -/
lemma callsFor_append_iff :
    P.CallsFor F j t (p ++ q) ↔ P.Begins p [t] ∨ P.Erasable p ∧ P.CallsFor F j t q := by
  rw [CallsFor, CallsFor, begins_append_singleton_iff]
  constructor
  · rintro ((hp | ⟨hp, hq⟩) | ⟨he, hj⟩)
    · exact .inl hp
    · exact .inr ⟨hp, .inl hq⟩
    · exact .inr ⟨he.of_append.1, .inr ⟨he.of_append.2, hj⟩⟩
  · rintro (hp | ⟨hp, hq | ⟨hq, hj⟩⟩)
    · exact .inl (.inl hp)
    · exact .inl (.inr ⟨hp, hq⟩)
    · exact .inr ⟨hp.append hq, hj⟩

/-- **Whatever stands behind a nonterminal follows it**, also if it comes to stand there only after
many replacements: what the rest of a derived phrase can begin with, and if the rest can be erased,
what follows the nonterminal that the phrase is derived from. -/
theorem Follows.of_derives (h : P.Follows F) (ht : t ≠ .epsilon) {u v : Phrase ν}
    (hd : P.Derives [.nonterminal j] (u ++ .nonterminal i :: v)) (hv : P.CallsFor F j t v) :
    F i t := by
  generalize hq : u ++ .nonterminal i :: v = q at hd
  induction hd generalizing u i v with
  | refl =>
    obtain ⟨rfl, hi, rfl⟩ : u = [] ∧ i = j ∧ v = [] := by
      cases u with
      | nil => simpa using hq
      | cons s u => exact absurd (congrArg List.length hq) (by simp)
    subst hi
    rcases hv with hbegins | ⟨-, hi⟩
    · exact absurd hbegins (by rintro ⟨⟩)
    · exact hi
  | tail _ hstep ih =>
    subst hq
    rcases hstep.cases_of_mem with ⟨v', rfl, hv'⟩ | ⟨x, n, y, l, r, rfl, hn, rfl, rfl⟩ |
      ⟨u', rfl, -⟩
    · exact ih (.of_rewrites hv' hv) rfl
    · -- the nonterminal has come with an alternative of `n`, so what follows `n` may follow it
      refine h n l i r t hn ht ?_
      rcases callsFor_append_iff.mp hv with hr | ⟨hr, hy⟩
      · exact .inl hr
      · exact .inr ⟨hr, ih hy rfl⟩
    · exact ih hv rfl

end RuleSet

namespace Rules

variable {r : Rules} {g : Grammar}

/-! ### FIRST -/

/-- FIRST passes over the marker in a phrase. -/
lemma firstOfPhrase_filter (f : SetFamily) (p : Phrase Nat) :
    firstOfPhrase f (p.filter (· ≠ .terminal .epsilon)) = firstOfPhrase f p := by
  induction p with
  | nil => rfl
  | cons s p ih =>
    by_cases hs : s = .terminal .epsilon
    · rw [List.filter_cons_of_neg (by simpa using hs), ih, hs, firstOfPhrase]
    · rw [List.filter_cons_of_pos (by simpa using hs)]
      cases s with
      | nonterminal i => rw [firstOfPhrase, firstOfPhrase, ih]
      | terminal k =>
        have hk : k ≠ .epsilon := fun h => hs (congrArg Symbol.terminal h)
        rw [firstOfPhrase, firstOfPhrase]
        · exact hk
        · exact hk

lemma settles_firstSets (r : Rules) :
    Saturated.Settles r.firstDemands (.ofSize r.size) r.firstFollow.first :=
  settles_saturate fun _ => target_lt_of_mem_firstDemands

/-- **FIRST is exact.**  The loop ends by itself; FIRST of a phrase tells what the phrase derives,
for the phrases over the symbols of the rules, to which the marker does not belong; and FIRST of a
nonterminal tells what the nonterminal derives. -/
theorem isFirst_phraseFirst (hg : g.Reachable) (hr : resolve g = .ok r) :
    Saturated.Settles r.firstDemands (.ofSize r.size) r.firstFollow.first ∧
    (∀ p, .terminal .epsilon ∉ p → r.ruleSet.IsFirst p (r.firstFollow.phraseFirst p)) ∧
    (∀ p, r.firstFollow.phraseFirst (p.filter (· ≠ .terminal .epsilon)) =
      r.firstFollow.phraseFirst p) ∧
    ∀ i, r.ruleSet.IsFirst [.nonterminal i] (r.firstFollow.firstOf i) ∧
      (r.firstFollow.isNullable i = true ↔ r.ruleSet.Derives [.nonterminal i] []) := by
  have hε := avoids_resolve hr hg.wellFormed.noMarker
  have hfirst (i : Nat) : r.ruleSet.IsFirst [.nonterminal i] (r.firstFollow.firstOf i) :=
    RuleSet.isFirst_of_mem_iff fun t => mem_firstOf_iff hε
  refine ⟨settles_firstSets r, fun p hp => ?_, fun p => firstOfPhrase_filter _ p,
    fun i => ⟨hfirst i, ?_⟩⟩
  · exact RuleSet.isFirst_of_mem_iff fun t => mem_phraseFirst_iff hε hp
  · rw [← (hfirst i).epsilon_mem_iff, TerminalSet.mem_iff_contains]
    rfl

end Rules

/-- The rules of lists of words. -/
def wordListRules : Rules where
  rules := #[⟨"word", [[.terminal .comma]]⟩, ⟨"list", [[.terminal .star, .nonterminal 2]]⟩,
    ⟨"list_tail1", [[], [.nonterminal 0, .nonterminal 2]]⟩]
  start := 0

lemma resolve_wordList : ∃ n, wordList.normalize 3 = some n ∧ n.grammar.Reachable ∧
    Rules.resolve n.grammar = .ok wordListRules := by
  have hdefine : Grammar.define [.rule "word" [.terminal .comma],
      .rule "list" [.nonterminal "list", .nonterminal "word"],
      .rule "list" [.terminal .star]] = .ok wordList := by decide +kernel
  have h : (wordList.normalize 3).map (Rules.resolve ·.grammar) = some (.ok wordListRules) := by
    decide +kernel
  obtain ⟨n, hn, hr⟩ := Option.map_eq_some_iff.mp h
  exact ⟨n, hn, (Grammar.reachable_of_define hdefine).normalize hn, hr⟩

/-- The rest of a list can be erased, so that a star behind it comes to the front.  Otherwise it
begins with a word, which is a comma. -/
theorem Rules.isFirst_wordListRules : ∃ n, wordList.normalize 3 = some n ∧ n.grammar.Reachable ∧
    resolve n.grammar = .ok wordListRules ∧
    wordListRules.ruleSet.Derives [.nonterminal 2] [] ∧
    (.terminal .epsilon : Symbol Nat) ∉ [.nonterminal 2, .terminal .star] ∧
    (∃ q, wordListRules.ruleSet.Derives [.nonterminal 2, .terminal .star]
      (.terminal .star :: q)) ∧
    (∃ q, wordListRules.ruleSet.Derives [.nonterminal 2, .terminal .star]
      (.terminal .comma :: q)) ∧
    ¬ wordListRules.ruleSet.Derives [.nonterminal 2, .terminal .star] [] := by
  obtain ⟨n, hn, hreachable, hr⟩ := resolve_wordList
  obtain ⟨-, hphrase, -, hsingle⟩ := isFirst_phraseFirst hreachable hr
  have hmarker : (.terminal .epsilon : Symbol Nat) ∉ [.nonterminal 2, .terminal .star] := by decide
  have hfirst := hphrase [.nonterminal 2, .terminal .star] hmarker
  refine ⟨n, hn, hreachable, hr, (hsingle 2).2.mp (by decide +kernel), hmarker, ?_, ?_, ?_⟩
  · exact (hfirst.mem_iff .star (by decide)).mp (by decide +kernel)
  · exact (hfirst.mem_iff .comma (by decide)).mp (by decide +kernel)
  · exact hfirst.epsilon_mem_iff.not.mp (by decide +kernel)

namespace Rules

variable {r : Rules} {g : Grammar} {i : Nat} {t : Terminal}

/-! ### FOLLOW -/

/-- The terminal stands behind the nonterminal in something that a nonterminal of the rules derives,
or it is the end of the source, and something that the start symbol derives ends in the
nonterminal. -/
def StandsBehind (r : Rules) (i : Nat) (t : Terminal) : Prop :=
  (∃ j < r.size, ∃ u v,
      r.ruleSet.Derives [.nonterminal j] (u ++ .nonterminal i :: .terminal t :: v)) ∨
    t = .endOfInput ∧ ∃ u, r.ruleSet.Derives [.nonterminal r.start] (u ++ [.nonterminal i])

lemma StandsBehind.ne_epsilon (h : r.StandsBehind i t) (hε : r.ruleSet.Avoids .epsilon) :
    t ≠ .epsilon := by
  rintro rfl
  rcases h with ⟨j, -, u, v, hd⟩ | ⟨h, -⟩
  · exact hd.not_mem hε (by simp) (by simp)
  · exact absurd h (by simp)

/-- FOLLOW contains only what can stand behind a nonterminal. -/
lemma standsBehind_of_mem_followOf (hε : r.ruleSet.Avoids .epsilon)
    (h : t ∈ r.firstFollow.followOf i) : t ≠ .epsilon ∧ r.StandsBehind i t := by
  refine followOf_induction hε (.inr ⟨rfl, [], .refl⟩) ?_ h
  intro i l j v t ha _ hv
  rcases hv with hbegins | ⟨herase, ⟨k, hk, x, y, hi⟩ | ⟨rfl, x, hi⟩⟩
  · obtain ⟨c, hc⟩ := RuleSet.exists_derives_cons_iff.mpr hbegins
    have hi : r.ruleSet.Derives [.nonterminal i] ([] ++ .nonterminal i :: []) := .refl
    exact .inl ⟨i, lt_size_of_rule ha, _, _, hi.replace_inside ha hc⟩
  · have hv := RuleSet.derives_nil_iff.mpr herase
    exact .inl ⟨k, hk, _, _, hi.replace_inside ha hv⟩
  · have hv := RuleSet.derives_nil_iff.mpr herase
    exact .inr ⟨rfl, _, hi.replace_inside ha hv⟩

/-- FOLLOW contains all that can stand behind a nonterminal. -/
lemma mem_followOf_of_standsBehind (hr : r.WellFormed) (hε : r.ruleSet.Avoids .epsilon)
    (ht : t ≠ .epsilon) (h : r.StandsBehind i t) : t ∈ r.firstFollow.followOf i := by
  rcases h with ⟨j, -, u, v, hd⟩ | ⟨rfl, u, hd⟩
  · exact (follows hr hε).of_derives ht hd (.inl (.terminal .nil))
  · exact (follows hr hε).of_derives ht hd (.inr ⟨.nil, endOfInput_mem_followOf_start hr⟩)

lemma settles_followSets (hr : r.WellFormed) :
    Saturated.Settles (r.followDemands r.firstFollow.first.family)
      ((SetFamily.ofSize r.size).add r.start (.singleton .endOfInput)) r.firstFollow.follow :=
  settles_saturate fun _ => target_lt_of_mem_followDemands hr

/-- **FOLLOW is exact.**  The loop ends by itself, and FOLLOW of a nonterminal has what can stand
behind it. -/
theorem mem_followOf_iff_standsBehind (hg : g.Reachable) (hr : resolve g = .ok r) :
    Saturated.Settles (r.followDemands r.firstFollow.first.family)
      ((SetFamily.ofSize r.size).add r.start (.singleton .endOfInput)) r.firstFollow.follow ∧
    ∀ i, .epsilon ∉ r.firstFollow.followOf i ∧
      ∀ t, t ∈ r.firstFollow.followOf i ↔ r.StandsBehind i t := by
  have hε := avoids_resolve hr hg.wellFormed.noMarker
  have hwf := wellFormed_of_resolve hr
  refine ⟨settles_followSets hwf, fun i => ⟨fun h => ?_, fun t => ⟨fun h => ?_, fun h => ?_⟩⟩⟩
  · exact (standsBehind_of_mem_followOf hε h).1 rfl
  · exact (standsBehind_of_mem_followOf hε h).2
  · exact mem_followOf_of_standsBehind hwf hε (h.ne_epsilon hε) h

end Rules

/-- A word can stand before another one in the rest of a list, although the start symbol, which is
the word, does not derive any list.  Nothing comes behind a list itself. -/
theorem Rules.standsBehind_wordListRules : ∃ n, wordList.normalize 3 = some n ∧
    n.grammar.Reachable ∧ resolve n.grammar = .ok wordListRules ∧
    wordListRules.StandsBehind 0 .comma ∧ wordListRules.StandsBehind 0 .endOfInput ∧
    ¬ wordListRules.StandsBehind 0 .star ∧ ∀ t, ¬ wordListRules.StandsBehind 1 t := by
  obtain ⟨n, hn, hreachable, hr⟩ := resolve_wordList
  obtain ⟨-, hfollow⟩ := mem_followOf_iff_standsBehind hreachable hr
  refine ⟨n, hn, hreachable, hr, ((hfollow 0).2 .comma).mp (by decide +kernel),
    ((hfollow 0).2 .endOfInput).mp (by decide +kernel),
    ((hfollow 0).2 .star).not.mp (by decide +kernel), fun t => ((hfollow 1).2 t).not.mp ?_⟩
  have hnone : wordListRules.firstFollow.followOf 1 = ∅ := by decide +kernel
  rw [hnone]
  exact TerminalSet.not_mem_empty

end LL1
