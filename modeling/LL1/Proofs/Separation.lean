/-
# Separated rules

Of rules without useless nonterminals, LL(1) can be said in terms of whole strings: two strings
from different alternatives of a nonterminal do not begin with the same token and are not both
empty, and if a nonterminal can be empty, then none of its strings begins with a token that can
follow it.  In this form the property passes through transformations that do not change what is
derived.  It is kept if a leading nonterminal is replaced by its alternatives, and if a common
phrase is taken out of alternatives, which can only be a phrase that derives nothing but the empty
string.

Separated rules have no left recursion, not even behind symbols that are erased.  A nonterminal that
leads on to another one begins with every token that this one begins with.  As long as they begin
with the same tokens, a string that begins with such a token is derived by the same alternative at
every nonterminal that is come upon, and so is the empty string if there is no token; the derivation
of this string gets smaller on the way.
-/
import LL1.Proofs.Conflict
import LL1.Proofs.Unfolding
import Mathlib.Data.Fintype.OfMap
import Mathlib.Data.Fintype.Powerset
import Mathlib.Order.CompletePartialOrder
import Mathlib.Order.WellFounded

namespace LL1.RuleSet

variable {ν μ : Type} {P Q R : RuleSet ν} {Q' : RuleSet μ} {F : ν → Terminal → Prop} {n m : ν}
  {a b p q : Phrase ν} {t : Terminal} {u v w : List Terminal}

/-- Every alternative derives some string, and no token tells more than one thing about a
nonterminal: which alternative it comes from, or that it comes after the nonterminal. -/
structure Separated (P : RuleSet ν) (F : ν → Terminal → Prop) : Prop where
  productive : ∀ n a, P n a → ∃ w, P.Yields a w
  first_first : ∀ n a b u v, P n a → P n b → P.Yields a u → P.Yields b v → u.head? = v.head? → a = b
  first_follow : ∀ n t w, P.Yields [.nonterminal n] [] → P.Yields [.nonterminal n] (t :: w) → ¬ F n t
  follow_first : ∀ i p j q t w, P i (p ++ .nonterminal j :: q) → P.Yields q (t :: w) → F j t
  follow_follow : ∀ i p j q t, P i (p ++ .nonterminal j :: q) → P.Yields q [] → F i t → F j t

/-- What stands behind a nonterminal in an alternative derives some string. -/
lemma Separated.exists_yields_behind (h : P.Separated F) (hrule : P n (p ++ .nonterminal m :: q)) :
    ∃ w, P.Yields q w := by
  obtain ⟨w, hw⟩ := h.productive n _ hrule
  obtain ⟨-, v, -, -, hv⟩ := yields_append_iff.mp hw
  obtain ⟨-, v, -, -, hv⟩ := yields_cons_nonterminal_iff.mp hv
  exact ⟨v, hv⟩

/-! ### LL(1) rules and separated rules -/

/-- **LL(1) rules without useless nonterminals are separated.** -/
theorem IsLL1.separated (h : P.IsLL1 F) (hF : P.Follows F) (hne : ∀ n t, F n t → t ≠ .epsilon)
    (hε : P.Avoids .epsilon) (hproductive : ∀ n a, P n a → ∃ w, P.Yields a w) :
    P.Separated F where
  productive := hproductive
  first_first n a b u v ha hb hu hv hhead := by
    match u, v with
    | [], [] =>
      refine h.first_first n a b .epsilon ha hb ?_ ?_
      · exact first_epsilon.mpr (yields_nil_iff.mp hu)
      · exact first_epsilon.mpr (yields_nil_iff.mp hv)
    | t :: u, t' :: v =>
      obtain rfl : t = t' := Option.some.inj hhead
      have ht : t ≠ .epsilon := fun hte => hu.not_mem hε (hε n a ha) (hte ▸ List.mem_cons_self)
      refine h.first_first n a b t ha hb ?_ ?_
      · exact (first_of_ne ht).mpr hu.begins
      · exact (first_of_ne ht).mpr hv.begins
    | [], _ :: _ => exact absurd hhead (by simp)
    | _ :: _, [] => exact absurd hhead (by simp)
  first_follow n t w hempty hw := by
    have ht : t ≠ .epsilon := fun hte => hw.not_mem hε (by simp) (hte ▸ List.mem_cons_self)
    exact h.first_follow n t ht (yields_nil_iff.mp hempty) hw.begins
  follow_first i p j q t w hrule hw := by
    have hq : .terminal .epsilon ∉ q := fun hmem => hε i _ hrule (by simp [hmem])
    have ht : t ≠ .epsilon := fun hte => hw.not_mem hε hq (hte ▸ List.mem_cons_self)
    exact hF i p j q t hrule ht (.inl hw.begins)
  follow_follow i p j q t hrule hempty hi :=
    hF i p j q t hrule (hne i t hi) (.inr ⟨yields_nil_iff.mp hempty, hi⟩)

/-- If every alternative derives some string, then a beginning can be completed. -/
lemma Begins.exists_yields (hproductive : ∀ n a, P n a → ∃ w, P.Yields a w)
    (hp : ∃ w, P.Yields p w) (h : P.Begins p [t]) : ∃ w, P.Yields p (t :: w) := by
  generalize hv : [t] = v at h
  induction h with
  | nil => exact absurd hv (by simp)
  | @terminal s p _ _ _ =>
    obtain ⟨rfl, -⟩ := List.cons.inj hv
    obtain ⟨w, hw⟩ := hp
    cases hw with
    | terminal hw => exact ⟨_, .terminal hw⟩
  | @nonterminal n a p _ ha _ ih =>
    obtain ⟨w, hw⟩ := hp
    obtain ⟨w₁, w₂, -, -, hw₂⟩ := yields_cons_nonterminal_iff.mp hw
    obtain ⟨w₁, hw₁⟩ := hproductive n a ha
    obtain ⟨w, hw⟩ := ih ⟨_, hw₁.append hw₂⟩ hv
    obtain ⟨u, v, huv, hu, hv⟩ := yields_append_iff.mp hw
    exact ⟨w, huv ▸ .nonterminal ha hu hv⟩

/-- **Separated rules are LL(1).** -/
theorem Separated.isLL1 (h : P.Separated F) : P.IsLL1 F where
  first_first n a b t ha hb hta htb := by
    by_cases ht : t = .epsilon
    · subst ht
      rw [first_epsilon] at hta htb
      exact h.first_first n a b [] [] ha hb hta.yields htb.yields rfl
    · rw [first_of_ne ht] at hta htb
      obtain ⟨u, hu⟩ := hta.exists_yields h.productive (h.productive n a ha)
      obtain ⟨v, hv⟩ := htb.exists_yields h.productive (h.productive n b hb)
      exact h.first_first n a b _ _ ha hb hu hv rfl
  first_follow n t _ hempty hbegins := by
    obtain ⟨a, ha, hbegins⟩ := begins_nonterminal_iff.mp hbegins
    rw [List.append_nil] at hbegins
    obtain ⟨w, hw⟩ := hbegins.exists_yields h.productive (h.productive n a ha)
    exact h.first_follow n t w hempty.yields (hw.of_rule ha)

/-! ### Renaming -/

/-- Rules are separated if they are so after renaming the nonterminals. -/
lemma Separated.of_rename {G : μ → Terminal → Prop} {f : ν → μ} (h : Q'.Separated G)
    (hPQ : ∀ n a, P n a → Q' (f n) (a.rename f))
    (hinj : ∀ n a b, P n a → P n b → a.rename f = b.rename f → a = b)
    (hproductive : ∀ n a, P n a → ∃ w, P.Yields a w) : P.Separated fun n => G (f n) where
  productive := hproductive
  first_first n a b u v ha hb hu hv hhead :=
    hinj n a b ha hb (h.first_first _ _ _ u v (hPQ n a ha) (hPQ n b hb) (hu.rename hPQ)
      (hv.rename hPQ) hhead)
  first_follow n t w hempty hw := h.first_follow (f n) t w (hempty.rename hPQ) (hw.rename hPQ)
  follow_first i p j q t w hrule hw := by
    have hrule' := hPQ i _ hrule
    rw [Phrase.rename_append, Phrase.rename_nonterminal] at hrule'
    exact h.follow_first (f i) _ (f j) _ t w hrule' (hw.rename hPQ)
  follow_follow i p j q t hrule hempty hi := by
    have hrule' := hPQ i _ hrule
    rw [Phrase.rename_append, Phrase.rename_nonterminal] at hrule'
    exact h.follow_follow (f i) _ (f j) _ t hrule' (hempty.rename hPQ) hi

/-! ### Transformations -/

/-- The first token of what two phrases derive together comes from the first one, unless this one is
erased. -/
lemma Yields.cons_of_append (h : P.Yields (p ++ q) (t :: w)) :
    (∃ u, P.Yields p (t :: u)) ∨ P.Yields p [] ∧ ∃ v, P.Yields q (t :: v) := by
  obtain ⟨u, v, huv, hu, hv⟩ := yields_append_iff.mp h
  match u with
  | [] =>
    rw [List.nil_append] at huv
    exact .inr ⟨hu, w, huv ▸ hv⟩
  | s :: u =>
    obtain ⟨rfl, -⟩ := List.cons.inj huv
    exact .inl ⟨u, hu⟩

lemma yields_append_nil_iff : P.Yields (p ++ q) [] ↔ P.Yields p [] ∧ P.Yields q [] := by
  rw [yields_nil_iff, yields_nil_iff, yields_nil_iff]
  exact ⟨Erasable.of_append, fun h => h.1.append h.2⟩

lemma append_cons_eq_singleton {i j : ν} (h : [.nonterminal i] = p ++ .nonterminal j :: q) :
    p = [] ∧ j = i ∧ q = [] := by
  match p with
  | [] =>
    obtain ⟨hij, rfl⟩ := List.cons.inj h
    exact ⟨rfl, (Symbol.nonterminal.inj hij).symm, rfl⟩
  | _ :: _ => exact absurd (congrArg List.length h) (by simp)

section

variable {A B T : ν}

/-- Alternatives are told apart by what they derive together with what stands behind the
nonterminal. -/
lemma Separated.eq_of_yields_append {rest : Phrase ν} (h : P.Separated F)
    (hrule : P A (.nonterminal B :: rest)) (ha : P B a) (hb : P B b)
    (hu : P.Yields (a ++ rest) u) (hv : P.Yields (b ++ rest) v) (hhead : u.head? = v.head?) :
    a = b := by
  match u, v with
  | [], [] =>
    have ha' := (yields_append_nil_iff.mp hu).1
    have hb' := (yields_append_nil_iff.mp hv).1
    exact h.first_first B a b [] [] ha hb ha' hb' rfl
  | t :: u, t' :: v =>
    obtain rfl : t = t' := Option.some.inj hhead
    -- the token cannot come from one of them and follow the other
    have hcross {c d : Phrase ν} {w : List Terminal} (hc : P B c) (hd : P B d)
        (hcw : P.Yields c (t :: w)) (hempty : P.Yields d [])
        (hrest : ∃ w, P.Yields rest (t :: w)) : False := by
      obtain ⟨w', hw'⟩ := hrest
      have hfollow : F B t := h.follow_first A [] B rest t w' hrule hw'
      exact h.first_follow B t w (hempty.of_rule hd) (hcw.of_rule hc) hfollow
    rcases hu.cons_of_append with ⟨u', hu'⟩ | ⟨hempty, hrest⟩
    · rcases hv.cons_of_append with ⟨v', hv'⟩ | ⟨hempty, hrest⟩
      · exact h.first_first B a b _ _ ha hb hu' hv' rfl
      · exact (hcross ha hb hu' hempty hrest).elim
    · rcases hv.cons_of_append with ⟨v', hv'⟩ | ⟨hempty', -⟩
      · exact (hcross hb ha hv' hempty hrest).elim
      · exact h.first_first B a b [] [] ha hb hempty hempty' rfl
  | [], _ :: _ => exact absurd hhead (by simp)
  | _ :: _, [] => exact absurd hhead (by simp)

namespace Substitutes

variable {rest : Phrase ν} (hsub : Substitutes P Q R A B rest)
include hsub

/-- What stands behind a nonterminal in a new alternative stands behind it in an old one, or begins
in the alternative by which the leading nonterminal has been replaced. -/
lemma behind {i j : ν} (hrule : Q i (p ++ .nonterminal j :: q)) :
    (∃ p', P i (p' ++ .nonterminal j :: q)) ∨
      i = A ∧ ∃ r, P B (p ++ .nonterminal j :: r) ∧ q = r ++ rest := by
  rcases (hsub.new_iff i _).mp hrule with hR | ⟨rfl, b, hb, hbrest⟩
  · exact .inl ⟨p, hsub.kept hR⟩
  · rcases append_eq_append_cons_iff.mp hbrest.symm with ⟨r, rfl, rfl⟩ | ⟨r, rfl, rfl⟩
    · exact .inr ⟨rfl, r, hsub.kept hb, rfl⟩
    · exact .inl ⟨.nonterminal B :: r, hsub.replaced⟩

lemma first_first (h : P.Separated F) (hR : ¬ R A (.nonterminal B :: rest)) (n : ν)
    (a b : Phrase ν) (u v : List Terminal) (ha : Q n a) (hb : Q n b) (hu : P.Yields a u)
    (hv : P.Yields b v) (hhead : u.head? = v.head?) : a = b := by
  have hold := hsub.replaced
  -- an alternative that stays is told apart from the one that is replaced
  have hcross {c d : Phrase ν} {u v : List Terminal} (hc : R A c) (hd : R B d)
      (hu : P.Yields c u) (hv : P.Yields (d ++ rest) v) (hhead : u.head? = v.head?) : False := by
    have heq := h.first_first A c _ u v (hsub.kept hc) hold hu (hsub.yields_of_new hd hv) hhead
    exact hR (heq ▸ hc)
  rcases (hsub.new_iff n a).mp ha with hRa | ⟨rfl, c, hc, rfl⟩
  · rcases (hsub.new_iff n b).mp hb with hRb | ⟨rfl, d, hd, rfl⟩
    · exact h.first_first n a b u v (hsub.kept hRa) (hsub.kept hRb) hu hv hhead
    · exact (hcross hRa hd hu hv hhead).elim
  · rcases (hsub.new_iff n b).mp hb with hRb | ⟨-, d, hd, rfl⟩
    · exact (hcross hRb hc hv hu hhead.symm).elim
    · rw [h.eq_of_yields_append hold (hsub.kept hc) (hsub.kept hd) hu hv hhead]

end Substitutes

/-- **Replacing a leading nonterminal by its alternatives keeps rules separated**, if the alternative
that is replaced was there only once. -/
theorem Separated.substitute {rest : Phrase ν} (h : P.Separated F)
    (hsub : Substitutes P Q R A B rest) (hR : ¬ R A (.nonterminal B :: rest)) :
    Q.Separated F := by
  have hyields {p : Phrase ν} {w : List Terminal} : Q.Yields p w ↔ P.Yields p w :=
    hsub.yields_iff.symm
  have hold := hsub.replaced
  constructor <;> simp only [hyields]
  · intro n a ha
    rcases (hsub.new_iff n a).mp ha with ha | ⟨rfl, b, hb, rfl⟩
    · exact h.productive n a (hsub.kept ha)
    · obtain ⟨w₁, hw₁⟩ := h.productive B b (hsub.kept hb)
      obtain ⟨w₂, hw₂⟩ := h.exists_yields_behind (p := []) hold
      exact ⟨_, hw₁.append hw₂⟩
  · exact hsub.first_first h hR
  · exact h.first_follow
  · intro i p j q t w hrule hw
    rcases hsub.behind hrule with ⟨p', hrule'⟩ | ⟨rfl, r, hr, rfl⟩
    · exact h.follow_first i p' j q t w hrule' hw
    · rcases hw.cons_of_append with ⟨w', hw'⟩ | ⟨hempty, w', hw'⟩
      · exact h.follow_first B p j r t w' hr hw'
      · have hB : F B t := h.follow_first i [] B rest t w' hold hw'
        exact h.follow_follow B p j r t hr hempty hB
  · intro i p j q t hrule hempty hi
    rcases hsub.behind hrule with ⟨p', hrule'⟩ | ⟨rfl, r, hr, rfl⟩
    · exact h.follow_follow i p' j q t hrule' hempty hi
    · obtain ⟨hempty, hrest⟩ := yields_append_nil_iff.mp hempty
      have hB : F B t := h.follow_follow i [] B rest t hold hrest hi
      exact h.follow_follow B p j r t hr hempty hB

end

/-- What can follow after a nonterminal `T` has been added that stands at the end of `A`. -/
def FollowWith (F : ν → Terminal → Prop) (A T : ν) (n : ν) (t : Terminal) : Prop :=
  n = T ∧ F A t ∨ n ≠ T ∧ F n t

namespace Factors

variable {A T : ν} {shared : Phrase ν} {D : Phrase ν → Prop}

section

variable (hfac : Factors P Q R A T shared D)
include hfac

lemma not_mem_of_joined {d : Phrase ν} (hd : D d) :
    T ∉ Phrase.nonterminals shared ∧ T ∉ Phrase.nonterminals d := by
  simpa [not_or] using hfac.fresh A _ (hfac.joined hd)

lemma ne_of_kept (ha : R n a) : n ≠ T := fun hn => hfac.no_rule a (hn ▸ ha)

lemma not_mem_behind {i j : ν} (hrule : P i (p ++ .nonterminal j :: q)) :
    j ≠ T ∧ T ∉ Phrase.nonterminals q := by
  have hfresh := hfac.fresh i _ hrule
  simp only [Phrase.mem_nonterminals, List.mem_append, List.mem_cons, not_or] at hfresh ⊢
  exact ⟨fun hj => hfresh.2.1 (hj ▸ rfl), hfresh.2.2⟩

/-- What stands behind a nonterminal in the common phrase. -/
lemma joined_behind {j : ν} {r d : Phrase ν} (hd : D d) (hshared : shared = p ++ .nonterminal j :: r) :
    P A (p ++ .nonterminal j :: (r ++ d)) ∧ j ≠ T ∧ T ∉ Phrase.nonterminals r := by
  have hrule : P A (p ++ .nonterminal j :: (r ++ d)) := by
    simpa [hshared] using hfac.joined hd
  obtain ⟨hj, hrd⟩ := hfac.not_mem_behind hrule
  refine ⟨hrule, hj, fun hr => hrd ?_⟩
  rw [Phrase.mem_nonterminals] at hr ⊢
  exact List.mem_append_left d hr

/-- What stands behind a nonterminal in a new alternative stands behind it in an old one, or it is the
remainder of the common phrase, or nothing stands behind the new nonterminal. -/
lemma behind {i j : ν} (hrule : Q i (p ++ .nonterminal j :: q)) :
    (∃ n p', P n (p' ++ .nonterminal j :: q) ∧ ∀ t, FollowWith F A T i t → F n t) ∨
      i = A ∧ (∃ r, shared = p ++ .nonterminal j :: r ∧ q = r ++ [.nonterminal T]) ∨
      i = A ∧ j = T ∧ q = [] := by
  rcases (hfac.new_iff i _).mp hrule with hR | ⟨rfl, hlast⟩ | ⟨rfl, hd⟩
  · have hi := hfac.ne_of_kept hR
    exact .inl ⟨i, p, hfac.kept hR, fun t ht => by simpa [FollowWith, hi] using ht⟩
  · rcases append_eq_append_cons_iff.mp hlast.symm with ⟨r, hr, hq⟩ | ⟨r, -, hr⟩
    · exact .inr (.inl ⟨rfl, r, hr, hq⟩)
    · obtain ⟨-, hj, hq⟩ := append_cons_eq_singleton hr
      exact .inr (.inr ⟨rfl, hj, hq⟩)
  · have hrule' : P A ((shared ++ p) ++ .nonterminal j :: q) := by simpa using hfac.joined hd
    exact .inl ⟨A, shared ++ p, hrule', fun t ht => by simpa [FollowWith] using ht⟩

/-- What ends in the new nonterminal goes on with one of the phrases that came after the common
one. -/
lemma yields_append_iff (hp : T ∉ Phrase.nonterminals p) :
    Q.Yields (p ++ [.nonterminal T]) w ↔ ∃ d, D d ∧ P.Yields (p ++ d) w := by
  constructor
  · intro hw
    obtain ⟨u, v, rfl, hu, hv⟩ := RuleSet.yields_append_iff.mp hw
    obtain ⟨d, hd, hv⟩ := yields_nonterminal_iff.mp hv
    have hd := hfac.rest_iff.mp hd
    have hv' : P.Yields d v := (hfac.yields_iff (hfac.not_mem_of_joined hd).2).mpr hv
    exact ⟨d, hd, ((hfac.yields_iff hp).mpr hu).append hv'⟩
  · rintro ⟨d, hd, hw⟩
    obtain ⟨u, v, rfl, hu, hv⟩ := RuleSet.yields_append_iff.mp hw
    have hv' : Q.Yields d v := (hfac.yields_iff (hfac.not_mem_of_joined hd).2).mp hv
    exact ((hfac.yields_iff hp).mp hu).append (hv'.of_rule (hfac.rest_iff.mpr hd))

end

variable (hfac : Factors P Q R A T shared D) (h : P.Separated F)
  (hR : ∀ d, ¬ R A (shared ++ d)) (hD : ∃ d d', D d ∧ D d' ∧ d ≠ d')
include hfac h

/-- A phrase with which different alternatives begin can be empty, and nothing else, since the first
token would otherwise not tell them apart. -/
lemma yields_shared (hD : ∃ d d', D d ∧ D d' ∧ d ≠ d') : P.Yields shared [] := by
  obtain ⟨d, d', hd, hd', hne⟩ := hD
  obtain ⟨w, hw⟩ := h.productive A _ (hfac.joined hd)
  obtain ⟨w', hw'⟩ := h.productive A _ (hfac.joined hd')
  obtain ⟨u, v, -, hu, hv⟩ := RuleSet.yields_append_iff.mp hw
  obtain ⟨-, v', -, -, hv'⟩ := RuleSet.yields_append_iff.mp hw'
  cases u with
  | nil => exact hu
  | cons t u =>
    have heq := h.first_first A _ _ _ _ (hfac.joined hd) (hfac.joined hd') (hu.append hv)
      (hu.append hv') rfl
    exact absurd (List.append_cancel_left heq) hne

lemma productive (hD : ∃ d d', D d ∧ D d' ∧ d ≠ d') (n : ν) (a : Phrase ν) (ha : Q n a) :
    ∃ w, Q.Yields a w := by
  rcases (hfac.new_iff n a).mp ha with ha | ⟨rfl, rfl⟩ | ⟨rfl, hd⟩
  · obtain ⟨w, hw⟩ := h.productive n a (hfac.kept ha)
    exact ⟨w, (hfac.yields_iff (hfac.fresh n a (hfac.kept ha))).mp hw⟩
  · obtain ⟨d, -, hd, -⟩ := hD
    obtain ⟨w, hw⟩ := h.productive n _ (hfac.joined hd)
    exact ⟨w, (hfac.yields_append_iff (hfac.not_mem_of_joined hd).1).mpr ⟨d, hd, hw⟩⟩
  · obtain ⟨w, hw⟩ := h.productive A _ (hfac.joined hd)
    obtain ⟨-, v, -, -, hv⟩ := RuleSet.yields_append_iff.mp hw
    exact ⟨v, (hfac.yields_iff (hfac.not_mem_of_joined hd).2).mp hv⟩

include hR hD

lemma first_first (n : ν) (a b : Phrase ν) (u v : List Terminal) (ha : Q n a) (hb : Q n b)
    (hu : Q.Yields a u) (hv : Q.Yields b v) (hhead : u.head? = v.head?) : a = b := by
  have hshared : T ∉ Phrase.nonterminals shared := by
    obtain ⟨d, -, hd, -⟩ := hD
    exact (hfac.not_mem_of_joined hd).1
  -- an alternative that stays is told apart from those that begin with the common phrase
  have hcross {c : Phrase ν} {u v : List Terminal} (hc : R A c) (hu : Q.Yields c u)
      (hv : Q.Yields (shared ++ [.nonterminal T]) v) (hhead : u.head? = v.head?) : False := by
    have hu' := (hfac.yields_iff (hfac.fresh A c (hfac.kept hc))).mpr hu
    obtain ⟨d, hd, hv'⟩ := (hfac.yields_append_iff hshared).mp hv
    have heq := h.first_first A c _ u v (hfac.kept hc) (hfac.joined hd) hu' hv' hhead
    exact hR d (heq ▸ hc)
  rcases (hfac.new_iff n a).mp ha with ha | ⟨rfl, rfl⟩ | ⟨rfl, ha⟩
  · rcases (hfac.new_iff n b).mp hb with hb | ⟨rfl, rfl⟩ | ⟨hn, -⟩
    · have hu' := (hfac.yields_iff (hfac.fresh n a (hfac.kept ha))).mpr hu
      have hv' := (hfac.yields_iff (hfac.fresh n b (hfac.kept hb))).mpr hv
      exact h.first_first n a b u v (hfac.kept ha) (hfac.kept hb) hu' hv' hhead
    · exact (hcross ha hu hv hhead).elim
    · exact absurd hn (hfac.ne_of_kept ha)
  · rcases (hfac.new_iff n b).mp hb with hb | ⟨-, rfl⟩ | ⟨hn, -⟩
    · exact (hcross hb hv hu hhead.symm).elim
    · rfl
    · exact absurd hn hfac.ne
  · have hb := hfac.rest_iff.mp hb
    have hempty := hfac.yields_shared h hD
    have hu' := hempty.append ((hfac.yields_iff (hfac.not_mem_of_joined ha).2).mpr hu)
    have hv' := hempty.append ((hfac.yields_iff (hfac.not_mem_of_joined hb).2).mpr hv)
    have heq := h.first_first A _ _ u v (hfac.joined ha) (hfac.joined hb) hu' hv' hhead
    exact List.append_cancel_left heq

omit hR

/-- What the new nonterminal derives is derived by the old one. -/
lemma yields_old (hw : Q.Yields [.nonterminal T] w) : P.Yields [.nonterminal A] w := by
  obtain ⟨d, hd, hw⟩ := (hfac.yields_append_iff (p := []) (by simp)).mp hw
  exact ((hfac.yields_shared h hD).append hw).of_rule (hfac.joined hd)

end Factors

section

variable {A T : ν}

/-- **Taking a common phrase out of different alternatives keeps rules separated**, if no other
alternative begins with it. -/
theorem Separated.factor {shared : Phrase ν} {D : Phrase ν → Prop} (h : P.Separated F)
    (hfac : Factors P Q R A T shared D) (hR : ∀ d, ¬ R A (shared ++ d))
    (hD : ∃ d d', D d ∧ D d' ∧ d ≠ d') : Q.Separated (FollowWith F A T) := by
  refine ⟨hfac.productive h hD, hfac.first_first h hR hD, ?_, ?_, ?_⟩
  · rintro n t w hempty hw (⟨rfl, hA⟩ | ⟨hn, hF⟩)
    · exact h.first_follow A t w (hfac.yields_old h hD hempty) (hfac.yields_old h hD hw) hA
    · have hfree : T ∉ Phrase.nonterminals [.nonterminal n] := by simpa using Ne.symm hn
      rw [← hfac.yields_iff hfree] at hempty hw
      exact h.first_follow n t w hempty hw hF
  · intro i p j q t w hrule hw
    rcases hfac.behind (F := F) hrule with ⟨n, p', hrule', -⟩ | ⟨rfl, r, hr, rfl⟩ | ⟨-, -, rfl⟩
    · obtain ⟨hj, hq⟩ := hfac.not_mem_behind hrule'
      exact .inr ⟨hj, h.follow_first n p' j q t w hrule' ((hfac.yields_iff hq).mpr hw)⟩
    · obtain ⟨d₀, -, hd₀, -⟩ := hD
      obtain ⟨-, hj, hrT⟩ := hfac.joined_behind hd₀ hr
      obtain ⟨d, hd, hw⟩ := (hfac.yields_append_iff hrT).mp hw
      exact .inr ⟨hj, h.follow_first i p j _ t w (hfac.joined_behind hd hr).1 hw⟩
    · exact absurd hw (by rintro ⟨⟩)
  · intro i p j q t hrule hempty hi
    rcases hfac.behind (F := F) hrule with
      ⟨n, p', hrule', hn⟩ | ⟨rfl, r, hr, rfl⟩ | ⟨rfl, rfl, rfl⟩
    · obtain ⟨hj, hq⟩ := hfac.not_mem_behind hrule'
      exact .inr ⟨hj, h.follow_follow n p' j q t hrule' ((hfac.yields_iff hq).mpr hempty) (hn t hi)⟩
    · obtain ⟨d₀, -, hd₀, -⟩ := hD
      obtain ⟨-, hj, hrT⟩ := hfac.joined_behind hd₀ hr
      obtain ⟨d, hd, hempty⟩ := (hfac.yields_append_iff hrT).mp hempty
      have hi' : F i t := by simpa [FollowWith, hfac.ne] using hi
      exact .inr ⟨hj, h.follow_follow i p j _ t (hfac.joined_behind hd hr).1 hempty hi'⟩
    · exact .inl ⟨rfl, by simpa [FollowWith, hfac.ne] using hi⟩

end

/-! ### No left recursion -/

/-- The tokens with which the strings of a nonterminal begin. -/
def firstTokens (P : RuleSet ν) (n : ν) : Set Terminal :=
  {t | ∃ w, P.Yields [.nonterminal n] (t :: w)}

/-- What a nonterminal derives that has come to the front of an alternative is the beginning of what
the alternative derives. -/
lemma Separated.exists_yields_append (h : P.Separated F)
    (hrule : ∃ i r, P i (r ++ (p ++ .nonterminal m :: q))) (hp : P.Erasable p)
    (hm : P.Yields [.nonterminal m] w) : ∃ v, P.Yields (p ++ .nonterminal m :: q) (w ++ v) := by
  obtain ⟨i, r, hrule⟩ := hrule
  rw [← List.append_assoc] at hrule
  obtain ⟨v, hv⟩ := h.exists_yields_behind hrule
  exact ⟨v, hp.yields.append (hm.append hv)⟩

lemma Separated.firstTokens_subset (h : P.Separated F) (hmn : P.LeftCorner m n) :
    P.firstTokens m ⊆ P.firstTokens n := by
  rintro t ⟨w, hw⟩
  obtain ⟨p, q, hrule, hp⟩ := hmn
  obtain ⟨v, hv⟩ := h.exists_yields_append ⟨n, [], hrule⟩ hp hw
  exact ⟨w ++ v, hv.of_rule hrule⟩

/-- A nonterminal that can be empty does not begin with a token that comes after it. -/
lemma Separated.not_mem_firstTokens (h : P.Separated F) (hrule : P n (p ++ .nonterminal m :: q))
    (hm : P.Yields [.nonterminal m] []) (hq : P.Yields q (t :: w)) : t ∉ P.firstTokens m := by
  rintro ⟨v, hv⟩
  exact h.first_follow m t v hm hv (h.follow_first n p m q t w hrule hq)

/-- A nonterminal that comes to the front of a phrase does not lead on forever if the phrase derives
a string that begins with one of its tokens: as long as the tokens stay the same, this string is
derived by the alternatives that are come upon. -/
lemma Separated.acc_of_yields_cons (h : P.Separated F) {S : Set Terminal} (ht : t ∈ S)
    (hsmaller : ∀ k, P.firstTokens k ⊂ S → Acc P.LeftCorner k)
    (hp : P.Yields p (t :: w)) (hrule : ∃ i r, P i (r ++ p)) (ha : P.Erasable a)
    (hpm : p = a ++ .nonterminal m :: b) (hm : P.firstTokens m = S) : Acc P.LeftCorner m := by
  generalize hw : t :: w = w' at hp
  induction hp generalizing a b m w with
  | nil => exact absurd hpm (by simp)
  | terminal _ _ =>
    cases a with
    | nil => exact absurd (List.cons.inj hpm).1 (by simp)
    | cons s a =>
      obtain ⟨rfl, -⟩ := List.cons.inj hpm
      exact absurd ha (by rintro ⟨⟩)
  | @nonterminal n c p u v hn hc hp ihc ihp =>
    obtain ⟨i, r, hrule⟩ := hrule
    cases a with
    | nil =>
      obtain ⟨hs, rfl⟩ := List.cons.inj hpm
      obtain rfl := Symbol.nonterminal.inj hs
      cases u with
      | nil =>
        have hv : P.Yields p (t :: w) := hw ▸ hp
        exact absurd (hm ▸ ht) (h.not_mem_firstTokens hrule (hc.of_rule hn) hv)
      | cons s u =>
        obtain ⟨rfl, -⟩ := List.cons.inj hw
        refine Acc.intro _ fun k hk => ?_
        have hle : P.firstTokens k ⊆ S := hm ▸ h.firstTokens_subset hk
        by_cases hkS : P.firstTokens k = S
        · obtain ⟨x, y, hrule', hx⟩ := hk
          obtain ⟨w', hw'⟩ : t ∈ P.firstTokens k := hkS ▸ ht
          obtain ⟨v', hv'⟩ := h.exists_yields_append ⟨n, [], hrule'⟩ hx hw'
          have hsame := h.first_first n c _ _ _ hn hrule' hc hv' rfl
          exact ihc ⟨n, [], hn⟩ hx hsame hkS rfl
        · exact hsmaller k (Set.ssubset_iff_subset_ne.mpr ⟨hle, hkS⟩)
    | cons s a =>
      obtain ⟨rfl, rfl⟩ := List.cons.inj hpm
      have hsplit := Erasable.of_append (p := [.nonterminal n]) ha
      obtain ⟨w', hw'⟩ : t ∈ P.firstTokens m := hm ▸ ht
      have hrule' : P i ((r ++ [.nonterminal n]) ++ (a ++ .nonterminal m :: b)) := by
        simpa using hrule
      obtain ⟨v', hv'⟩ := h.exists_yields_append ⟨i, _, hrule'⟩ hsplit.2 hw'
      cases u with
      | nil => exact ihp ⟨i, _, hrule'⟩ hsplit.2 rfl hm hw
      | cons s u =>
        obtain ⟨rfl, -⟩ := List.cons.inj hw
        exact absurd ⟨u, hc.of_rule hn⟩ (h.not_mem_firstTokens hrule hsplit.1.yields hv')

/-- The alternatives of a nonterminal without tokens can be empty. -/
lemma Separated.erasable_of_firstTokens (h : P.Separated F) (hrule : P n a)
    (hn : P.firstTokens n = ∅) : P.Erasable a := by
  obtain ⟨w, hw⟩ := h.productive n a hrule
  cases w with
  | nil => exact yields_nil_iff.mp hw
  | cons t w =>
    have ht : t ∈ P.firstTokens n := ⟨w, hw.of_rule hrule⟩
    exact absurd (hn ▸ ht) (Set.notMem_empty t)

/-- A nonterminal without tokens does not lead on forever if it stands in a phrase that can be
empty. -/
lemma Separated.acc_of_erasable (h : P.Separated F) (hp : P.Erasable p)
    (hmem : .nonterminal m ∈ p) (hm : P.firstTokens m = ∅) : Acc P.LeftCorner m := by
  induction hp generalizing m with
  | nil => exact absurd hmem List.not_mem_nil
  | @cons n a p hn ha _ iha ihp =>
    rcases List.mem_cons.mp hmem with hs | hmem
    · obtain rfl := Symbol.nonterminal.inj hs
      refine Acc.intro _ fun k hk => ?_
      have hk_empty : P.firstTokens k = ∅ := Set.subset_empty_iff.mp (hm ▸ h.firstTokens_subset hk)
      obtain ⟨x, y, hrule, -⟩ := hk
      have hempty := h.erasable_of_firstTokens hrule hm
      have hsame := h.first_first m a _ [] [] hn hrule ha.yields hempty.yields rfl
      exact iha (hsame ▸ by simp) hk_empty
    · exact ihp hmem hm

instance : Finite Terminal := @Finite.of_fintype _ (Fintype.ofList Terminal.all Terminal.mem_all)

/-- **Separated rules have no left recursion**: no nonterminal leads on forever. -/
theorem Separated.wellFounded_leftCorner (h : P.Separated F) : WellFounded P.LeftCorner := by
  refine ⟨fun n => ?_⟩
  -- a nonterminal with fewer tokens has been dealt with before
  generalize hS : P.firstTokens n = S
  induction S using (wellFounded_lt (α := Set Terminal)).induction generalizing n with
  | _ S ih =>
    have hsmaller (k : ν) (hk : P.firstTokens k ⊂ S) : Acc P.LeftCorner k := ih _ hk k rfl
    refine Acc.intro _ fun m hm => ?_
    have hle : P.firstTokens m ⊆ S := hS ▸ h.firstTokens_subset hm
    by_cases hmS : P.firstTokens m = S
    · obtain ⟨p, q, hrule, hp⟩ := hm
      rcases Set.eq_empty_or_nonempty S with rfl | ⟨t, ht⟩
      · exact h.acc_of_erasable (h.erasable_of_firstTokens hrule hS) (by simp) hmS
      · obtain ⟨w, hw⟩ : t ∈ P.firstTokens m := hmS ▸ ht
        obtain ⟨v, hv⟩ := h.exists_yields_append ⟨n, [], hrule⟩ hp hw
        exact h.acc_of_yields_cons ht hsmaller hv ⟨n, [], hrule⟩ hp rfl hmS
    · exact hsmaller m (Set.ssubset_iff_subset_ne.mpr ⟨hle, hmS⟩)

end LL1.RuleSet
