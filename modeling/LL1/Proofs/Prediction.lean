/-
# Prediction with one token of lookahead

A predictor decides for a set of rules if it expands a nonterminal whenever the lookahead calls
for one of its alternatives, and always with that alternative.  In particular, no lookahead calls
for two alternatives.  Two things follow about the stack of a parser while it looks at one token.
It changes only finitely often before the token is used or passed over.  And an expansion loses
none of the strings that the rest of the source may begin with, as long as everything in the
stack that can be empty is followed by what FOLLOW allows.
-/
import LL1.Parsing.Predictor
import LL1.Proofs.Derivation

namespace LL1

namespace RuleSet

variable {ν : Type} {P : RuleSet ν} {F : ν → Terminal → Prop} {i j : ν} {t : Terminal}
  {a p u v : Phrase ν} {w : List Terminal} {s : Symbol ν}

/-- The terminal calls for the phrase `a` in the place of nonterminal `i`: the phrase can begin
with it, or it can be empty and the terminal can follow the nonterminal. -/
def CallsFor (P : RuleSet ν) (F : ν → Terminal → Prop) (i : ν) (t : Terminal)
    (a : Phrase ν) : Prop :=
  P.Begins a [t] ∨ P.Erasable a ∧ F i t

/-- What comes after a nonterminal in an alternative can follow it. -/
def Follows (P : RuleSet ν) (F : ν → Terminal → Prop) : Prop :=
  ∀ i u j v t, P i (u ++ .nonterminal j :: v) → t ≠ .epsilon → P.CallsFor F i t v → F j t

/-- What comes after a nonterminal in the phrase can follow it. -/
def Followed (P : RuleSet ν) (F : ν → Terminal → Prop) (p : Phrase ν) : Prop :=
  ∀ u j v t, p = u ++ .nonterminal j :: v → t ≠ .epsilon → P.Begins v [t] → F j t

lemma Follows.followed (h : P.Follows F) (ha : P i a) : P.Followed F a := by
  rintro u j v t rfl ht hv
  exact h i u j v t ha ht (.inl hv)

lemma Followed.tail (h : P.Followed F (s :: p)) : P.Followed F p := by
  rintro u j v t rfl
  exact h (s :: u) j v t rfl

/-- The first token calls for the alternative that it comes from. -/
lemma Followed.callsFor (h : P.Followed F (.nonterminal i :: p)) (ht : t ≠ .epsilon)
    (ha : P.Begins (a ++ p) [t]) : P.CallsFor F i t a := by
  rcases begins_append_singleton_iff.mp ha with ha | ⟨ha, hp⟩
  · exact .inl ha
  · exact .inr ⟨ha, h [] i p t rfl ht hp⟩

/-- The state of being followed as the rules allow is kept by every replacement at the front. -/
lemma Followed.replace (hP : P.Follows F) (h : P.Followed F (.nonterminal i :: p)) (ha : P i a) :
    P.Followed F (a ++ p) := by
  intro u j v t huv ht hv
  -- the nonterminal stands in what was there before, or in the alternative
  rcases List.append_eq_append_iff.mp huv with ⟨b, rfl, rfl⟩ | ⟨b, rfl, hb⟩
  · exact h.tail b j v t rfl ht hv
  · cases b with
    | nil => exact h.tail [] j v t (by simpa using hb.symm) ht hv
    | cons s b =>
      obtain ⟨rfl, rfl⟩ := List.cons.inj hb
      exact hP i u j b t ha ht (h.callsFor ht hv)

/-- In an alternative that can be empty, what follows the nonterminal of the alternative follows
every nonterminal. -/
lemma Follows.of_erasable (hP : P.Follows F) (ha : P i a) (he : P.Erasable a) (ht : t ≠ .epsilon)
    (hi : F i t) : ∀ j ∈ a.nonterminals, F j t := by
  intro j hj
  obtain ⟨u, v, rfl⟩ := List.append_of_mem (Phrase.mem_nonterminals.mp hj)
  obtain ⟨k, -, -, hv⟩ := he.of_append.2.exists_rule
  exact hP i u j v t ha ht (.inr ⟨hv, hi⟩)

end RuleSet

namespace Predictor

variable {pr : Predictor} {P : RuleSet Nat} {F : Nat → Terminal → Prop} {n i : Nat} {t : Terminal}
  {a p q below : Phrase Nat} {w : List Terminal}

/-- The predictor decides for the rules of the nonterminals below `n`, where `F` says what can
follow a nonterminal. -/
structure Decides (pr : Predictor) (P : RuleSet Nat) (F : Nat → Terminal → Prop) (n : Nat) :
    Prop where
  start_lt : pr.start < n
  references_lt : ∀ i a, P i a → ∀ j ∈ Phrase.nonterminals a, j < n
  follows : P.Follows F
  follows_start : F pr.start .endOfInput
  rule_of_expand : ∀ i t a, t ≠ .epsilon → pr.action i t = .expand a →
    P i (pr.alternative i a) ∧ P.CallsFor F i t (pr.alternative i a)
  expand_of_rule : ∀ i t b, t ≠ .epsilon → P i b → P.CallsFor F i t b →
    ∃ a, pr.action i t = .expand a ∧ pr.alternative i a = b
  pop_at_end : ∀ i < n, pr.action i .endOfInput ≠ .recover .scan

/-- What happens to a stack in view of a token that is kept as lookahead; nothing if the token is
used or passed over, or if the stack is empty. -/
def turn (pr : Predictor) (t : Terminal) : Phrase Nat → Option (Phrase Nat)
  | .nonterminal i :: below =>
    match pr.action i t with
    | .expand a => some (pr.alternative i a ++ below)
    | .recover .pop => some below
    | .recover .scan => none
  | _ => none

/-- The stack `q` comes after `p` in view of a token. -/
def Turns (pr : Predictor) (t : Terminal) (q p : Phrase Nat) : Prop := pr.turn t p = some q

lemma acc_of_turn_eq_none (h : pr.turn t p = none) : Acc (pr.Turns t) p :=
  Acc.intro _ fun q hq => by rw [Turns, h] at hq; exact absurd hq (by simp)

lemma acc_of_turn_eq_some (h : pr.turn t p = some q) (hq : Acc (pr.Turns t) q) :
    Acc (pr.Turns t) p :=
  Acc.intro _ fun q' hq' => by
    obtain rfl : q = q' := Option.some.inj (h.symm.trans hq')
    exact hq

section Termination

variable (hpr : pr.Decides P F n) (ht : t ≠ .epsilon)
include hpr ht

/-- A nonterminal is replaced by the alternative that the token calls for. -/
lemma Decides.turn_of_callsFor (ha : P i a) (hc : P.CallsFor F i t a) :
    pr.turn t (.nonterminal i :: below) = some (a ++ below) := by
  obtain ⟨k, hk, rfl⟩ := hpr.expand_of_rule i t a ht ha hc
  rw [turn, hk]

/-- A phrase that can begin with the token is expanded until the token is on top, whatever
stands below. -/
lemma Decides.acc_of_begins (hp : P.Followed F p) (hb : P.Begins p [t]) (below : Phrase Nat) :
    Acc (pr.Turns t) (p ++ below) := by
  generalize hw : [t] = w at hb
  induction hb with
  | nil => exact absurd hw (by simp)
  | terminal _ _ => exact acc_of_turn_eq_none rfl
  | @nonterminal i a p w ha hb ih =>
    subst hw
    refine acc_of_turn_eq_some (hpr.turn_of_callsFor ht ha (hp.callsFor ht hb)) ?_
    have := ih (hp.replace hpr.follows ha) rfl
    rwa [List.append_assoc] at this

/-- A phrase that can be empty, all of whose nonterminals can be followed by the token, is
expanded until nothing of it is left. -/
lemma Decides.acc_of_erasable (hp : P.Erasable p) (hF : ∀ j ∈ p.nonterminals, F j t)
    (hbelow : Acc (pr.Turns t) below) : Acc (pr.Turns t) (p ++ below) := by
  induction hp generalizing below with
  | nil => exact hbelow
  | @cons i a p ha he hp iha ihp =>
    have hi : F i t := hF i (by simp)
    refine acc_of_turn_eq_some (hpr.turn_of_callsFor ht ha (.inr ⟨he, hi⟩)) ?_
    refine iha (hpr.follows.of_erasable ha he ht hi) (ihp (fun j hj => hF j ?_) hbelow)
    rw [Phrase.mem_nonterminals] at hj ⊢
    exact List.mem_cons_of_mem _ hj

/-- **A stack changes only finitely often in view of one token.** -/
theorem Decides.acc_turns (p : Phrase Nat) : Acc (pr.Turns t) p := by
  induction p with
  | nil => exact acc_of_turn_eq_none rfl
  | cons s below ih =>
    cases s with
    | terminal k => exact acc_of_turn_eq_none rfl
    | nonterminal i =>
      cases hact : pr.action i t with
      | expand a =>
        obtain ⟨ha, hc⟩ := hpr.rule_of_expand i t a ht hact
        refine acc_of_turn_eq_some (by rw [turn, hact]) ?_
        -- the token is found in the alternative, or the alternative goes away without a trace
        rcases hc with hb | ⟨he, hi⟩
        · exact hpr.acc_of_begins ht (hpr.follows.followed ha) hb below
        · exact hpr.acc_of_erasable ht he (hpr.follows.of_erasable ha he ht hi) ih
      | recover how =>
        cases how with
        | pop => exact acc_of_turn_eq_some (by rw [turn, hact]) ih
        | scan => exact acc_of_turn_eq_none (by rw [turn, hact])

/-- **An expansion loses no string** that begins with the lookahead. -/
theorem Decides.begins_expand_iff {a : Nat} (hp : P.Followed F (.nonterminal i :: below))
    (hact : pr.action i t = .expand a) :
    P.Begins (.nonterminal i :: below) (t :: w) ↔
      P.Begins (pr.alternative i a ++ below) (t :: w) := by
  constructor
  · intro h
    obtain ⟨b, hb, hbegins⟩ := RuleSet.begins_nonterminal_iff.mp h
    have hfirst : P.Begins (b ++ below) [t] :=
      RuleSet.Begins.of_append (by simpa using hbegins)
    -- the lookahead calls for `b`, and the predictor has no other choice
    obtain ⟨k, hk, rfl⟩ := hpr.expand_of_rule i t b ht hb (hp.callsFor ht hfirst)
    obtain rfl : k = a := Action.expand.inj (hk.symm.trans hact)
    exact hbegins
  · exact .nonterminal (hpr.rule_of_expand i t a ht hact).1

/-- Without an expansion the lookahead does not begin anything. -/
theorem Decides.not_begins_of_recover {how : Recovery}
    (hp : P.Followed F (.nonterminal i :: below)) (hact : pr.action i t = .recover how) :
    ¬ P.Begins (.nonterminal i :: below) (t :: w) := by
  intro h
  obtain ⟨b, hb, hbegins⟩ := RuleSet.begins_nonterminal_iff.mp h
  have hfirst : P.Begins (b ++ below) [t] := RuleSet.Begins.of_append (by simpa using hbegins)
  obtain ⟨k, hk, -⟩ := hpr.expand_of_rule i t b ht hb (hp.callsFor ht hfirst)
  exact absurd (hk.symm.trans hact) (by simp)

end Termination

/-- What is expected of a whole source is followed as the rules allow. -/
lemma Decides.followed_goal (hpr : pr.Decides P F n) : P.Followed F pr.goal := by
  intro u j v t huv ht hv
  cases u with
  | nil =>
    obtain ⟨hj, rfl⟩ := List.cons.inj huv
    obtain rfl := Symbol.nonterminal.inj hj
    obtain ⟨rfl, -⟩ := RuleSet.begins_terminal_iff.mp hv
    exact hpr.follows_start
  | cons s u =>
    have hmem : Symbol.nonterminal j ∈ [Symbol.terminal Terminal.endOfInput] :=
      (List.cons.inj huv).2 ▸ by simp
    exact absurd hmem (by simp)

end Predictor

end LL1
