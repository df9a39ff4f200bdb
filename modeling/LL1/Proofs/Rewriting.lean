/-
# Rewriting rules

The transformations of a grammar replace some rules by others.  Nothing is lost by this if every
rule that goes is admissible afterwards, and nothing is added if every rule that comes was
admissible before.  Here this is shown for a single substitution, for the removal of immediate
left recursion and for taking a common phrase out of alternatives; the last two add a nonterminal
that must not occur anywhere else.
-/
import LL1.Proofs.Derivation

namespace LL1.RuleSet

variable {ν : Type} {P Q R : RuleSet ν} {p : Phrase ν} {w : List Terminal} {A B T : ν}

/-- Two sets of rules yield the same strings if each of them admits the rules of the other. -/
lemma yields_iff_of_admissible
    (hPQ : ∀ n a u, P n a → Q.Yields a u → Q.Yields [.nonterminal n] u)
    (hQP : ∀ n a u, Q n a → P.Yields a u → P.Yields [.nonterminal n] u) :
    P.Yields p w ↔ Q.Yields p w :=
  ⟨Yields.transfer hPQ, Yields.transfer hQP⟩

lemma Yields.of_rule {n : ν} {a : Phrase ν} (hn : P n a) (ha : P.Yields a w) :
    P.Yields [.nonterminal n] w :=
  yields_nonterminal_iff.mpr ⟨a, hn, ha⟩

/-! ### Replacing a leading nonterminal by its alternatives -/

/-- The rules `Q` come from `P` by replacing the leading nonterminal `B` of an alternative of `A` by
each of its alternatives.  The rules in `R` stay. -/
structure Substitutes (P Q R : RuleSet ν) (A B : ν) (rest : Phrase ν) : Prop where
  ne : B ≠ A
  old_iff : ∀ n a, P n a ↔ R n a ∨ n = A ∧ a = .nonterminal B :: rest
  new_iff : ∀ n a, Q n a ↔ R n a ∨ n = A ∧ ∃ b, R B b ∧ a = b ++ rest

namespace Substitutes

variable {rest : Phrase ν} (h : Substitutes P Q R A B rest)
include h

lemma replaced : P A (.nonterminal B :: rest) := (h.old_iff _ _).mpr (.inr ⟨rfl, rfl⟩)

lemma kept {n : ν} {a : Phrase ν} (ha : R n a) : P n a := (h.old_iff n a).mpr (.inl ha)

/-- What a new alternative derives is derived by the one that it comes from. -/
lemma yields_of_new {b : Phrase ν} (hb : R B b) (hw : P.Yields (b ++ rest) w) :
    P.Yields (.nonterminal B :: rest) w := by
  obtain ⟨v, v', rfl, hv, hrest⟩ := yields_append_iff.mp hw
  exact .nonterminal (h.kept hb) hv hrest

/-- **Replacing a leading nonterminal by its alternatives keeps what is derived.** -/
theorem yields_iff : P.Yields p w ↔ Q.Yields p w := by
  apply yields_iff_of_admissible
  · intro n a u hn ha
    rcases (h.old_iff n a).mp hn with hR | ⟨rfl, rfl⟩
    · exact ha.of_rule ((h.new_iff n a).mpr (.inl hR))
    · obtain ⟨v, v', rfl, hB, hrest⟩ := yields_cons_nonterminal_iff.mp ha
      obtain ⟨b, hb, hv⟩ := yields_nonterminal_iff.mp hB
      have hRB : R B b := ((h.new_iff B b).mp hb).resolve_right fun hBA => h.ne hBA.1
      exact (hv.append hrest).of_rule ((h.new_iff n _).mpr (.inr ⟨rfl, b, hRB, rfl⟩))
  · intro n a u hn ha
    rcases (h.new_iff n a).mp hn with hR | ⟨rfl, b, hb, rfl⟩
    · exact ha.of_rule (h.kept hR)
    · exact (h.yields_of_new hb ha).of_rule h.replaced

end Substitutes

/-! ### Adding a new nonterminal -/

/-- Rules for a nonterminal that does not occur make no difference to phrases without it. -/
lemma yields_extend_iff {D : Phrase ν → Prop} (hQ : ∀ n a, Q n a ↔ P n a ∨ n = T ∧ D a)
    (hT : ∀ n a, P n a → T ∉ Phrase.nonterminals a) (hp : T ∉ Phrase.nonterminals p) :
    P.Yields p w ↔ Q.Yields p w := by
  refine ⟨Yields.mono fun n a h => (hQ n a).mpr (.inl h), ?_⟩
  refine Yields.restrict (S := (· ≠ T)) (fun n a hn hne => ?_) (fun n a hn m hm hmT => ?_) ?_
  · exact ((hQ n a).mp hn).resolve_right fun h => hne h.1
  · exact hT n a hn (hmT ▸ hm)
  · exact fun m hm hmT => hp (hmT ▸ hm)

/-! ### Removing immediate left recursion -/

/-- The rules of the nonterminal `T` that repeats the phrases in `C`. -/
def Repeats (C : Phrase ν → Prop) (T : ν) (a : Phrase ν) : Prop :=
  a = [] ∨ ∃ c, C c ∧ a = c ++ [.nonterminal T]

/-- What `T` yields is a sequence of strings that come from the repeated phrases. -/
lemma yields_repeats_iff {C : Phrase ν → Prop} (hT : ∀ a, P T a ↔ Repeats C T a) :
    P.Yields [.nonterminal T] w ↔
      ∃ vs : List (List Terminal), w = vs.flatten ∧ ∀ v ∈ vs, ∃ c, C c ∧ P.Yields c v := by
  constructor
  · intro h
    -- the derivation is followed through phrases that end in `T`
    suffices ∀ {r w}, P.Yields r w → ∀ q, r = q ++ [.nonterminal T] →
        ∃ (u : List Terminal) (vs : List (List Terminal)), w = u ++ vs.flatten ∧ P.Yields q u ∧
          ∀ v ∈ vs, ∃ c, C c ∧ P.Yields c v by
      obtain ⟨u, vs, rfl, hu, hvs⟩ := this h [] rfl
      cases hu
      exact ⟨vs, rfl, hvs⟩
    intro r w hr
    induction hr with
    | nil => exact fun q hq => absurd hq (by simp)
    | terminal _ ih =>
      intro q hq
      cases q with
      | nil => exact absurd (List.cons.inj hq).1 (by simp)
      | cons s q =>
        obtain ⟨rfl, rfl⟩ := List.cons.inj hq
        obtain ⟨u, vs, rfl, hu, hvs⟩ := ih q rfl
        exact ⟨_ :: u, vs, rfl, .terminal hu, hvs⟩
    | @nonterminal n a r u₁ u₂ hn ha hr iha ihr =>
      intro q hq
      cases q with
      | cons s q =>
        obtain ⟨rfl, rfl⟩ := List.cons.inj hq
        obtain ⟨u, vs, rfl, hu, hvs⟩ := ihr q rfl
        exact ⟨u₁ ++ u, vs, by rw [List.append_assoc], .nonterminal hn ha hu, hvs⟩
      | nil =>
        obtain ⟨hs, rfl⟩ := List.cons.inj hq
        obtain rfl : n = T := by simpa using hs
        cases hr
        rcases (hT a).mp hn with rfl | ⟨c, hc, rfl⟩
        · cases ha
          exact ⟨[], [], rfl, .nil, by simp⟩
        · obtain ⟨u, vs, rfl, hu, hvs⟩ := iha c rfl
          exact ⟨[], u :: vs, by simp, .nil, List.forall_mem_cons.mpr ⟨⟨c, hc, hu⟩, hvs⟩⟩
  · rintro ⟨vs, rfl, hvs⟩
    induction vs with
    | nil => exact Yields.nil.of_rule ((hT []).mpr (.inl rfl))
    | cons v vs ih =>
      obtain ⟨⟨c, hc, hv⟩, hvs⟩ := List.forall_mem_cons.mp hvs
      exact (hv.append (ih hvs)).of_rule ((hT _).mpr (.inr ⟨c, hc, rfl⟩))

lemma Yields.repeats_snoc {C : Phrase ν → Prop} {c : Phrase ν} {u v : List Terminal}
    (hT : ∀ a, P T a ↔ Repeats C T a) (hu : P.Yields [.nonterminal T] u) (hc : C c)
    (hv : P.Yields c v) : P.Yields [.nonterminal T] (u ++ v) := by
  obtain ⟨vs, rfl, hvs⟩ := (yields_repeats_iff hT).mp hu
  refine (yields_repeats_iff hT).mpr ⟨vs ++ [v], by simp, fun x hx => ?_⟩
  rcases List.mem_append.mp hx with hx | hx
  · exact hvs x hx
  · rw [List.mem_singleton.mp hx]
    exact ⟨c, hc, hv⟩

/-- What `T` yields can be added to what `A` yields if `A` recurs with the repeated phrases. -/
lemma Yields.append_repeats {C : Phrase ν → Prop} {u v : List Terminal}
    (hT : ∀ a, P T a ↔ Repeats C T a) (hA : ∀ c, C c → P A (.nonterminal A :: c))
    (hu : P.Yields [.nonterminal A] u) (hv : P.Yields [.nonterminal T] v) :
    P.Yields [.nonterminal A] (u ++ v) := by
  obtain ⟨vs, rfl, hvs⟩ := (yields_repeats_iff hT).mp hv
  clear hv
  induction vs generalizing u with
  | nil => simpa using hu
  | cons v vs ih =>
    obtain ⟨⟨c, hc, hv⟩, hvs⟩ := List.forall_mem_cons.mp hvs
    rw [List.flatten_cons, ← List.append_assoc]
    exact ih ((hu.append hv).of_rule (hA c hc)) hvs

/-- Immediate left recursion can be turned into right recursion: instead of growing to the left
from a phrase in `D` by phrases in `C`, the nonterminal `A` begins with a phrase in `D` and goes
on with the new nonterminal `T`, which repeats phrases in `C`. -/
theorem yields_unrecurse_iff {C D : Phrase ν → Prop}
    (hP : ∀ n a, P n a ↔ R n a ∨ n = A ∧ (D a ∨ ∃ c, C c ∧ a = .nonterminal A :: c))
    (hQ : ∀ n a, Q n a ↔
      R n a ∨ n = A ∧ (∃ d, D d ∧ a = d ++ [.nonterminal T]) ∨ n = T ∧ Repeats C T a)
    (hAT : A ≠ T) (hRA : ∀ a, ¬ R A a) (hRT : ∀ a, ¬ R T a)
    (hT : ∀ n a, P n a → T ∉ Phrase.nonterminals a) (hp : T ∉ Phrase.nonterminals p) :
    P.Yields p w ↔ Q.Yields p w := by
  -- between the two stand the old rules together with those of `T`
  let E : RuleSet ν := fun n a => P n a ∨ n = T ∧ Repeats C T a
  have hPT (a : Phrase ν) : ¬ P T a := fun h => by
    rcases (hP T a).mp h with h | ⟨h, -⟩
    · exact hRT a h
    · exact hAT h.symm
  have hET (a : Phrase ν) : E T a ↔ Repeats C T a := by simp [E, hPT]
  have hQT (a : Phrase ν) : Q T a ↔ Repeats C T a := by simp [hQ, hRT, hAT.symm]
  rw [yields_extend_iff (Q := E) (D := Repeats C T) (fun n a => Iff.rfl) hT hp]
  apply yields_iff_of_admissible
  · rintro n a u (hn | ⟨rfl, ha⟩) hu
    · rcases (hP n a).mp hn with hR | ⟨rfl, hD | ⟨c, hc, rfl⟩⟩
      · exact hu.of_rule ((hQ n a).mpr (.inl hR))
      · have hnil : Q.Yields [.nonterminal T] [] := Yields.nil.of_rule ((hQT []).mpr (.inl rfl))
        have := (hu.append hnil).of_rule ((hQ n _).mpr (.inr (.inl ⟨rfl, a, hD, rfl⟩)))
        simpa using this
      · -- the string of the recursive occurrence ends in one of `T`, which is continued
        obtain ⟨u₁, u₂, rfl, h₁, h₂⟩ := yields_cons_nonterminal_iff.mp hu
        obtain ⟨b, hb, hb₁⟩ := yields_nonterminal_iff.mp h₁
        obtain ⟨d, hd, rfl⟩ : ∃ d, D d ∧ b = d ++ [.nonterminal T] := by
          rcases (hQ n b).mp hb with h | ⟨-, h⟩ | ⟨h, -⟩
          · exact absurd h (hRA b)
          · exact h
          · exact absurd h hAT
        obtain ⟨v₁, v₂, rfl, hv₁, hv₂⟩ := yields_append_iff.mp hb₁
        rw [List.append_assoc]
        exact (hv₁.append (hv₂.repeats_snoc hQT hc h₂)).of_rule hb
    · exact hu.of_rule ((hQT a).mpr ha)
  · intro n a u hn hu
    rcases (hQ n a).mp hn with hR | ⟨rfl, d, hd, rfl⟩ | ⟨rfl, ha⟩
    · exact hu.of_rule (.inl ((hP n a).mpr (.inl hR)))
    · obtain ⟨u₁, u₂, rfl, h₁, h₂⟩ := yields_append_iff.mp hu
      have hA : E.Yields [.nonterminal n] u₁ :=
        h₁.of_rule (.inl ((hP n d).mpr (.inr ⟨rfl, .inl hd⟩)))
      exact hA.append_repeats hET
        (fun c hc => .inl ((hP n _).mpr (.inr ⟨rfl, .inr ⟨c, hc, rfl⟩⟩))) h₂
    · exact hu.of_rule ((hET a).mpr ha)

/-! ### Taking out a common phrase -/

/-- The rules `Q` come from `P` by taking the phrase `shared` out of alternatives of `A`, which go
on with the new nonterminal `T`.  Its alternatives are the phrases in `D`, which came after the
common one, and the rules in `R` stay. -/
structure Factors (P Q R : RuleSet ν) (A T : ν) (shared : Phrase ν) (D : Phrase ν → Prop) :
    Prop where
  ne : A ≠ T
  old_iff : ∀ n a, P n a ↔ R n a ∨ n = A ∧ ∃ d, D d ∧ a = shared ++ d
  new_iff : ∀ n a, Q n a ↔ R n a ∨ n = A ∧ a = shared ++ [.nonterminal T] ∨ n = T ∧ D a
  no_rule : ∀ a, ¬ R T a
  fresh : ∀ n a, P n a → T ∉ Phrase.nonterminals a

namespace Factors

variable {shared : Phrase ν} {D : Phrase ν → Prop} (h : Factors P Q R A T shared D)
include h

lemma kept {n : ν} {a : Phrase ν} (ha : R n a) : P n a := (h.old_iff n a).mpr (.inl ha)

lemma joined {d : Phrase ν} (hd : D d) : P A (shared ++ d) :=
  (h.old_iff _ _).mpr (.inr ⟨rfl, d, hd, rfl⟩)

lemma rest_iff {d : Phrase ν} : Q T d ↔ D d := by
  simp [h.new_iff, h.no_rule, h.ne.symm]

/-- **Taking a common phrase out of alternatives keeps what is derived.** -/
theorem yields_iff (hp : T ∉ Phrase.nonterminals p) : P.Yields p w ↔ Q.Yields p w := by
  let E : RuleSet ν := fun n a => P n a ∨ n = T ∧ D a
  have hPT (a : Phrase ν) : ¬ P T a := fun ha => by
    rcases (h.old_iff T a).mp ha with ha | ⟨hTA, -⟩
    · exact h.no_rule a ha
    · exact h.ne hTA.symm
  rw [yields_extend_iff (Q := E) (D := D) (fun n a => Iff.rfl) h.fresh hp]
  apply yields_iff_of_admissible
  · rintro n a u (hn | ⟨rfl, ha⟩) hu
    · rcases (h.old_iff n a).mp hn with hR | ⟨rfl, d, hd, rfl⟩
      · exact hu.of_rule ((h.new_iff n a).mpr (.inl hR))
      · obtain ⟨u₁, u₂, rfl, h₁, h₂⟩ := yields_append_iff.mp hu
        have hTd : Q.Yields [.nonterminal T] u₂ := h₂.of_rule (h.rest_iff.mpr hd)
        exact (h₁.append hTd).of_rule ((h.new_iff n _).mpr (.inr (.inl ⟨rfl, rfl⟩)))
    · exact hu.of_rule (h.rest_iff.mpr ha)
  · intro n a u hn hu
    rcases (h.new_iff n a).mp hn with hR | ⟨rfl, rfl⟩ | ⟨rfl, ha⟩
    · exact hu.of_rule (.inl (h.kept hR))
    · obtain ⟨u₁, u₂, rfl, h₁, h₂⟩ := yields_append_iff.mp hu
      obtain ⟨d, hd, hd₂⟩ := yields_nonterminal_iff.mp h₂
      have hD : D d := (hd.resolve_left (hPT d)).2
      exact (h₁.append hd₂).of_rule (.inl (h.joined hD))
    · exact hu.of_rule (.inr ⟨rfl, ha⟩)

end Factors

end LL1.RuleSet
