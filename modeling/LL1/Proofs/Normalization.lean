/-
# Normalization keeps the languages

Every step of removing left recursion changes the list of productions at one place, and so does
every visit of left factoring.  Since each of these changes keeps the languages of the
nonterminals that are there, all of them together do.
-/
import LL1.Proofs.CommonPhrase
import LL1.Proofs.WellFormed

namespace LL1

lemma extractFirst_perm {α β : Type} {f : α → Option β} {as rest : List α} {b : β}
    (h : extractFirst f as = some (b, rest)) : ∃ a, f a = some b ∧ as.Perm (a :: rest) := by
  induction as generalizing rest with
  | nil => exact absurd h (by simp [extractFirst])
  | cons a as ih =>
    rw [extractFirst] at h
    split at h
    · next b' hb =>
      obtain ⟨rfl, rfl⟩ := Prod.mk.inj (Option.some.inj h)
      exact ⟨a, hb, .refl _⟩
    · obtain ⟨⟨b', rest'⟩, hx, hr⟩ := Option.map_eq_some_iff.mp h
      obtain ⟨rfl, rfl⟩ := Prod.mk.inj hr
      obtain ⟨c, hc, hperm⟩ := ih hx
      exact ⟨c, hc, (hperm.cons a).trans (.swap ..)⟩

/-! ### Removing left recursion -/

namespace Elimination

variable {e e' : Elimination} {p q : Production} {later settled : List Production}
  {a rest : Alternative} {fuel : Nat}

lemma expansion?_eq_some_iff :
    expansion? settled a = some (q, rest) ↔
      a = .nonterminal q.name :: rest ∧ settled.find? (·.name == q.name) = some q := by
  match a with
  | [] => simp [expansion?]
  | .terminal t :: c => simp [expansion?]
  | .nonterminal n :: c =>
    simp only [expansion?, Option.map_eq_some_iff, Prod.mk.injEq, List.cons.injEq,
      Symbol.nonterminal.injEq]
    constructor
    · rintro ⟨q, hq, rfl, rfl⟩
      obtain rfl : q.name = n := by simpa using List.find?_some hq
      exact ⟨⟨rfl, rfl⟩, hq⟩
    · rintro ⟨⟨rfl, rfl⟩, hq⟩
      exact ⟨q, hq, rfl, rfl⟩

lemma mem_productions : p ∈ e.productions ↔ p ∈ e.settled ∨ p ∈ e.pending := by
  simp [productions]

lemma mem_productions_of_settled (hp : p ∈ e.settled) : p ∈ e.productions :=
  mem_productions.mpr (.inl hp)

lemma mem_productions_of_pending (hp : e.pending = p :: later) : p ∈ e.productions :=
  mem_productions.mpr (.inr (by simp [hp]))

/-- When the current production is changed, the others stay. -/
lemma eq_or_mem_of_replace {x : Production} (hp : e.pending = p :: later)
    (hsettled : e'.settled = e.settled) (hpending : e'.pending = q :: later)
    (hx : x ∈ e'.productions) : x = q ∨ x ∈ e.productions := by
  rw [mem_productions, hsettled, hpending, List.mem_cons] at hx
  rw [mem_productions, hp, List.mem_cons]
  tauto

/-- When the current production is settled, all of them stay. -/
lemma mem_productions_of_settle {x : Production} (hp : e.pending = p :: later)
    (hsettled : e'.settled = p :: e.settled) (hpending : e'.pending = later)
    (hx : x ∈ e'.productions) : x ∈ e.productions := by
  rw [mem_productions, hsettled, hpending, List.mem_cons] at hx
  rw [mem_productions, hp, List.mem_cons]
  tauto

/-- When the current production is split in two, the others stay. -/
lemma eq_or_eq_or_mem_of_split {x y z : Production} (hp : e.pending = p :: later)
    (hsettled : e'.settled = y :: z :: e.settled) (hpending : e'.pending = later)
    (hx : x ∈ e'.productions) : x = y ∨ x = z ∨ x ∈ e.productions := by
  rw [mem_productions, hsettled, hpending, List.mem_cons, List.mem_cons] at hx
  rw [mem_productions, hp, List.mem_cons]
  tauto

/-- The order of the productions makes no difference to fresh names. -/
lemma not_mem_mentionedNames_productions {T : String} (hp : e.pending = p :: later)
    (hT : T ∉ mentionedNames (e.settled ++ p :: later)) : T ∉ mentionedNames e.productions := by
  rw [productions, hp]
  exact mentionedNames_reverse_append.not.mpr hT

/-- A step replaces a leading nonterminal that is settled and tells so, or it settles a
production. -/
lemma step_eq_some (h : e.step = some e') :
    ∃ p later, e.pending = p :: later ∧
      ((∃ q ∈ e.settled, ∃ rest others,
          p.alternatives.Perm ((.nonterminal q.name :: rest) :: others) ∧
          e' = ⟨e.settled, replace p q rest others :: later,
            .substituted q.name q.alternatives.length p.name :: e.notices⟩) ∨
        extractFirst (expansion? e.settled) p.alternatives = none ∧ e' = e.settle p later) := by
  rw [step] at h
  split at h
  · exact absurd h (by simp)
  · next p later hp =>
    refine ⟨p, later, hp, ?_⟩
    split at h
    · next q rest others hx =>
      obtain rfl := Option.some.inj h
      obtain ⟨a, ha, hperm⟩ := extractFirst_perm hx
      obtain ⟨rfl, hq⟩ := expansion?_eq_some_iff.mp ha
      exact .inl ⟨q, List.mem_of_find?_eq_some hq, rest, others, hperm, rfl⟩
    · next hx => exact .inr ⟨hx, (Option.some.inj h).symm⟩

/-- What a step does to the productions. -/
lemma step_cases (h : e.step = some e') :
    ∃ p later, e.pending = p :: later ∧
      ((∃ q ∈ e.settled, ∃ rest others,
          p.alternatives.Perm ((.nonterminal q.name :: rest) :: others) ∧
          e'.settled = e.settled ∧ e'.pending = replace p q rest others :: later) ∨
        extractFirst (expansion? e.settled) p.alternatives = none ∧ e' = e.settle p later) := by
  obtain ⟨p, later, hp, ⟨q, hq, rest, others, hperm, rfl⟩ | hsettle⟩ := step_eq_some h
  · exact ⟨p, later, hp, .inl ⟨q, hq, rest, others, hperm, rfl, rfl⟩⟩
  · exact ⟨p, later, hp, .inr hsettle⟩

lemma any_isRecursive_iff :
    p.alternatives.any (isRecursive p.name) = true ↔ p.LeadsTo p.name := by
  simp [Production.LeadsTo, isRecursive]

/-- A production is settled as it is, or it is split in two if an alternative begins with its
nonterminal, whose name the new one extends. -/
lemma settle_eq (e : Elimination) (p : Production) (later : List Production) :
    (e.settle p later).pending = later ∧
      (¬ p.LeadsTo p.name ∧ (e.settle p later).settled = p :: e.settled ∨
        p.LeadsTo p.name ∧ ∃ taken tail, tail = freshName taken p.name "tail" ∧
          tail ∉ mentionedNames (e.settled ++ p :: later) ∧
          (e.settle p later).settled =
            (splitRecursion p tail).2 :: (splitRecursion p tail).1 :: e.settled) := by
  rw [settle]
  split
  · next h =>
    exact ⟨rfl, .inr ⟨any_isRecursive_iff.mp h, _, _, rfl, freshName_not_mem _ _ _, rfl⟩⟩
  · next h => exact ⟨rfl, .inl ⟨any_isRecursive_iff.not.mp h, rfl⟩⟩

/-- A production is settled as it is, or it is split in two if an alternative begins with its
nonterminal. -/
lemma settle_cases (e : Elimination) (p : Production) (later : List Production) :
    (e.settle p later).pending = later ∧
      (¬ p.LeadsTo p.name ∧ (e.settle p later).settled = p :: e.settled ∨
        p.LeadsTo p.name ∧ ∃ tail, tail ∉ mentionedNames (e.settled ++ p :: later) ∧
          (e.settle p later).settled =
            (splitRecursion p tail).2 :: (splitRecursion p tail).1 :: e.settled) := by
  obtain ⟨hpending, hkept | ⟨hlead, taken, tail, -, htail, hsettled⟩⟩ := settle_eq e p later
  · exact ⟨hpending, .inl hkept⟩
  · exact ⟨hpending, .inr ⟨hlead, tail, htail, hsettled⟩⟩

lemma keepsLanguages_step (h : e.step = some e') (hps : (namesOf e.productions).Nodup) :
    KeepsLanguages e.productions e'.productions := by
  obtain ⟨p, later, hp, ⟨q, hq, rest, others, hperm, hs, hpend⟩ | ⟨-, rfl⟩⟩ := step_cases h
  · rw [productions, hp] at hps
    rw [productions, productions, hp]
    rw [hs, hpend]
    exact .substitute hps (by simp [hq]) fun a => by rw [hperm.mem_iff, List.mem_cons]
  · obtain ⟨hpend, ⟨-, hs⟩ | ⟨-, tail, htail, hs⟩⟩ := settle_cases e p later
    · -- the production only moves to the settled ones
      have : (e.settle p later).productions = e.productions := by
        simp [productions, hpend, hs, hp]
      rw [this]
      exact .refl hps
    · rw [productions, hp] at hps
      rw [productions, productions, hp]
      rw [hs, hpend]
      simpa using KeepsLanguages.splitRecursion hps
        (mentionedNames_reverse_append.not.mpr htail)

/-- What steps preserve is preserved by a run, which ends when there is nothing left to do. -/
lemma run_induction {motive : Elimination → Prop} (h : e.run fuel = some e')
    (start : motive e) (step : ∀ e e', motive e → e.step = some e' → motive e') :
    motive e' ∧ e'.step = none := by
  induction fuel generalizing e with
  | zero => exact absurd h (by simp [run])
  | succ fuel ih =>
    rw [run] at h
    split at h
    · next hstep =>
      obtain rfl := Option.some.inj h
      exact ⟨start, hstep⟩
    · next e₁ hstep => exact ih h (step e e₁ start hstep)

end Elimination

lemma Grammar.keepsLanguages_removeLeftRecursion {g : Grammar} {fuel : Nat} {t : Transformed}
    (hg : (namesOf g.productions).Nodup) (h : g.removeLeftRecursion fuel = some t) :
    KeepsLanguages g.productions t.grammar.productions := by
  obtain ⟨e, he, rfl⟩ := Option.map_eq_some_iff.mp h
  have hrun := (Elimination.run_induction
    (motive := fun e => KeepsLanguages g.productions e.productions) he (.refl hg)
    fun e e' hk hstep => hk.trans (Elimination.keepsLanguages_step hstep hk.nodup)).1
  exact hrun.trans (.toCanonical hrun.nodup)

/-! ### Left factoring -/

lemma Production.isShared_shared {p : Production} (h : p.shared ≠ []) :
    IsShared p.alternatives p.shared :=
  (longest_longestShared [] p.alternatives).eq_or_mem.resolve_left h

lemma Production.continues_shared {p : Production} (h : p.shared ≠ []) :
    ∃ d, Continues p p.shared d := by
  obtain ⟨a, b, hsub, ⟨d, rfl⟩, -⟩ := p.isShared_shared h
  exact ⟨d, hsub.subset List.mem_cons_self⟩

/-- The change that factoring makes to a production, which is followed by what came after the
common phrase. -/
def Production.factor (p : Production) (rest : String) : List Production :=
  [(p.splitShared p.shared rest).1.toCanonical, (p.splitShared p.shared rest).2.toCanonical]

/-- Factoring a production keeps the languages. -/
lemma KeepsLanguages.factor {l r : List Production} {p : Production} {T : String}
    (hps : (namesOf (l ++ p :: r)).Nodup) (hshared : p.shared ≠ [])
    (hT : T ∉ mentionedNames (l ++ p :: r)) :
    KeepsLanguages (l ++ p :: r) (l ++ (p.factor T ++ r)) := by
  -- first the production is split in two, then both of them are put into canonical form
  have hsplit := KeepsLanguages.splitShared hps hT (p.continues_shared hshared)
  refine hsplit.trans (.of_ruleSetOf_iff hsplit.nodup ?_ fun n a => ?_)
  · simp [Production.factor, Production.toCanonical]
  · simp [Production.factor, ruleSetOf_insert, Production.toCanonical, mem_canonical]

/-- A production is left as it is, or it is factored with a fresh name that extends its own. -/
lemma FactoringPass.visit_cons_eq (f : FactoringPass) (p : Production) (later : List Production) :
    p.shared = [] ∧ visit f (p :: later) = visit { f with visited := p :: f.visited } later ∨
      p.shared ≠ [] ∧ ∃ taken T notices, T = freshName taken p.name "rest" ∧
        T ∉ mentionedNames (f.visited ++ p :: later) ∧
        visit f (p :: later) = visit ⟨(p.factor T).reverse ++ f.visited, notices, true⟩ later := by
  rw [visit]
  split
  · next h => exact .inl ⟨by simpa using h, rfl⟩
  · next h => exact .inr ⟨by simpa using h, _, _, _, rfl, freshName_not_mem _ _ _, rfl⟩

/-- A production is left as it is, or it is factored with a fresh name. -/
lemma FactoringPass.visit_cons (f : FactoringPass) (p : Production) (later : List Production) :
    p.shared = [] ∧ visit f (p :: later) = visit { f with visited := p :: f.visited } later ∨
      p.shared ≠ [] ∧ ∃ T notices, T ∉ mentionedNames (f.visited ++ p :: later) ∧
        visit f (p :: later) = visit ⟨(p.factor T).reverse ++ f.visited, notices, true⟩ later := by
  rcases visit_cons_eq f p later with hkept | ⟨hshared, taken, T, notices, -, hT, hvisit⟩
  · exact .inl hkept
  · exact .inr ⟨hshared, T, notices, hT, hvisit⟩

section

variable {motive : List Production → Prop}
  (step : ∀ l p r taken T, T = freshName taken p.name "rest" → motive (l ++ p :: r) →
    p.shared ≠ [] → T ∉ mentionedNames (l ++ p :: r) → motive (l ++ (p.factor T ++ r)))
include step

/-- What factoring a single production preserves is preserved by a pass. -/
lemma FactoringPass.visit_induction (visited later : List Production) (notices : List Notice)
    (changed : Bool) (start : motive (visited.reverse ++ later)) :
    motive (visit ⟨visited, notices, changed⟩ later).visited.reverse := by
  induction later generalizing visited notices changed with
  | nil =>
    rw [List.append_nil] at start
    exact start
  | cons p later ih =>
    rcases visit_cons_eq ⟨visited, notices, changed⟩ p later with
      ⟨-, hvisit⟩ | ⟨hshared, taken, T, told, hname, hT, hvisit⟩
    · rw [hvisit]
      refine ih _ _ _ ?_
      simpa using start
    · rw [hvisit]
      refine ih _ _ _ ?_
      have hnext := step visited.reverse p later taken T hname start hshared
        (mentionedNames_reverse_append.not.mpr hT)
      simpa using hnext

lemma Factored.iterate_induction (fuel : Nat) (f : Factored)
    (start : motive f.grammar.productions) : motive (iterate fuel f).grammar.productions := by
  induction fuel generalizing f with
  | zero => exact start
  | succ fuel ih =>
    have hpass : motive (FactoringPass.ofProductions f.grammar.productions).visited.reverse :=
      FactoringPass.visit_induction step [] f.grammar.productions [] false start
    rw [iterate]
    split
    · exact ih ⟨⟨{ f.grammar with productions := _ }, _⟩, _⟩ hpass
    · exact hpass

/-- What factoring a single production preserves is preserved by left factoring.  The new
nonterminal has a fresh name that extends the one of the old. -/
lemma Grammar.leftFactor_induction_name {g : Grammar} (start : motive g.productions) :
    motive g.leftFactor.grammar.productions :=
  Factored.iterate_induction step _ ⟨⟨g, []⟩, 0⟩ start

end

/-- What factoring a single production preserves is preserved by left factoring. -/
lemma Grammar.leftFactor_induction {motive : List Production → Prop}
    (step : ∀ l p r T, motive (l ++ p :: r) → p.shared ≠ [] →
      T ∉ mentionedNames (l ++ p :: r) → motive (l ++ (p.factor T ++ r)))
    {g : Grammar} (start : motive g.productions) : motive g.leftFactor.grammar.productions :=
  leftFactor_induction_name (fun l p r _ T _ => step l p r T) start

lemma Grammar.keepsLanguages_leftFactor {g : Grammar} (hg : (namesOf g.productions).Nodup) :
    KeepsLanguages g.productions g.leftFactor.grammar.productions := by
  refine Grammar.leftFactor_induction (motive := KeepsLanguages g.productions) ?_ (.refl hg)
  intro l p r T hk hshared hT
  exact hk.trans (.factor hk.nodup hshared hT)

lemma Grammar.keepsLanguages_normalize {g : Grammar} {fuel : Nat} {n : Normalization}
    (hg : (namesOf g.productions).Nodup) (h : g.normalize fuel = some n) :
    KeepsLanguages g.productions n.grammar.productions := by
  obtain ⟨t, ht, rfl⟩ := Option.map_eq_some_iff.mp h
  have hfree := Grammar.keepsLanguages_removeLeftRecursion hg ht
  exact hfree.trans (Grammar.keepsLanguages_leftFactor hfree.nodup)

/-- **Normalization keeps the language of every nonterminal.**  Once left recursion has been
removed, there is a normal form, and the nonterminals of the grammar derive the same strings in
the grammar itself, without left recursion and in normal form. -/
theorem Grammar.language_normalize {g : Grammar} {fuel : Nat} {t : Transformed}
    (hg : g.WellFormed) (h : g.removeLeftRecursion fuel = some t) :
    ∃ n, g.normalize fuel = some n ∧ n.recursionFree = t ∧
      ∀ A ∈ g.nonterminals, g.language A = t.grammar.language A ∧
        t.grammar.language A = n.grammar.language A := by
  refine ⟨⟨t, t.grammar.leftFactor⟩, by rw [Grammar.normalize, h]; rfl, rfl, fun A hA => ?_⟩
  have hfree := Grammar.keepsLanguages_removeLeftRecursion hg.nodup h
  have hfactored := Grammar.keepsLanguages_leftFactor hfree.nodup
  exact ⟨hfree.language_eq hA, hfactored.language_eq (hfree.names_subset hA)⟩

/-- Lists that grow at their end, and entries that go on from lists in two ways. -/
def branchingList : Grammar where
  productions := [⟨"list", [[.nonterminal "entry"], [.nonterminal "list", .terminal .comma]]⟩,
    ⟨"entry", [[.terminal .identifier],
      [.nonterminal "list", .terminal .semicolon, .terminal .star],
      [.nonterminal "list", .terminal .semicolon, .terminal .identifier]]⟩]
  start := "list"

lemma wellFormed_branchingList : branchingList.WellFormed := by
  have h : Grammar.define [.rule "list" [.nonterminal "entry"],
      .rule "list" [.nonterminal "list", .terminal .comma],
      .rule "entry" [.terminal .identifier],
      .rule "entry" [.nonterminal "list", .terminal .semicolon, .terminal .star],
      .rule "entry" [.nonterminal "list", .terminal .semicolon, .terminal .identifier]] =
      .ok branchingList := by decide +kernel
  exact Grammar.wellFormed_of_define h

/-- In such a list, entries begin with the list before them, which is replaced; then the two ways
in which an entry goes on begin alike, and what comes after the semicolon is taken out.  The
languages stay the same. -/
theorem language_normalize_branchingList : ∃ t n,
    branchingList.removeLeftRecursion 5 = some t ∧ branchingList.normalize 5 = some n ∧
    t.grammar.alternatives? "entry_tail1" = some [[],
      [.nonterminal "list_tail1", .terminal .semicolon, .terminal .star,
        .nonterminal "entry_tail1"],
      [.nonterminal "list_tail1", .terminal .semicolon, .terminal .identifier,
        .nonterminal "entry_tail1"]] ∧
    n.grammar.alternatives? "entry_tail1" = some [[],
      [.nonterminal "list_tail1", .terminal .semicolon, .nonterminal "entry_tail1_rest1"]] ∧
    ∀ A ∈ ["list", "entry"], branchingList.language A = t.grammar.language A ∧
      t.grammar.language A = n.grammar.language A := by
  have hfree : (branchingList.removeLeftRecursion 5).map (·.grammar.alternatives? "entry_tail1") =
      some (some [[],
        [.nonterminal "list_tail1", .terminal .semicolon, .terminal .star,
          .nonterminal "entry_tail1"],
        [.nonterminal "list_tail1", .terminal .semicolon, .terminal .identifier,
          .nonterminal "entry_tail1"]]) := by decide +kernel
  have hnormal : (branchingList.normalize 5).map (·.grammar.alternatives? "entry_tail1") =
      some (some [[],
        [.nonterminal "list_tail1", .terminal .semicolon, .nonterminal "entry_tail1_rest1"]]) := by
    decide +kernel
  obtain ⟨t, ht, hfree⟩ := Option.map_eq_some_iff.mp hfree
  obtain ⟨n, hn, -, hall⟩ := Grammar.language_normalize wellFormed_branchingList ht
  rw [hn, Option.map_some, Option.some.injEq] at hnormal
  exact ⟨t, n, ht, hn, hfree, hnormal, fun A hA => hall A hA⟩

end LL1
