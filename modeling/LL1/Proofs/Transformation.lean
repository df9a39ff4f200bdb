/-
# What every grammar keeps

A grammar is defined by steps, and then it can be freed from left recursion and left-factored, as
often as one likes.  Neither of the two transformations takes a nonterminal away or moves one past
another; each puts new ones between them, whose names are fresh and extend the name of the one
before.  So all grammars that one can come to are well-formed.
-/
import LL1.Proofs.Compilation
import LL1.Proofs.Idempotence

namespace LL1

/-! ### The names of the nonterminals -/

/-- The productions `qs` have the names of `ps`, in the same order, and between them others that
are proper names if those are. -/
structure ExtendsNames (ps qs : List Production) : Prop where
  sublist : (namesOf ps).Sublist (namesOf qs)
  isName : (∀ n ∈ namesOf ps, isName n = true) → ∀ n ∈ namesOf qs, isName n = true

namespace ExtendsNames

variable {ps qs rs l r : List Production} {p x y : Production}

lemma of_eq (h : namesOf qs = namesOf ps) : ExtendsNames ps qs where
  sublist := h ▸ List.Sublist.refl _
  isName hps := h ▸ hps

lemma trans (h₁ : ExtendsNames ps qs) (h₂ : ExtendsNames qs rs) : ExtendsNames ps rs where
  sublist := h₁.sublist.trans h₂.sublist
  isName hps := h₂.isName (h₁.isName hps)

/-- A production keeps its name, and a new one is put behind it. -/
lemma split (hx : x.name = p.name) (hy : LL1.isName p.name = true → LL1.isName y.name = true) :
    ExtendsNames (l ++ p :: r) (l ++ x :: y :: r) where
  sublist := by
    simp only [namesOf, List.map_append, List.map_cons, hx]
    exact (List.Sublist.refl _).append ((List.sublist_cons_self _ _).cons_cons _)
  isName hps := by
    simp only [namesOf, List.map_append, List.map_cons, List.forall_mem_append,
      List.forall_mem_cons, hx] at hps ⊢
    obtain ⟨hl, hp, hr⟩ := hps
    exact ⟨hl, hp, hy hp, hr⟩

end ExtendsNames

lemma Elimination.extendsNames_step {e e' : Elimination} (h : e.step = some e') :
    ExtendsNames e.productions e'.productions := by
  obtain ⟨p, later, hp, ⟨q, -, rest, others, -, hs, hpend⟩ | ⟨-, rfl⟩⟩ := step_cases h
  · refine .of_eq ?_
    simp [productions, hp, hs, hpend, replace]
  · obtain ⟨hpend, ⟨-, hs⟩ | ⟨-, taken, tail, rfl, -, hs⟩⟩ := settle_eq e p later
    · refine .of_eq ?_
      simp [productions, hp, hs, hpend]
    · have hname : isName p.name = true → isName (freshName taken p.name "tail") = true :=
        fun hp => isName_freshName taken hp (by decide)
      simp only [productions, hp, hs, hpend, List.reverse_cons, List.append_assoc,
        List.singleton_append]
      exact .split rfl hname

lemma Grammar.extendsNames_removeLeftRecursion {g : Grammar} {fuel : Nat} {t : Transformed}
    (h : g.removeLeftRecursion fuel = some t) :
    ExtendsNames g.productions t.grammar.productions := by
  obtain ⟨e, he, rfl⟩ := Option.map_eq_some_iff.mp h
  have hrun := (Elimination.run_induction
    (motive := fun e => ExtendsNames g.productions e.productions) he (.of_eq rfl)
    fun e e' hnames hstep => hnames.trans (Elimination.extendsNames_step hstep)).1
  exact hrun.trans (.of_eq (by simp [Production.toCanonical]))

lemma Grammar.extendsNames_leftFactor (g : Grammar) :
    ExtendsNames g.productions g.leftFactor.grammar.productions := by
  refine Grammar.leftFactor_induction_name (motive := ExtendsNames g.productions) ?_ (.of_eq rfl)
  rintro l p r taken _ rfl hnames - -
  exact hnames.trans (.split rfl fun hp => isName_freshName taken hp (by decide))

/-! ### The two transformations -/

namespace Grammar

variable {g g' g'' : Grammar} {fuel : Nat} {t : Transformed} {n : Normalization}

/-- The grammar `g'` has the start symbol and the nonterminals of `g`, in the same order.  Those
that it has besides have names that no nonterminal of `g` has. -/
structure ExtendedBy (g g' : Grammar) : Prop where
  start_eq : g'.start = g.start
  sublist : g.nonterminals.Sublist g'.nonterminals
  added : ∀ n ∈ g'.nonterminals.diff g.nonterminals, n ∉ g.nonterminals

/-- What a transformation of `g` into `g'` achieves. -/
structure TransformsTo (g g' : Grammar) : Prop where
  start_eq : g'.start = g.start
  names : ExtendsNames g.productions g'.productions
  keeps : KeepsLanguages g.productions g'.productions
  canonical : CanonicalForm g'.productions

namespace TransformsTo

lemma trans (h₁ : g.TransformsTo g') (h₂ : g'.TransformsTo g'') : g.TransformsTo g'' where
  start_eq := h₂.start_eq.trans h₁.start_eq
  names := h₁.names.trans h₂.names
  keeps := h₁.keeps.trans h₂.keeps
  canonical := h₂.canonical

lemma wellFormed (h : g.TransformsTo g') (hg : g.WellFormed) : g'.WellFormed where
  nodup := h.keeps.nodup
  start_mem := h.start_eq ▸ h.names.sublist.subset hg.start_mem
  isName := h.names.isName hg.isName
  increasing := h.canonical
  noMarker := h.keeps.avoids .epsilon hg.noMarker

lemma extendedBy (h : g.TransformsTo g') : g.ExtendedBy g' where
  start_eq := h.start_eq
  sublist := h.names.sublist
  added _ hn := (h.keeps.nodup.mem_sdiff_iff.mp hn).2

end TransformsTo

lemma transformsTo_removeLeftRecursion (hg : g.WellFormed)
    (h : g.removeLeftRecursion fuel = some t) : g.TransformsTo t.grammar where
  start_eq := by
    obtain ⟨e, -, rfl⟩ := Option.map_eq_some_iff.mp h
    rfl
  names := extendsNames_removeLeftRecursion h
  keeps := keepsLanguages_removeLeftRecursion hg.nodup h
  canonical := (leadsForward_removeLeftRecursion hg.nodup h).2

lemma transformsTo_leftFactor (hg : g.WellFormed) : g.TransformsTo g.leftFactor.grammar where
  start_eq := Factored.start_iterate _ _
  names := extendsNames_leftFactor g
  keeps := keepsLanguages_leftFactor hg.nodup
  canonical := by
    -- for canonical form alone, the order of the nonterminals need not be looked at
    have hg' : FactoredForward [] g.productions :=
      ⟨List.nil_subset _, ⟨List.pairwise_of_forall fun _ _ h => absurd h List.not_mem_nil,
        fun _ _ h => absurd h List.not_mem_nil⟩, hg.increasing⟩
    exact (factoredForward_leftFactor hg').canonical

lemma transformsTo_normalize (hg : g.WellFormed) (h : g.normalize fuel = some n) :
    g.TransformsTo n.grammar := by
  obtain ⟨t, ht, rfl⟩ := Option.map_eq_some_iff.mp h
  have hfree := transformsTo_removeLeftRecursion hg ht
  exact hfree.trans (transformsTo_leftFactor (hfree.wellFormed hg))

end Grammar

/-! ### The grammars that one can come to -/

/-- If no step is refused, then none is passed over. -/
lemma Draft.applyPossible_eq {d d' : Draft} {steps : List DraftStep}
    (h : d.applyAll steps = (d', none)) : d.applyPossible steps = d' := by
  induction steps generalizing d with
  | nil => exact congrArg Prod.fst h
  | cons s steps ih =>
    rw [Draft.applyAll] at h
    rw [Draft.applyPossible]
    split at h
    · next hs => exact ih h
    · exact absurd (congrArg Prod.snd h) (by simp)

namespace Grammar

variable {g : Grammar}

/-- A grammar is reachable if it is defined by steps, those that are refused being passed over, or
if it comes of a reachable one by a transformation. -/
inductive Reachable : Grammar → Prop
  | definition {steps : List DraftStep} {g : Grammar} :
      (Draft.empty.applyPossible steps).finish = .ok g → Reachable g
  | removeLeftRecursion {g : Grammar} {fuel : Nat} {t : Transformed} :
      Reachable g → g.removeLeftRecursion fuel = some t → Reachable t.grammar
  | leftFactor {g : Grammar} : Reachable g → Reachable g.leftFactor.grammar
  | normalize {g : Grammar} {fuel : Nat} {n : Normalization} :
      Reachable g → g.normalize fuel = some n → Reachable n.grammar

/-- A definition that is not refused comes to a reachable grammar. -/
lemma reachable_of_define {steps : List DraftStep} (h : Grammar.define steps = .ok g) :
    g.Reachable := by
  rw [Grammar.define] at h
  split at h
  · next d hd => exact .definition (Draft.applyPossible_eq hd ▸ h)
  · exact absurd h (by simp)

lemma Reachable.wellFormed (h : g.Reachable) : g.WellFormed := by
  induction h with
  | definition h => exact Grammar.wellFormed_of_applyPossible h
  | removeLeftRecursion _ h ih => exact (transformsTo_removeLeftRecursion ih h).wellFormed ih
  | leftFactor _ ih => exact (transformsTo_leftFactor ih).wellFormed ih
  | normalize _ h ih => exact (transformsTo_normalize ih h).wellFormed ih

/-- **Every reachable grammar is well-formed**, and what a transformation makes of it extends it. -/
theorem Reachable.wellFormed_and_extendedBy (h : g.Reachable) :
    g.WellFormed ∧
    (∀ fuel t, g.removeLeftRecursion fuel = some t → g.ExtendedBy t.grammar) ∧
    g.ExtendedBy g.leftFactor.grammar ∧
    ∀ fuel n, g.normalize fuel = some n → g.ExtendedBy n.grammar :=
  ⟨h.wellFormed, fun _ _ ht => (transformsTo_removeLeftRecursion h.wellFormed ht).extendedBy,
    (transformsTo_leftFactor h.wellFormed).extendedBy,
    fun _ _ hn => (transformsTo_normalize h.wellFormed hn).extendedBy⟩

end Grammar

/-- A list of identifiers and stars, separated by commas, that grows at its end. -/
def entryList : Grammar where
  productions := [⟨"list", [[.terminal .identifier],
    [.nonterminal "list", .terminal .comma, .terminal .star],
    [.nonterminal "list", .terminal .comma, .terminal .identifier]]⟩]
  start := "list"

lemma reachable_entryList : entryList.Reachable := by
  have h : Grammar.define [.rule "list" [.terminal .identifier],
      .rule "list" [.nonterminal "list", .terminal .comma, .terminal .star],
      .rule "list" [.nonterminal "list", .terminal .comma, .terminal .identifier]] =
      .ok entryList := by decide +kernel
  exact Grammar.reachable_of_define h

/-- In the normal form of such a list, what can come after a comma is a nonterminal of its own. -/
theorem Grammar.extendedBy_entryList :
    entryList.Reachable ∧ entryList.WellFormed ∧
    ∃ n, entryList.normalize 3 = some n ∧ entryList.ExtendedBy n.grammar ∧
      n.grammar.nonterminals = ["list", "list_tail1", "list_tail1_rest1"] ∧
      n.grammar.Reachable ∧ n.grammar.WellFormed := by
  have h : (entryList.normalize 3).map (·.grammar.nonterminals) =
      some ["list", "list_tail1", "list_tail1_rest1"] := by decide +kernel
  obtain ⟨n, hn, hnames⟩ := Option.map_eq_some_iff.mp h
  obtain ⟨hgiven, -, -, hnormal⟩ := reachable_entryList.wellFormed_and_extendedBy
  have hreachable : n.grammar.Reachable := reachable_entryList.normalize hn
  exact ⟨reachable_entryList, hgiven, n, hn, hnormal 3 n hn, hnames, hreachable,
    hreachable.wellFormed_and_extendedBy.1⟩

end LL1
