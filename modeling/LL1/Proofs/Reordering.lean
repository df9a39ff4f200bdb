/-
# The order and the repetition of rules

What a definition comes to depends on little: the order in which nonterminals are declared, the set
of alternatives that each of them is given, and the start symbol.  A draft has just these when its
steps are over, apart from the order of the alternatives and from those that were given more than
once; and the canonical form, in which the draft is finished, shows neither.
-/
import LL1.Compilation
import LL1.Proofs.Occurrences
import LL1.Proofs.WellFormed
import Mathlib.Data.List.Destutter

namespace LL1

/-! ### Canonical form stands for a set -/

section

variable {α : Type}

/-- No element gets lost with its repetitions. -/
lemma mem_destutter' [DecidableEq α] {as : List α} {a : α} (b : α) :
    a ∈ as.destutter' (· ≠ ·) b ↔ a ∈ b :: as := by
  induction as generalizing b with
  | nil => rfl
  | cons c as ih =>
    by_cases hbc : b = c
    · subst hbc
      rw [List.destutter'_cons_neg as (by simp), ih]
      simp
    · rw [List.destutter'_cons_pos as hbc, List.mem_cons, ih]
      exact List.mem_cons.symm

variable [Ord α] [Std.TransOrd α]

/-- What has been sorted is in order. -/
lemma pairwise_isLE_mergeSort (as : List α) :
    (as.mergeSort fun a b => (compare a b).isLE).Pairwise fun a b => (compare a b).isLE := by
  refine List.pairwise_mergeSort (fun a b c => Std.TransCmp.isLE_trans) (fun a b => ?_) as
  have hswap : compare b a = (compare a b).swap := Std.OrientedCmp.eq_swap
  rw [hswap]
  cases compare a b <;> rfl

variable [Std.LawfulEqOrd α] {as bs : List α}

/-- Increasing lists with the same elements are the same. -/
lemma Increasing.eq_of_mem_iff (has : Increasing as) (hbs : Increasing bs)
    (h : ∀ a, a ∈ as ↔ a ∈ bs) : as = bs := by
  have hperm : as.Perm bs := (List.perm_ext_iff_of_nodup has.nodup hbs.nodup).mpr h
  refine List.Perm.eq_of_pairwise (fun a b _ _ hab hba => ?_) has hbs hperm
  exact absurd hab (Std.OrientedCmp.not_lt_of_lt hba)

/-- The canonical form depends on the elements only. -/
lemma canonical_eq_of_mem_iff (h : ∀ a, a ∈ as ↔ a ∈ bs) : canonical as = canonical bs :=
  (increasing_canonical as).eq_of_mem_iff (increasing_canonical bs) fun a => by
    rw [mem_canonical, mem_canonical, h]

/-! Canonical form can be reached by sorting and then removing the neighbours that are equal. -/

variable [DecidableEq α] {a : α}

/-- Sorted elements increase when no neighbours are equal any more. -/
lemma increasing_destutter (h : as.Pairwise fun a b => (compare a b).isLE) :
    Increasing (as.destutter (· ≠ ·)) := by
  have hsorted := (h.sublist (List.destutter_sublist (· ≠ ·) as)).isChain
  have hdistinct := List.isChain_destutter (· ≠ ·) as
  rw [List.isChain_iff_getElem] at hsorted hdistinct
  have htrans : Trans (fun a b : α => compare a b = .lt) (fun a b => compare a b = .lt)
      (fun a b => compare a b = .lt) := ⟨Std.TransCmp.lt_trans⟩
  -- it is enough to compare neighbours
  refine List.IsChain.pairwise (List.isChain_iff_getElem.mpr fun i hi => ?_)
  have hne : compare (as.destutter (· ≠ ·))[i] (as.destutter (· ≠ ·))[i + 1] ≠ .eq :=
    fun heq => hdistinct i hi (Std.LawfulEqCmp.eq_of_compare heq)
  exact (Ordering.isLE_iff_eq_lt_or_eq_eq.mp (hsorted i hi)).resolve_right hne

/-- **Canonical form is what sorting comes to when equal neighbours are removed.** -/
theorem canonical_eq_destutter_mergeSort (as : List α) :
    canonical as = (as.mergeSort fun a b => (compare a b).isLE).destutter (· ≠ ·) := by
  refine (increasing_canonical as).eq_of_mem_iff
    (increasing_destutter (pairwise_isLE_mergeSort as)) fun a => ?_
  have hdestutter (bs : List α) : a ∈ bs.destutter (· ≠ ·) ↔ a ∈ bs := by
    cases bs with
    | nil => rfl
    | cons b bs => exact mem_destutter' b
  rw [mem_canonical, hdestutter, List.mem_mergeSort]

/-- A list without repetitions is brought into canonical form by sorting alone. -/
lemma mergeSort_eq_canonical (h : as.Nodup) :
    (as.mergeSort fun a b => (compare a b).isLE) = canonical as := by
  have hnodup : (as.mergeSort fun a b => (compare a b).isLE).Nodup :=
    (List.mergeSort_perm as _).nodup_iff.mpr h
  rw [canonical_eq_destutter_mergeSort, List.destutter_of_isChain _ _ hnodup.isChain]

end

/-! ### What the steps of a definition amount to -/

namespace DraftStep

/-- The nonterminal that a step declares if it is new. -/
def declared? : DraftStep → Option String
  | declare name => some name
  | rule name _ => some name
  | startAt _ => none

/-- The alternative that a step gives to a nonterminal. -/
def given? (n : String) : DraftStep → Option Alternative
  | rule name a => if name = n then some a else none
  | _ => none

/-- The start symbol that a step chooses. -/
def chosen? : DraftStep → Option String
  | startAt name => some name
  | _ => none

/-- The nonterminals that steps declare, in the order in which they first come. -/
def declaredBy (steps : List DraftStep) : List String := (steps.filterMap declared?).eraseDups

/-- The start symbol of a definition: the one that is chosen last, or the first nonterminal. -/
def startOf (steps : List DraftStep) : Option String :=
  (steps.filterMap chosen?).getLast?.or (declaredBy steps).head?

lemma mem_filterMap_given? {steps : List DraftStep} {n : String} {a : Alternative} :
    a ∈ steps.filterMap (given? n) ↔ .rule n a ∈ steps := by
  rw [List.mem_filterMap]
  constructor
  · rintro ⟨s, hs, h⟩
    cases s with
    | rule name b =>
      obtain ⟨rfl, rfl⟩ : name = n ∧ b = a := by simpa [given?] using h
      exact hs
    | declare name => exact absurd h (by simp [given?])
    | startAt name => exact absurd h (by simp [given?])
  · exact fun h => ⟨_, h, by simp [given?]⟩

/-- A rule declares its nonterminal. -/
lemma mem_declaredBy_of_rule {steps : List DraftStep} {n : String} {a : Alternative}
    (h : .rule n a ∈ steps) : n ∈ declaredBy steps :=
  List.mem_eraseDups.mpr (List.mem_filterMap.mpr ⟨_, h, rfl⟩)

lemma declaredBy_concat (steps : List DraftStep) (s : DraftStep) : declaredBy (steps ++ [s]) =
    match s.declared? with
    | some n => if n ∈ declaredBy steps then declaredBy steps else declaredBy steps ++ [n]
    | none => declaredBy steps := by
  cases hs : s.declared? with
  | none => simp [declaredBy, hs]
  | some n =>
    have hconcat : (steps ++ [s]).filterMap declared? = steps.filterMap declared? ++ [n] := by
      simp [hs]
    rw [declaredBy, declaredBy, hconcat, List.eraseDups_append]
    generalize steps.filterMap declared? = names
    by_cases hn : n ∈ names <;> simp [List.removeAll, List.eraseDups_cons, hn]

lemma filterMap_given?_concat (steps : List DraftStep) (s : DraftStep) (n : String) :
    (steps ++ [s]).filterMap (given? n) = steps.filterMap (given? n) ++ (s.given? n).toList := by
  rw [List.filterMap_append]
  cases hs : s.given? n <;> simp [hs]

end DraftStep

namespace Draft

open DraftStep

variable {d d' : Draft} {done steps : List DraftStep} {s : DraftStep} {name n : String}
  {a : Alternative} {as : List Alternative}

/-- The draft is what the steps amount to. -/
structure Records (d : Draft) (steps : List DraftStep) : Prop where
  declared_eq : d.declared.reverse = declaredBy steps
  alternatives_eq : ∀ n, (d.alternatives.getD n []).reverse = steps.filterMap (given? n)
  start_eq : d.start = (steps.filterMap chosen?).getLast?

lemma records_empty : empty.Records [] where
  declared_eq := rfl
  alternatives_eq n := by simp [empty]
  start_eq := rfl

lemma Records.mem_declaredBy (h : d.Records done) : n ∈ declaredBy done ↔ n ∈ d.declared := by
  rw [← h.declared_eq, List.mem_reverse]

/-- A new nonterminal with the alternatives that it is given. -/
lemma Records.extend (hd : d.Consistent) (h : d.Records done) (hnew : name ∉ d.alternatives)
    (hname : s.declared? = some name)
    (has : ∀ n, (s.given? n).toList = if name = n then as.reverse else [])
    (hstart : s.chosen? = none) : (d.extend name as).Records (done ++ [s]) where
  declared_eq := by
    have hnew' : name ∉ declaredBy done := by rwa [h.mem_declaredBy, hd.mem_declared]
    simp only [declaredBy_concat, hname, if_neg hnew', Draft.extend, List.reverse_cons,
      h.declared_eq]
  alternatives_eq n := by
    rw [filterMap_given?_concat, has, ← h.alternatives_eq, Draft.extend, Std.TreeMap.getD_insert]
    by_cases hn : name = n
    · subst hn
      simp [Std.TreeMap.getD_eq_fallback hnew]
    · simp [hn]
  start_eq := by simp [Draft.extend, hstart, h.start_eq]

/-- A step that is not refused is recorded. -/
lemma Records.apply (hd : d.Consistent) (h : d.Records done) (hs : d.apply s = .ok d') :
    d'.Records (done ++ [s]) := by
  cases applied_of_apply hs with
  | declare hname hnew =>
    exact h.extend hd hnew rfl (fun n => by simp [given?]) rfl
  | @further name a as ha hold =>
    have hmem : name ∈ d.alternatives := Std.TreeMap.mem_iff_isSome_getElem?.mpr (by simp [hold])
    have hdeclared : name ∈ declaredBy done := by rwa [h.mem_declaredBy, hd.mem_declared]
    refine ⟨by simp [declaredBy_concat, declared?, hdeclared, h.declared_eq], fun n => ?_, ?_⟩
    · rw [filterMap_given?_concat, ← h.alternatives_eq, Std.TreeMap.getD_insert]
      by_cases hn : name = n
      · subst hn
        simp [given?, Std.TreeMap.getD_eq_getD_getElem?, hold]
      · simp [given?, hn]
    · simp [chosen?, h.start_eq]
  | first hname ha hnew =>
    exact h.extend hd hnew rfl (fun n => by simp only [given?]; split <;> rfl) rfl
  | startAt =>
    refine ⟨by simp [declaredBy_concat, declared?, h.declared_eq], fun n => ?_, by simp [chosen?]⟩
    simp [given?, h.alternatives_eq]

/-- Steps of which none is refused are recorded. -/
lemma Records.applyAll (hd : d.Consistent) (h : d.Records done)
    (hsteps : d.applyAll steps = (d', none)) : d'.Records (done ++ steps) := by
  induction steps generalizing d done with
  | nil =>
    obtain rfl : d = d' := congrArg Prod.fst hsteps
    rwa [List.append_nil]
  | cons s steps ih =>
    rw [Draft.applyAll] at hsteps
    split at hsteps
    · next d₁ hs =>
      have := ih (hd.apply hs) (h.apply hd hs) hsteps
      rwa [List.append_assoc] at this
    · exact absurd (congrArg Prod.snd hsteps) (by simp)

/-! ### What is left of the steps when the draft is finished -/

lemma Records.productions_eq (h : d.Records steps) :
    d.productions.map Production.toCanonical =
      (declaredBy steps).map fun n => ⟨n, canonical (steps.filterMap (given? n))⟩ := by
  rw [productions, h.declared_eq, List.map_map]
  refine List.map_congr_left fun n _ => ?_
  show (⟨n, canonical (d.alternatives.getD n []).reverse⟩ : Production) = _
  rw [h.alternatives_eq]

lemma Records.settleStart_eq (hd : d.Consistent) (h : d.Records steps) :
    d.settleStart = match startOf steps with
      | some n => if n ∈ declaredBy steps then .ok n else .error (.unknownStartSymbol n)
      | none => .error .empty := by
  have hcontains (n : String) : d.alternatives.contains n = true ↔ n ∈ declaredBy steps := by
    rw [h.mem_declaredBy, hd.mem_declared, Std.TreeMap.contains_iff_mem]
  rw [settleStart, startOf, ← h.start_eq]
  cases d.start with
  | some n =>
    simp only [Option.some_or]
    by_cases hn : n ∈ declaredBy steps
    · rw [if_pos hn, if_pos ((hcontains n).mpr hn)]
    · rw [if_neg hn, if_neg fun hm => hn ((hcontains n).mp hm)]
  | none =>
    have hfirst : d.declared.getLast? = (declaredBy steps).head? := by
      rw [← h.declared_eq, List.head?_reverse]
    rw [hfirst, Option.none_or]
    cases hnames : declaredBy steps with
    | nil => rfl
    | cons n names => simp

/-- What is finished in the end depends on the nonterminals with their order, on the set of the rules
and on the start symbol. -/
lemma Records.finish_eq {d₁ d₂ : Draft} {steps₁ steps₂ : List DraftStep} (hd₁ : d₁.Consistent)
    (hd₂ : d₂.Consistent) (h₁ : d₁.Records steps₁) (h₂ : d₂.Records steps₂)
    (hrules : ∀ n a, .rule n a ∈ steps₁ ↔ .rule n a ∈ steps₂)
    (horder : declaredBy steps₁ = declaredBy steps₂) (hstart : startOf steps₁ = startOf steps₂) :
    d₁.finish = d₂.finish := by
  have halternatives (n : String) : canonical (steps₁.filterMap (given? n)) =
      canonical (steps₂.filterMap (given? n)) :=
    canonical_eq_of_mem_iff fun a => by rw [mem_filterMap_given?, mem_filterMap_given?, hrules]
  rw [finish, finish, h₁.settleStart_eq hd₁, h₂.settleStart_eq hd₂, h₁.productions_eq,
    h₂.productions_eq, hstart, horder]
  simp only [halternatives]

/-- The grammar has the nonterminals in order, the start symbol and the rules of the steps. -/
lemma Records.exists_finish_eq_ok (hd : d.Consistent) (h : d.Records steps)
    (hstart : startOf steps = some n) (hn : n ∈ declaredBy steps) :
    ∃ g, d.finish = .ok g ∧ g.start = n ∧ g.nonterminals = declaredBy steps ∧
      ∀ m a, g.ruleSet m a ↔ .rule m a ∈ steps := by
  refine ⟨⟨(declaredBy steps).map fun m => ⟨m, canonical (steps.filterMap (given? m))⟩, n⟩,
    ?_, rfl, ?_, fun m a => ⟨?_, fun hrule => ?_⟩⟩
  · rw [finish, h.settleStart_eq hd, h.productions_eq, hstart]
    simp only [if_pos hn]
    rfl
  · simp [Grammar.nonterminals, Function.comp_def]
  · rintro ⟨p, hp, rfl, ha⟩
    obtain ⟨m, -, rfl⟩ := List.mem_map.mp hp
    rwa [mem_canonical, mem_filterMap_given?] at ha
  · refine ⟨_, List.mem_map_of_mem (mem_declaredBy_of_rule hrule), rfl, ?_⟩
    rwa [mem_canonical, mem_filterMap_given?]

end Draft

/-- **The order and the repetition of rules do not matter.**  Two definitions in which no step is
refused come to the same grammar, or to the same error in the end, if they have the same rules, if
they declare the nonterminals in the same order, counting first times, and if they end with the same
start symbol.  It is the grammar that has just these, provided that the start symbol is declared.  So
all that is computed from the grammars is the same: their normal forms, numbered rules, sets and
tables, and the errors on the way. -/
theorem Grammar.define_eq_of_same_rules {steps₁ steps₂ : List DraftStep}
    (h₁ : (Draft.empty.applyAll steps₁).2 = none) (h₂ : (Draft.empty.applyAll steps₂).2 = none)
    (hrules : ∀ n a, .rule n a ∈ steps₁ ↔ .rule n a ∈ steps₂)
    (horder : DraftStep.declaredBy steps₁ = DraftStep.declaredBy steps₂)
    (hstart : DraftStep.startOf steps₁ = DraftStep.startOf steps₂) :
    Grammar.define steps₁ = Grammar.define steps₂ ∧
    (∀ start, DraftStep.startOf steps₁ = some start → start ∈ DraftStep.declaredBy steps₁ →
      ∃ g, Grammar.define steps₁ = .ok g ∧ g.start = start ∧
        g.nonterminals = DraftStep.declaredBy steps₁ ∧
        ∀ n a, g.ruleSet n a ↔ .rule n a ∈ steps₁) ∧
    ∀ fuel, (Grammar.define steps₁).map (·.normalize fuel) =
        (Grammar.define steps₂).map (·.normalize fuel) ∧
      (Grammar.define steps₁).map (·.compile fuel) =
        (Grammar.define steps₂).map (·.compile fuel) := by
  have hrecords {steps : List DraftStep} {d : Draft} (h : Draft.empty.applyAll steps = (d, none)) :
      Grammar.define steps = d.finish ∧ d.Consistent ∧ d.Records steps := by
    refine ⟨by rw [define, h], ?_, Draft.records_empty.applyAll Draft.consistent_empty h⟩
    have hconsistent : (Draft.empty.applyAll steps).1.Consistent := Draft.consistent_empty.applyAll
    rwa [h] at hconsistent
  obtain ⟨hdefine₁, hd₁, hrecords₁⟩ := hrecords (Prod.ext rfl h₁)
  obtain ⟨hdefine₂, hd₂, hrecords₂⟩ := hrecords (Prod.ext rfl h₂)
  have heq : Grammar.define steps₁ = Grammar.define steps₂ := by
    rw [hdefine₁, hdefine₂]
    exact hrecords₁.finish_eq hd₁ hd₂ hrecords₂ hrules horder hstart
  refine ⟨heq, fun start hchosen hdeclared => ?_, fun fuel => ⟨by rw [heq], by rw [heq]⟩⟩
  rw [hdefine₁]
  exact hrecords₁.exists_finish_eq_ok hd₁ hchosen hdeclared

/-- For instance, identifiers between commas can be defined in two ways, once with the default start
symbol, and once with a rule given twice and the start symbol chosen. -/
theorem Grammar.define_eq_of_same_rules_identifiers :
    let commas := .rule "rest" [.terminal .comma, .nonterminal "list"]
    let list := .rule "list" [.terminal .identifier, .nonterminal "rest"]
    let steps₁ := [list, commas, .rule "rest" []]
    let steps₂ := [.declare "list", .rule "rest" [], list, commas, list, .startAt "list"]
    (Draft.empty.applyAll steps₁).2 = none ∧ (Draft.empty.applyAll steps₂).2 = none ∧
    (∀ n a, .rule n a ∈ steps₁ ↔ .rule n a ∈ steps₂) ∧
    DraftStep.declaredBy steps₁ = ["list", "rest"] ∧
    DraftStep.declaredBy steps₂ = ["list", "rest"] ∧
    DraftStep.startOf steps₁ = some "list" ∧ DraftStep.startOf steps₂ = some "list" ∧
    ∃ g, Grammar.define steps₁ = .ok g ∧ Grammar.define steps₂ = .ok g ∧ g.start = "list" ∧
      g.nonterminals = ["list", "rest"] := by
  intro commas list steps₁ steps₂
  have h₁ : (Draft.empty.applyAll steps₁).2 = none := by decide +kernel
  have h₂ : (Draft.empty.applyAll steps₂).2 = none := by decide +kernel
  have hrules (n : String) (a : Alternative) :
      DraftStep.rule n a ∈ steps₁ ↔ DraftStep.rule n a ∈ steps₂ := by
    simp only [steps₁, steps₂, commas, list, List.mem_cons, List.not_mem_nil, reduceCtorEq]
    tauto
  have horder₁ : DraftStep.declaredBy steps₁ = ["list", "rest"] := by decide +kernel
  have horder₂ : DraftStep.declaredBy steps₂ = ["list", "rest"] := by decide +kernel
  have hstart₁ : DraftStep.startOf steps₁ = some "list" := by decide +kernel
  have hstart₂ : DraftStep.startOf steps₂ = some "list" := by decide +kernel
  obtain ⟨heq, hexists, -⟩ := define_eq_of_same_rules h₁ h₂ hrules
    (horder₁.trans horder₂.symm) (hstart₁.trans hstart₂.symm)
  obtain ⟨g, hg, hstart, hnames, -⟩ := hexists "list" hstart₁ (by rw [horder₁]; decide)
  exact ⟨h₁, h₂, hrules, horder₁, horder₂, hstart₁, hstart₂, g, hg, heq ▸ hg, hstart,
    hnames.trans horder₁⟩

end LL1
