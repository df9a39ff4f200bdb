/-
# Well-formed grammars

A grammar comes from a draft, and a draft takes only steps that keep it in order: nonterminals
are declared once and have proper names, and the marker of the empty string stands nowhere.  So
every grammar that is defined by steps is well-formed, whether a step that is refused ends the
definition or is passed over.
-/
import LL1.Grammar.Draft
import LL1.Proofs.Productions

namespace LL1

/-- The state that every defined grammar is in. -/
structure Grammar.WellFormed (g : Grammar) : Prop where
  nodup : g.nonterminals.Nodup
  start_mem : g.start ∈ g.nonterminals
  isName : ∀ n ∈ g.nonterminals, isName n = true
  increasing : ∀ p ∈ g.productions, Increasing p.alternatives
  noMarker : g.ruleSet.Avoids .epsilon

namespace Draft

variable {d d' : Draft} {name n : String} {a : Alternative} {as : List Alternative}
  {s : DraftStep} {steps : List DraftStep} {g : Grammar}

/-- What every step of a definition preserves. -/
structure Consistent (d : Draft) : Prop where
  nodup : d.declared.Nodup
  mem_declared : ∀ n, n ∈ d.declared ↔ n ∈ d.alternatives
  isName : ∀ n ∈ d.declared, LL1.isName n = true
  noMarker : ∀ n, ∀ a ∈ d.alternatives.getD n [], .terminal .epsilon ∉ a

lemma consistent_empty : empty.Consistent where
  nodup := List.nodup_nil
  mem_declared n := by simp [empty]
  isName n hn := absurd hn List.not_mem_nil
  noMarker n a ha := by simp [empty] at ha

lemma checkName_eq_ok (h : checkName name = .ok ()) : LL1.isName name = true := by
  rw [checkName] at h
  split at h
  · assumption
  · exact absurd h (by simp)

lemma not_mem_of_checkAlternative (h : checkAlternative a = .ok ()) :
    .terminal .epsilon ∉ a := by
  induction a with
  | nil => exact List.not_mem_nil
  | cons s a ih =>
    simp only [checkAlternative, bind, Except.bind] at h
    split at h
    · exact absurd h (by simp)
    · next hs =>
      rw [List.mem_cons, not_or]
      refine ⟨?_, ih h⟩
      rintro rfl
      exact absurd hs (by simp [checkSymbol])

/-- A new nonterminal with proper name and alternatives. -/
lemma Consistent.extend (hd : d.Consistent) (hname : LL1.isName name = true)
    (hnew : name ∉ d.alternatives) (has : ∀ a ∈ as, .terminal .epsilon ∉ a) :
    (d.extend name as).Consistent where
  nodup := List.nodup_cons.mpr ⟨fun h => hnew ((hd.mem_declared name).mp h), hd.nodup⟩
  mem_declared n := by
    simp [Draft.extend, Std.TreeMap.mem_insert, hd.mem_declared, eq_comm (a := n)]
  isName n hn := by
    rcases List.mem_cons.mp hn with rfl | hn
    · exact hname
    · exact hd.isName n hn
  noMarker n a ha := by
    simp only [Draft.extend, Std.TreeMap.getD_insert] at ha
    split at ha
    · exact has a ha
    · exact hd.noMarker n a ha

/-- A further alternative of a nonterminal that exists. -/
lemma Consistent.insert (hd : d.Consistent) (hold : d.alternatives[name]? = some as)
    (ha : .terminal .epsilon ∉ a) :
    Consistent { d with alternatives := d.alternatives.insert name (a :: as) } where
  nodup := hd.nodup
  mem_declared n := by
    have hmem : name ∈ d.alternatives := Std.TreeMap.mem_iff_isSome_getElem?.mpr (by simp [hold])
    rw [hd.mem_declared, Std.TreeMap.mem_insert]
    constructor
    · exact .inr
    · rintro (h | h)
      · exact Std.LawfulEqCmp.eq_of_compare h ▸ hmem
      · exact h
  isName := hd.isName
  noMarker n b hb := by
    rw [Std.TreeMap.getD_insert] at hb
    split at hb
    · rcases List.mem_cons.mp hb with rfl | hb
      · exact ha
      · exact hd.noMarker name b (by rwa [Std.TreeMap.getD_eq_getD_getElem?, hold])
    · exact hd.noMarker n b hb

/-- What a step makes of a draft if it is not refused. -/
inductive Applied (d : Draft) : DraftStep → Draft → Prop
  | declare {name : String} : LL1.isName name = true → name ∉ d.alternatives →
      Applied d (.declare name) (d.extend name [])
  | further {name : String} {a : Alternative} {as : List Alternative} :
      .terminal .epsilon ∉ a → d.alternatives[name]? = some as →
      Applied d (.rule name a) { d with alternatives := d.alternatives.insert name (a :: as) }
  | first {name : String} {a : Alternative} : LL1.isName name = true → .terminal .epsilon ∉ a →
      name ∉ d.alternatives → Applied d (.rule name a) (d.extend name [a])
  | startAt {name : String} : Applied d (.startAt name) { d with start := some name }

lemma applied_of_apply (h : d.apply s = .ok d') : d.Applied s d' := by
  cases s with
  | declare name =>
    simp only [Draft.apply, Draft.declare, bind, Except.bind] at h
    split at h
    · exact absurd h (by simp)
    · next hname =>
      split at h
      · exact absurd h (by simp)
      · next hnew =>
        obtain rfl := Except.ok.inj h
        exact .declare (checkName_eq_ok hname) fun hm => hnew (Std.TreeMap.contains_iff_mem.mpr hm)
  | rule name a =>
    simp only [Draft.apply, Draft.rule, bind, Except.bind] at h
    split at h
    · exact absurd h (by simp)
    · next hname =>
      split at h
      · exact absurd h (by simp)
      · next ha =>
        split at h
        · next as hold =>
          obtain rfl := Except.ok.inj h
          exact .further (not_mem_of_checkAlternative ha) hold
        · next hnew =>
          obtain rfl := Except.ok.inj h
          refine .first (checkName_eq_ok hname) (not_mem_of_checkAlternative ha) ?_
          simp [Std.TreeMap.mem_iff_isSome_getElem?, hnew]
  | startAt name =>
    simp only [Draft.apply, Draft.startAt, bind, Except.bind] at h
    split at h
    · exact absurd h (by simp)
    · obtain rfl := Except.ok.inj h
      exact .startAt

lemma Consistent.apply (hd : d.Consistent) (h : d.apply s = .ok d') : d'.Consistent := by
  cases applied_of_apply h with
  | declare hname hnew => exact hd.extend hname hnew (by simp)
  | further ha hold => exact hd.insert hold ha
  | first hname ha hnew => exact hd.extend hname hnew (by simpa using ha)
  | startAt => exact ⟨hd.nodup, hd.mem_declared, hd.isName, hd.noMarker⟩

lemma Consistent.applyAll (hd : d.Consistent) : (d.applyAll steps).1.Consistent := by
  induction steps generalizing d with
  | nil => exact hd
  | cons s steps ih =>
    rw [Draft.applyAll]
    split
    · next h => exact ih (hd.apply h)
    · exact hd

lemma Consistent.applyPossible (hd : d.Consistent) : (d.applyPossible steps).Consistent := by
  induction steps generalizing d with
  | nil => exact hd
  | cons s steps ih =>
    rw [Draft.applyPossible]
    split
    · next h => exact ih (hd.apply h)
    · exact ih hd

lemma Consistent.settleStart_mem (hd : d.Consistent) (h : d.settleStart = .ok name) :
    name ∈ d.declared := by
  rw [settleStart] at h
  split at h
  · split at h
    · next hmem =>
      obtain rfl := Except.ok.inj h
      exact (hd.mem_declared _).mpr (Std.TreeMap.contains_iff_mem.mp hmem)
    · exact absurd h (by simp)
  · split at h
    · next hlast =>
      obtain rfl := Except.ok.inj h
      exact List.mem_of_getLast? hlast
    · exact absurd h (by simp)

lemma Consistent.finish (hd : d.Consistent) (h : d.finish = .ok g) : g.WellFormed := by
  simp only [Draft.finish, bind, Except.bind] at h
  split at h
  · exact absurd h (by simp)
  · next start hstart =>
    obtain rfl := Except.ok.inj h
    have hnames : Grammar.nonterminals ⟨d.productions.map Production.toCanonical, start⟩ =
        d.declared.reverse := by
      simp [Grammar.nonterminals, productions, Production.toCanonical, Function.comp_def]
    refine ⟨?_, ?_, ?_, ?_, ?_⟩
    · rw [hnames]
      exact List.nodup_reverse.mpr hd.nodup
    · rw [hnames]
      exact List.mem_reverse.mpr (hd.settleStart_mem hstart)
    · intro n hn
      rw [hnames] at hn
      exact hd.isName n (List.mem_reverse.mp hn)
    · intro p hp
      obtain ⟨q, -, rfl⟩ := List.mem_map.mp hp
      exact increasing_canonical _
    · rintro n a ⟨p, hp, rfl, ha⟩
      obtain ⟨q, hq, rfl⟩ := List.mem_map.mp hp
      obtain ⟨m, -, rfl⟩ := List.mem_map.mp hq
      exact hd.noMarker m a (List.mem_reverse.mp (mem_canonical.mp ha))

end Draft

/-- **A definition without errors gives a well-formed grammar.** -/
theorem Grammar.wellFormed_of_define {steps : List DraftStep} {g : Grammar}
    (h : Grammar.define steps = .ok g) : g.WellFormed := by
  rw [Grammar.define] at h
  split at h
  · next d hd =>
    have : (Draft.empty.applyAll steps).1.Consistent := Draft.consistent_empty.applyAll
    rw [hd] at this
    exact this.finish h
  · exact absurd h (by simp)

/-- A list of identifiers, separated by commas, that grows at its end. -/
def identifierList : Grammar where
  productions := [⟨"list", [[.terminal .identifier],
    [.nonterminal "list", .terminal .comma, .terminal .identifier]]⟩]
  start := "list"

lemma wellFormed_identifierList : identifierList.WellFormed := by
  have h : Grammar.define [.rule "list" [.terminal .identifier],
      .rule "list" [.nonterminal "list", .terminal .comma, .terminal .identifier]] =
      .ok identifierList := by decide +kernel
  exact Grammar.wellFormed_of_define h

/-- So does a definition that passes over the steps that are refused. -/
theorem Grammar.wellFormed_of_applyPossible {steps : List DraftStep} {g : Grammar}
    (h : (Draft.empty.applyPossible steps).finish = .ok g) : g.WellFormed :=
  Draft.consistent_empty.applyPossible.finish h

end LL1
