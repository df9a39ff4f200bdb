/-
# A table decides

The cells of a table are filled from the predicted lookaheads of the alternatives, of which no
two have a common element if there is a table at all.  So a parser that follows the table expands
a nonterminal if and only if the lookahead calls for one of its alternatives, and with that one.
-/
import LL1.Prediction.Table
import LL1.Proofs.FirstFollow
import LL1.Proofs.Prediction

namespace LL1

namespace Row

variable {s earlier follow : TerminalSet} {ss predicted : List TerminalSet} {a b i : Nat}
  {t : Terminal}

/-- Without overlap the sets are disjoint from each other, and from what came before them. -/
lemma overlap_eq_none_iff : overlap earlier a ss = none ↔
    (∀ s ∈ ss, ∀ t ∈ s, t ∉ earlier) ∧ ss.Pairwise fun s s' => ∀ t ∈ s', t ∉ s := by
  induction ss generalizing earlier a with
  | nil => simp [overlap]
  | cons s ss ih =>
    have hempty : (earlier ∩ s).toList = [] ↔ ∀ t ∈ s, t ∉ earlier := by
      rw [List.eq_nil_iff_forall_not_mem]
      refine forall_congr' fun t => ?_
      rw [TerminalSet.mem_toList, ← TerminalSet.mem_iff_contains, TerminalSet.mem_inter]
      tauto
    -- the later sets have nothing in common with this one, nor with what came before it
    have hunion : (∀ s' ∈ ss, ∀ t ∈ s', t ∉ earlier ∪ s) ↔
        (∀ s' ∈ ss, ∀ t ∈ s', t ∉ earlier) ∧ ∀ s' ∈ ss, ∀ t ∈ s', t ∉ s := by
      simp only [TerminalSet.mem_union, not_or]
      grind
    rw [overlap, List.forall_mem_cons, List.pairwise_cons]
    split
    · next hlist =>
      have hne : ¬ ∀ t ∈ s, t ∉ earlier := by
        rw [← hempty, hlist]
        simp
      simp [hne]
    · next hlist =>
      rw [ih, hunion, ← hempty]
      simp only [hlist, true_and]
      tauto

/-- With disjoint sets, a terminal chooses the one that contains it. -/
lemma chosen?_eq_some_iff (h : predicted.Pairwise fun s s' => ∀ t ∈ s', t ∉ s) :
    chosen? predicted t = some a ↔ ∃ s, predicted[a]? = some s ∧ t ∈ s := by
  rw [chosen?, List.findIdx?_eq_some_iff_getElem]
  constructor
  · rintro ⟨ha, hmem, -⟩
    exact ⟨_, List.getElem?_eq_getElem ha, hmem⟩
  · rintro ⟨s, hs, hmem⟩
    obtain ⟨ha, rfl⟩ := List.getElem?_eq_some_iff.mp hs
    refine ⟨ha, hmem, fun b hb hb' => ?_⟩
    exact List.pairwise_iff_getElem.mp h b a (hb.trans ha) ha hb t hmem hb'

lemma action_eq_expand_iff (h : predicted.Pairwise fun s s' => ∀ t ∈ s', t ∉ s) :
    action predicted follow t = .expand a ↔ ∃ s, predicted[a]? = some s ∧ t ∈ s := by
  rw [← chosen?_eq_some_iff h, action]
  split
  · next b hb => rw [hb, Action.expand.injEq, Option.some.injEq]
  · next hb => simp [hb]

lemma getElem?_ofPredicted :
    (ofPredicted predicted follow)[t.index]? = some (action predicted follow t) := by
  simp [ofPredicted, Terminal.getElem?_all_index]

/-- No cell passes over the end of the source. -/
lemma action_endOfInput_ne_scan : action predicted follow .endOfInput ≠ .recover .scan := by
  rw [action]
  split
  · simp
  · simp [recovery]

end Row

variable {r : Rules} {s : FirstFollow} {table : Table} {i : Nat} {t : Terminal} {a : Phrase Nat}

namespace Table

lemma ofRules_eq_ok (h : ofRules r s = .ok table) :
    table.rules = r ∧ table.sets = s ∧
      (∀ i < r.size, (s.predictions r i).Pairwise fun s s' => ∀ t ∈ s', t ∉ s) ∧
      ∀ i < r.size, ∀ k,
        table.get? i k = some (Row.action (s.predictions r i) (s.followOf i) k) := by
  rw [ofRules] at h
  split at h
  · exact absurd h (by simp)
  · next hconflict =>
    obtain rfl := Except.ok.inj h
    refine ⟨rfl, rfl, fun i hi => ?_, fun i hi k => ?_⟩
    · have hnone := List.findSome?_eq_none_iff.mp hconflict i (List.mem_range.mpr hi)
      exact (Row.overlap_eq_none_iff.mp (Option.map_eq_none_iff.mp hnone)).2
    · simp [get?, hi, Row.getElem?_ofPredicted]

/-- The cells of numbers without a nonterminal are never asked for. -/
lemma get?_of_size_le (h : ofRules r s = .ok table) (hi : r.size ≤ i) (k : Terminal) :
    table.get? i k = none := by
  rw [ofRules] at h
  split at h
  · exact absurd h (by simp)
  · obtain rfl := Except.ok.inj h
    simp [get?, Nat.not_lt.mpr hi]

end Table

lemma Rules.mem_predict_iff (hε : r.ruleSet.Avoids .epsilon) (ht : t ≠ .epsilon)
    (ha : .terminal .epsilon ∉ a) : t ∈ r.firstFollow.predict i a ↔
      r.ruleSet.CallsFor (fun i t => t ∈ r.firstFollow.followOf i) i t a := by
  rw [FirstFollow.predict, TerminalSet.mem_ite_epsilon, mem_phraseFirst_iff hε ha, mem_phraseFirst_iff hε ha,
    RuleSet.first_epsilon, RuleSet.first_of_ne ht, RuleSet.CallsFor]
  simp [ht]

/-- The cell of a nonterminal and a terminal holds the alternative that the terminal calls for. -/
lemma Table.get?_eq_expand_iff (hε : r.ruleSet.Avoids .epsilon)
    (h : ofRules r r.firstFollow = .ok table) (ht : t ≠ .epsilon) {k : Nat} :
    table.get? i t = some (.expand k) ↔ ∃ a, (r.alternatives i)[k]? = some a ∧
      r.ruleSet.CallsFor (fun i t => t ∈ r.firstFollow.followOf i) i t a := by
  by_cases hi : i < r.size
  · obtain ⟨-, -, hdisjoint, hcells⟩ := ofRules_eq_ok h
    rw [hcells i hi, Option.some.injEq, Row.action_eq_expand_iff (hdisjoint i hi)]
    simp only [FirstFollow.predictions, List.getElem?_map, Option.map_eq_some_iff]
    constructor
    · rintro ⟨_, ⟨a, ha, rfl⟩, hmem⟩
      have hrule : r.ruleSet i a := List.mem_of_getElem? ha
      exact ⟨a, ha, (Rules.mem_predict_iff hε ht (hε i a hrule)).mp hmem⟩
    · rintro ⟨a, ha, hcalls⟩
      have hrule : r.ruleSet i a := List.mem_of_getElem? ha
      exact ⟨_, ⟨a, ha, rfl⟩, (Rules.mem_predict_iff hε ht (hε i a hrule)).mpr hcalls⟩
  · rw [get?_of_size_le h (Nat.not_lt.mp hi)]
    constructor
    · exact fun hnone => absurd hnone (by simp)
    · rintro ⟨a, ha, -⟩
      exact absurd (Rules.lt_size_of_rule (List.mem_of_getElem? ha)) hi

/-- **The predictor of a table decides** for the rules of the table. -/
theorem Table.decides (hr : r.WellFormed) (hε : r.ruleSet.Avoids .epsilon)
    (h : ofRules r r.firstFollow = .ok table) :
    table.predictor.Decides r.ruleSet (fun i t => t ∈ r.firstFollow.followOf i) r.size := by
  obtain ⟨rfl, hsets, -, hcells⟩ := ofRules_eq_ok h
  have haction (i : Nat) (t : Terminal) (k : Nat) :
      table.predictor.action i t = .expand k ↔ table.get? i t = some (.expand k) := by
    cases hcell : table.get? i t <;> simp [predictor, hcell]
  have halternative {i k : Nat} {a : Phrase Nat} (ha : (table.rules.alternatives i)[k]? = some a) :
      table.predictor.alternative i k = a := by
    simp [predictor, Rules.alternative, ha]
  refine ⟨hr.start_lt, hr.references_lt, ?_, Rules.endOfInput_mem_followOf_start hr, ?_, ?_, ?_⟩
  · exact fun i u j v t ha ht hv => Rules.mem_followOf_of_rule hr hε ha ht hv
  · intro i t k ht hk
    obtain ⟨a, ha, hcalls⟩ := (get?_eq_expand_iff hε h ht).mp ((haction i t k).mp hk)
    rw [halternative ha]
    exact ⟨List.mem_of_getElem? ha, hcalls⟩
  · intro i t a ht ha hcalls
    obtain ⟨k, hk⟩ := List.mem_iff_getElem?.mp ha
    exact ⟨k, (haction i t k).mpr ((get?_eq_expand_iff hε h ht).mpr ⟨a, hk, hcalls⟩),
      halternative hk⟩
  · intro i hi
    simp only [predictor, hcells i hi, Option.getD_some]
    exact Row.action_endOfInput_ne_scan

end LL1
