/-
# A parse table is the relation of prediction

The cells of a parse table are filled in two passes, first with recoveries and then with
alternatives, and the filling ends at the first cell that has an alternative already.  What comes
out can be said without the filling.  There is a table if and only if no terminal predicts two
alternatives of one nonterminal, and its cells hold the alternatives that are predicted.  Otherwise
the conflict is the first one: no nonterminal before has one, no alternative before shares a
terminal with an earlier one, and no smaller terminal is shared.
-/
import LL1.Prediction.Cells
import LL1.Proofs.Range

namespace LL1

variable {g : Grammar} {r : Rules} {s : FirstFollow} {table : Table} {c : CellConflict}
  {i j n a b : Nat} {k t : Terminal}

/-! ### Loops that can fail -/

section

variable {α β ε : Type} {f : β → α → Except ε β} {x : α} {xs ys : List α} {y y' : β} {e : ε}

lemma foldlM_cons_of_ok (h : f y x = .ok y') : (x :: xs).foldlM f y = xs.foldlM f y' := by
  rw [List.foldlM_cons, h]
  rfl

lemma foldlM_cons_of_error (h : f y x = .error e) : (x :: xs).foldlM f y = .error e := by
  rw [List.foldlM_cons, h]
  rfl

lemma foldlM_append_of_ok (h : xs.foldlM f y = .ok y') :
    (xs ++ ys).foldlM f y = ys.foldlM f y' := by
  rw [List.foldlM_append, h]
  rfl

end

/-! ### The relation -/

/-- A terminal predicts alternative `a` of nonterminal `i`: the alternative can begin with it, or
the alternative can be empty and the terminal can follow the nonterminal. -/
def Rules.Predicts (r : Rules) (i a : Nat) (k : Terminal) : Prop :=
  ∃ p, (r.alternatives i)[a]? = some p ∧
    (k ∈ r.firstFollow.phraseFirst p ∧ k ≠ .epsilon ∨
      .epsilon ∈ r.firstFollow.phraseFirst p ∧ k ∈ r.firstFollow.followOf i)

lemma Rules.predicts_iff : r.Predicts i a k ↔
    ∃ ks, (r.firstFollow.predictions r i)[a]? = some ks ∧ k ∈ ks := by
  simp only [Predicts, FirstFollow.predictions, List.getElem?_map, Option.map_eq_some_iff]
  constructor
  · rintro ⟨p, hp, hk⟩
    exact ⟨_, ⟨p, hp, rfl⟩, TerminalSet.mem_ite_epsilon.mpr hk⟩
  · rintro ⟨_, ⟨p, hp, rfl⟩, hk⟩
    exact ⟨p, hp, TerminalSet.mem_ite_epsilon.mp hk⟩

/-- The conflict is the first one in the rules, in the order of the nonterminals, then in that of
the later alternative, then in that of the terminals. -/
structure CellConflict.IsFirst (c : CellConflict) (r : Rules) : Prop where
  earlier_lt_later : c.earlier < c.later
  predicts_earlier : r.Predicts c.nonterminal c.earlier c.terminal
  predicts_later : r.Predicts c.nonterminal c.later c.terminal
  nonterminal_first : ∀ i < c.nonterminal, ∀ a b k, r.Predicts i a k → r.Predicts i b k → a = b
  later_first : ∀ b < c.later, ∀ a < b, ∀ k,
    r.Predicts c.nonterminal a k → ¬ r.Predicts c.nonterminal b k
  terminal_first : ∀ k, ∀ a < c.later, r.Predicts c.nonterminal a k →
    r.Predicts c.nonterminal c.later k → c.terminal.index ≤ k.index

/-! ### Where sets overlap -/

lemma TerminalSet.pairwise_toList (ks : TerminalSet) :
    ks.toList.Pairwise fun k t => k.index < t.index :=
  List.Pairwise.filter _ (by decide : Terminal.all.Pairwise fun k t => k.index < t.index)

namespace Row

variable {earlier follow ks : TerminalSet} {ss : List TerminalSet}

/-- What overlaps first: a set with the ones before it, which are disjoint, and its first element
in one of them. -/
lemma overlap_eq_some (h : overlap earlier a ss = some (b, t)) :
    ∃ before ks after, ss = before ++ ks :: after ∧ b = a + before.length ∧
      overlap earlier a before = none ∧ t ∈ ks ∧ (t ∈ earlier ∨ ∃ ts ∈ before, t ∈ ts) ∧
      ∀ k ∈ ks, (k ∈ earlier ∨ ∃ ts ∈ before, k ∈ ts) → t.index ≤ k.index := by
  induction ss generalizing earlier a with
  | nil => exact absurd h (by simp [overlap])
  | cons ks ss ih =>
    rw [overlap] at h
    split at h
    · next t' ts hlist =>
      obtain ⟨rfl, rfl⟩ : a = b ∧ t' = t := by simpa using h
      have hmem (k : Terminal) : k ∈ t' :: ts ↔ k ∈ earlier ∧ k ∈ ks := by
        rw [← hlist, TerminalSet.mem_toList, ← TerminalSet.mem_iff_contains, TerminalSet.mem_inter]
      obtain ⟨hearlier, hks⟩ := (hmem t').mp List.mem_cons_self
      have hsorted := (earlier ∩ ks).pairwise_toList
      rw [hlist, List.pairwise_cons] at hsorted
      refine ⟨[], ks, ss, rfl, rfl, rfl, hks, .inl hearlier, fun k hk hbefore => ?_⟩
      have hk' : k ∈ t' :: ts := (hmem k).mpr ⟨by simpa using hbefore, hk⟩
      rcases List.mem_cons.mp hk' with rfl | hk'
      · exact le_rfl
      · exact (hsorted.1 k hk').le
    · next hlist =>
      obtain ⟨before, us, after, rfl, rfl, hnone, hus, hbefore, hleast⟩ := ih h
      simp only [TerminalSet.mem_union] at hbefore hleast
      refine ⟨ks :: before, us, after, rfl, ?_, ?_, hus, ?_, fun k hk hk' => hleast k hk ?_⟩
      · rw [List.length_cons]
        omega
      · rw [overlap, hlist]
        exact hnone
      · rw [List.exists_mem_cons_iff]
        tauto
      · rw [List.exists_mem_cons_iff] at hk'
        tauto

lemma chosen?_eq_none_iff : chosen? ss k = none ↔ ∀ ks ∈ ss, k ∉ ks := by
  simp [chosen?, List.findIdx?_eq_none_iff, TerminalSet.mem_iff_contains]

/-- What has an alternative among the first ones has the same among all. -/
lemma exists_chosen?_append (h : ∃ ts ∈ ss, t ∈ ts) (after : List TerminalSet) :
    ∃ a < ss.length, chosen? ss t = some a ∧ chosen? (ss ++ after) t = some a := by
  obtain ⟨a, ha⟩ : ∃ a, chosen? ss t = some a := by
    rw [← Option.ne_none_iff_exists', ne_eq, chosen?_eq_none_iff]
    push Not
    exact h
  refine ⟨a, (List.findIdx?_eq_some_iff_getElem.mp ha).1, ha, ?_⟩
  rw [chosen?] at ha
  rw [chosen?, List.findIdx?_append, ha, Option.some_or]

/-- The cell of a terminal when one more alternative has been entered. -/
lemma action_append_singleton (h : ∀ k ∈ ks, ∀ ts ∈ ss, k ∉ ts) (k : Terminal) :
    action (ss ++ [ks]) follow k =
      if k ∈ ks then .expand ss.length else action ss follow k := by
  have happend : chosen? (ss ++ [ks]) k =
      (chosen? ss k).or (if k ∈ ks then some ss.length else none) := by
    rw [chosen?, List.findIdx?_append]
    by_cases hk : k ∈ ks
    · simp [chosen?, hk, TerminalSet.mem_iff_contains.mp hk]
    · have hcontains : ks.contains k = false := Bool.eq_false_iff.mpr hk
      simp [chosen?, hk, hcontains]
  rw [action, action, happend]
  by_cases hk : k ∈ ks
  · rw [chosen?_eq_none_iff.mpr (h k hk)]
    simp [hk]
  · simp [hk]

end Row

/-! ### Cells in one array -/

/-- Words of sixteen bits are enough for the numbers of rules. -/
lemma words_eq_range (h : n ≤ numberLimit) : words n = List.range n := by
  rw [words, List.map_congr_left, List.map_id]
  intro i hi
  exact toNat_ofNat_of_lt_numberLimit ((List.mem_range.mp hi).trans_le h)

namespace Cells

variable {cells cells' : Cells} {f f' : Nat → Terminal → Action} {ks us vs : List Terminal}
  {ss : List TerminalSet} {follow : TerminalSet} {numbers : List Nat}

lemma place_lt (hi : i < n) : place i k < n * Terminal.count := by
  have hk := Terminal.index_lt k
  have hle : (i + 1) * Terminal.count ≤ n * Terminal.count := Nat.mul_le_mul_right _ hi
  rw [place]
  rw [Nat.add_mul, Nat.one_mul] at hle
  omega

/-- Every cell has a place of its own. -/
lemma place_inj : place i k = place j t ↔ i = j ∧ k = t := by
  refine ⟨fun h => ?_, fun h => by rw [h.1, h.2]⟩
  have hk := Terminal.index_lt k
  have ht := Terminal.index_lt t
  simp only [place, Terminal.count] at h hk ht
  exact ⟨by omega, Terminal.index_injective (by omega)⟩

/-- Every place below the end belongs to a cell. -/
lemma exists_place_eq {p : Nat} (hp : p < n * Terminal.count) : ∃ i < n, ∃ k, place i k = p := by
  have hindex : p % Terminal.count < Terminal.all.length := Nat.mod_lt p (by decide)
  refine ⟨p / Terminal.count, Nat.div_lt_of_lt_mul (by rwa [Nat.mul_comm]),
    Terminal.all[p % Terminal.count], ?_⟩
  rw [place, Terminal.index_getElem_all hindex]
  exact Nat.div_add_mod' p _

/-- The cells are those of `n` nonterminals with given actions. -/
structure Shows (cells : Cells) (n : Nat) (f : Nat → Terminal → Action) : Prop where
  size_eq : cells.size = n * Terminal.count
  getElem?_place : ∀ i < n, ∀ k, cells[place i k]? = some (f i k)

lemma Shows.unique (h : cells.Shows n f) (h' : cells'.Shows n f') (hf : ∀ i < n, f i = f' i) :
    cells = cells' := by
  apply Array.ext_getElem?
  intro p
  by_cases hp : p < n * Terminal.count
  · obtain ⟨i, hi, k, rfl⟩ := exists_place_eq hp
    rw [h.getElem?_place i hi, h'.getElem?_place i hi, hf i hi]
  · rw [Array.getElem?_eq_none (by rw [h.size_eq]; omega),
      Array.getElem?_eq_none (by rw [h'.size_eq]; omega)]

/-- Rows that are put one behind the other. -/
lemma shows_flatMap (n : Nat) (f : Nat → Terminal → Action) :
    Shows ((List.range n).flatMap fun i => Terminal.all.map (f i)).toArray n f := by
  have hlength (m : Nat) : ((List.range m).flatMap fun i => Terminal.all.map (f i)).length =
      m * Terminal.count := by
    simp [List.length_flatMap]
  refine ⟨by rw [List.size_toArray, hlength], fun i hi k => ?_⟩
  rw [List.getElem?_toArray]
  induction n with
  | zero => exact absurd hi (Nat.not_lt_zero i)
  | succ m ih =>
    rw [List.range_succ, List.flatMap_append]
    rcases Nat.lt_succ_iff_lt_or_eq.mp hi with hi | rfl
    · rw [List.getElem?_append_left (by rw [hlength]; exact place_lt hi)]
      exact ih hi
    · have hle : i * Terminal.count ≤ place i k := Nat.le_add_right _ _
      rw [List.getElem?_append_right (by rw [hlength]; exact hle), hlength]
      simp [place, Terminal.getElem?_all_index]

/-! ### Entering alternatives -/

/-- One cell is overwritten. -/
lemma Shows.setIfInBounds (h : cells.Shows n f) (hi : i < n) :
    Shows (cells.setIfInBounds (place i k) (.expand a)) n
      (Function.update f i (Function.update (f i) k (.expand a))) := by
  refine ⟨by rw [Array.size_setIfInBounds, h.size_eq], fun j hj t => ?_⟩
  have hlt : place i k < cells.size := by
    rw [h.size_eq]
    exact place_lt hi
  simp only [Array.getElem?_setIfInBounds, place_inj, h.getElem?_place j hj, if_pos hlt]
  by_cases hij : i = j
  · subst hij
    by_cases hkt : k = t
    · simp [hkt]
    · simp [hkt, Function.update_of_ne (Ne.symm hkt)]
  · simp [hij, Function.update_of_ne (Ne.symm hij)]

/-- An alternative is entered into a cell without another one. -/
lemma Shows.enter_eq_ok (h : cells.Shows n f) (hi : i < n)
    (hfree : ∀ b, f i k = .expand b → b = a) : ∃ cells', enter i a cells k = .ok cells' ∧
      cells'.Shows n (Function.update f i (Function.update (f i) k (.expand a))) := by
  refine ⟨_, ?_, h.setIfInBounds hi⟩
  rw [enter, h.getElem?_place i hi]
  split
  · next b hb => rw [if_neg (by simp [hfree b (Option.some.inj hb)])]
  · rfl

lemma Shows.enter_eq_error (h : cells.Shows n f) (hi : i < n) (hk : f i k = .expand b)
    (hb : b ≠ a) : enter i a cells k = .error ⟨i, k, b, a⟩ := by
  rw [enter, h.getElem?_place i hi, hk]
  exact if_pos hb

/-- An alternative is entered into several cells without another one. -/
lemma Shows.foldlM_enter_eq_ok (h : cells.Shows n f) (hi : i < n) (ks : List Terminal)
    (hfree : ∀ k ∈ ks, ∀ b, f i k = .expand b → b = a) :
    ∃ cells', ks.foldlM (enter i a) cells = .ok cells' ∧
      cells'.Shows n (Function.update f i fun k => if k ∈ ks then .expand a else f i k) := by
  induction ks generalizing cells f with
  | nil =>
    refine ⟨cells, rfl, ?_⟩
    simpa using h
  | cons k ks ih =>
    obtain ⟨next, hnext, hshows⟩ := h.enter_eq_ok hi (hfree k List.mem_cons_self)
    have hrest : ∀ t ∈ ks, ∀ b, Function.update (f i) k (.expand a) t = .expand b → b = a := by
      intro t ht b hb
      by_cases htk : t = k
      · rw [htk, Function.update_self] at hb
        exact (Action.expand.inj hb).symm
      · rw [Function.update_of_ne htk] at hb
        exact hfree t (List.mem_cons_of_mem k ht) b hb
    obtain ⟨last, hlast, hshows⟩ := ih hshows (by simpa only [Function.update_self] using hrest)
    refine ⟨last, ?_, ?_⟩
    · rw [foldlM_cons_of_ok hnext, hlast]
    · convert hshows using 1
      rw [Function.update_idem, Function.update_self]
      congr 1
      funext t
      by_cases htk : t = k <;> simp [htk]

/-- The first cell with another alternative ends the entering. -/
lemma Shows.foldlM_enter_eq_error (h : cells.Shows n f) (hi : i < n) (hks : ks = us ++ k :: vs)
    (hfree : ∀ k ∈ us, ∀ b, f i k ≠ .expand b) (hk : f i k = .expand b) (hb : b ≠ a) :
    ks.foldlM (enter i a) cells = .error ⟨i, k, b, a⟩ := by
  obtain ⟨next, hnext, hshows⟩ := h.foldlM_enter_eq_ok (a := a) hi us
    fun t ht b hb => absurd hb (hfree t ht b)
  have hus : k ∉ us := fun hmem => hfree k hmem b hk
  have herror := hshows.enter_eq_error (a := a) (k := k) (b := b) hi (by simp [hus, hk]) hb
  rw [hks, foldlM_append_of_ok hnext, foldlM_cons_of_error herror]

/-- Enters an alternative, given with its lookaheads. -/
def enterSet (i : Nat) (cells : Cells) (x : TerminalSet × Nat) : Except CellConflict Cells :=
  x.1.toList.foldlM (enter i x.2) cells

/-- Disjoint sets fill a row of recoveries. -/
lemma Shows.foldlM_enterSet_eq_ok (h : cells.Shows n f) (hi : i < n)
    (hrow : f i = Row.action [] follow) (hdisjoint : ss.Pairwise fun ks ts => ∀ k ∈ ts, k ∉ ks) :
    ∃ cells', ss.zipIdx.foldlM (enterSet i) cells = .ok cells' ∧
      cells'.Shows n (Function.update f i (Row.action ss follow)) := by
  induction ss using List.reverseRecOn with
  | nil =>
    refine ⟨cells, rfl, ?_⟩
    rw [← hrow, Function.update_eq_self]
    exact h
  | append_singleton ss ks ih =>
    obtain ⟨hss, -, hks⟩ := List.pairwise_append.mp hdisjoint
    have hks' : ∀ k ∈ ks, ∀ ts ∈ ss, k ∉ ts := fun k hk ts hts =>
      hks ts hts ks List.mem_cons_self k hk
    obtain ⟨next, hnext, hshows⟩ := ih hss
    have hfree : ∀ k ∈ ks.toList, ∀ b, Row.action ss follow k = .expand b → b = ss.length := by
      intro k hk b hb
      have hnone := Row.chosen?_eq_none_iff.mpr (hks' k (TerminalSet.mem_toList.mp hk))
      rw [Row.action, hnone] at hb
      exact absurd hb (by simp)
    obtain ⟨last, hlast, hshows⟩ := hshows.foldlM_enter_eq_ok hi ks.toList
      (by simpa only [Function.update_self] using hfree)
    refine ⟨last, ?_, ?_⟩
    · rw [List.zipIdx_append, foldlM_append_of_ok hnext, Nat.zero_add, List.zipIdx_singleton]
      rw [foldlM_cons_of_ok (show enterSet i next (ks, ss.length) = .ok last from hlast)]
      rfl
    · convert hshows using 1
      rw [Function.update_idem, Function.update_self]
      congr 1
      funext k
      rw [Row.action_append_singleton hks']
      simp only [TerminalSet.mem_toList, TerminalSet.mem_iff_contains]

/-- The first overlap ends the filling of a row. -/
lemma Shows.foldlM_enterSet_eq_error (h : cells.Shows n f) (hi : i < n)
    (hrow : f i = Row.action [] follow) (hoverlap : Row.overlap ∅ 0 ss = some (b, t)) :
    ss.zipIdx.foldlM (enterSet i) cells = .error ⟨i, t, (Row.chosen? ss t).getD 0, b⟩ := by
  obtain ⟨before, ks, after, rfl, rfl, hnone, ht, hbefore, hleast⟩ :=
    Row.overlap_eq_some hoverlap
  simp only [TerminalSet.not_mem_empty, false_or] at hbefore hleast
  obtain ⟨next, hnext, hshows⟩ :=
    h.foldlM_enterSet_eq_ok hi hrow (Row.overlap_eq_none_iff.mp hnone).2
  -- the alternative in the cell of `t`, which is one of those before
  obtain ⟨a, hlt, ha, hchosen⟩ := Row.exists_chosen?_append hbefore (ks :: after)
  -- no smaller lookahead is found in one of them
  obtain ⟨us, vs, hlist⟩ := List.append_of_mem (TerminalSet.mem_toList.mpr ht)
  have hsorted := ks.pairwise_toList
  rw [hlist, List.pairwise_append] at hsorted
  have hfree : ∀ k ∈ us, ∀ b, Row.action before follow k ≠ .expand b := by
    intro k hk b hb
    have hks : k ∈ ks := TerminalSet.mem_toList.mp (hlist ▸ List.mem_append_left _ hk)
    have hsmaller : k.index < t.index := hsorted.2.2 k hk t List.mem_cons_self
    have hnone : Row.chosen? before k = none := by
      rw [Row.chosen?_eq_none_iff]
      intro ts hts hkts
      have hle := hleast k hks ⟨ts, hts, hkts⟩
      omega
    rw [Row.action, hnone] at hb
    exact absurd hb (by simp)
  have herror := hshows.foldlM_enter_eq_error hi hlist
    (by simpa only [Function.update_self] using hfree) (by simp [Row.action, ha]) hlt.ne
  rw [List.zipIdx_append, foldlM_append_of_ok hnext, Nat.zero_add, List.zipIdx_cons, hchosen]
  exact foldlM_cons_of_error herror

/-! ### Filling the rows -/

lemma enterRule_eq (h : (r.alternatives i).length ≤ numberLimit) :
    enterRule r s cells i = (s.predictions r i).zipIdx.foldlM (enterSet i) cells := by
  have hzip : (s.predictions r i).zipIdx = (List.range (r.alternatives i).length).map
      fun a => (s.predict i (r.alternative i a), a) := by
    apply List.ext_getElem
    · simp [FirstFollow.predictions]
    · intro a _ ha
      simp only [List.length_map, List.length_range] at ha
      simp [FirstFollow.predictions, Rules.alternative, ha]
  rw [enterRule, words_eq_range h, hzip, List.foldlM_map]
  rfl

/-- The action in a cell of a table for the rules. -/
def rowOf (r : Rules) (s : FirstFollow) (i : Nat) : Terminal → Action :=
  Row.action (s.predictions r i) (s.followOf i)

lemma Shows.enterRule_eq_ok (h : cells.Shows n f) (hi : i < n)
    (hlength : (r.alternatives i).length ≤ numberLimit)
    (hrow : f i = Row.action [] (s.followOf i))
    (hnone : Row.conflict? i (s.predictions r i) = none) :
    ∃ cells', enterRule r s cells i = .ok cells' ∧
      cells'.Shows n (Function.update f i (rowOf r s i)) := by
  rw [enterRule_eq hlength]
  exact h.foldlM_enterSet_eq_ok hi hrow
    (Row.overlap_eq_none_iff.mp (Option.map_eq_none_iff.mp hnone)).2

lemma Shows.enterRule_eq_error (h : cells.Shows n f) (hi : i < n)
    (hlength : (r.alternatives i).length ≤ numberLimit)
    (hrow : f i = Row.action [] (s.followOf i))
    (hsome : Row.conflict? i (s.predictions r i) = some c) :
    enterRule r s cells i = .error c := by
  obtain ⟨⟨b, t⟩, hoverlap, rfl⟩ := Option.map_eq_some_iff.mp hsome
  rw [enterRule_eq hlength]
  exact h.foldlM_enterSet_eq_error hi hrow hoverlap

/-- Rows without conflicts are filled, and the others stay as they are. -/
lemma Shows.foldlM_enterRule (h : cells.Shows n f) (hnodup : numbers.Nodup)
    (hnumbers : ∀ i ∈ numbers, i < n ∧ (r.alternatives i).length ≤ numberLimit ∧
      f i = Row.action [] (s.followOf i) ∧ Row.conflict? i (s.predictions r i) = none) :
    ∃ cells', numbers.foldlM (enterRule r s) cells = .ok cells' ∧
      cells'.Shows n fun i => if i ∈ numbers then rowOf r s i else f i := by
  induction numbers generalizing cells f with
  | nil =>
    refine ⟨cells, rfl, ?_⟩
    simpa using h
  | cons i numbers ih =>
    rw [List.nodup_cons] at hnodup
    obtain ⟨hi, hlength, hrow, hnone⟩ := hnumbers i List.mem_cons_self
    obtain ⟨next, hnext, hshows⟩ := h.enterRule_eq_ok hi hlength hrow hnone
    obtain ⟨last, hlast, hshows⟩ := ih hshows hnodup.2 fun j hj => by
      have hji : j ≠ i := fun heq => hnodup.1 (heq ▸ hj)
      rw [Function.update_of_ne hji]
      exact hnumbers j (List.mem_cons_of_mem i hj)
    refine ⟨last, ?_, ?_⟩
    · rw [foldlM_cons_of_ok hnext, hlast]
    · convert hshows using 1
      funext j
      by_cases hji : j = i
      · simp [hji, hnodup.1]
      · simp [hji]

lemma shows_recoveries (h : r.size ≤ numberLimit) :
    (recoveries r s).Shows r.size fun i => Row.action [] (s.followOf i) := by
  have hrows := shows_flatMap r.size fun i => Row.action [] (s.followOf i)
  rw [← words_eq_range h] at hrows
  exact hrows

lemma shows_cells (h : Table.ofRules r s = .ok table) : table.cells.Shows r.size (rowOf r s) := by
  rw [Table.ofRules] at h
  split at h
  · exact absurd h (by simp)
  · obtain rfl := Except.ok.inj h
    have hrows := shows_flatMap r.size (rowOf r s)
    simpa [Table.cells, List.flatMap_map, Row.ofPredicted, rowOf] using hrows

/-- Without a conflict the cells of all rows are filled. -/
lemma fill_of_cellConflict?_eq_none (hr : Rules.resolve g = .ok r) (h : s.cellConflict? r = none) :
    ∃ cells, fill r s = .ok cells ∧ cells.Shows r.size (rowOf r s) := by
  have hsize := Rules.size_le_numberLimit hr
  obtain ⟨cells, hcells, hshows⟩ :=
    (shows_recoveries (s := s) hsize).foldlM_enterRule List.nodup_range fun i hi =>
      ⟨List.mem_range.mp hi, Rules.length_alternatives_le_numberLimit hr i, rfl,
        List.findSome?_eq_none_iff.mp h i hi⟩
  refine ⟨cells, by rw [fill, words_eq_range hsize, hcells], hshows.size_eq, fun i hi k => ?_⟩
  rw [hshows.getElem?_place i hi, if_pos (List.mem_range.mpr hi)]

/-- The rows before the first conflict are filled, and then the filling ends. -/
lemma fill_of_cellConflict?_eq_some (hr : Rules.resolve g = .ok r)
    (h : s.cellConflict? r = some c) : fill r s = .error c := by
  have hsize := Rules.size_le_numberLimit hr
  have hlength := Rules.length_alternatives_le_numberLimit hr
  obtain ⟨is, i, js, hrange, hsome, hnone⟩ := List.findSome?_eq_some_iff.mp h
  have hlt {j : Nat} (hj : j ∈ is ++ i :: js) : j < r.size := by
    rw [← hrange] at hj
    exact List.mem_range.mp hj
  have hnodup : (is ++ i :: js).Nodup := hrange ▸ List.nodup_range
  rw [List.nodup_append] at hnodup
  obtain ⟨cells, hcells, hshows⟩ :=
    (shows_recoveries (s := s) hsize).foldlM_enterRule hnodup.1 fun j hj =>
      ⟨hlt (List.mem_append_left _ hj), hlength j, rfl, hnone j hj⟩
  have hi : i ∉ is := fun hmem => hnodup.2.2 i hmem i List.mem_cons_self rfl
  have herror := hshows.enterRule_eq_error (hlt (List.mem_append_right _ List.mem_cons_self))
    (hlength i) (by simp [hi]) hsome
  rw [fill, words_eq_range hsize, hrange, foldlM_append_of_ok hcells, foldlM_cons_of_error herror]

/-- **Filling the cells gives the table of the rules**, or the conflict that keeps them from having
one. -/
theorem fill_eq (hr : Rules.resolve g = .ok r) (s : FirstFollow) :
    fill r s = (Table.ofRules r s).map Table.cells := by
  cases hconflict : s.cellConflict? r with
  | none =>
    obtain ⟨cells, hcells, hshows⟩ := fill_of_cellConflict?_eq_none hr hconflict
    obtain ⟨table, htable⟩ : ∃ table, Table.ofRules r s = .ok table := by
      rw [Table.ofRules, hconflict]
      exact ⟨_, rfl⟩
    rw [hcells, htable, hshows.unique (shows_cells htable) fun _ _ => rfl]
    rfl
  | some c =>
    rw [fill_of_cellConflict?_eq_some hr hconflict, Table.ofRules, hconflict]
    rfl

end Cells

/-! ### What the table says -/

lemma Rules.lt_size_of_predicts (h : r.Predicts i a k) : i < r.size := by
  obtain ⟨p, hp, -⟩ := h
  exact lt_size_of_rule (List.mem_of_getElem? hp)

/-- Without a conflict a terminal predicts one alternative at most. -/
lemma Rules.Predicts.unique (hnone : Row.conflict? i (r.firstFollow.predictions r i) = none)
    (ha : r.Predicts i a k) (hb : r.Predicts i b k) : a = b := by
  have hdisjoint := (Row.overlap_eq_none_iff.mp (Option.map_eq_none_iff.mp hnone)).2
  rw [Rules.predicts_iff, ← Row.chosen?_eq_some_iff hdisjoint] at ha hb
  exact Option.some.inj (ha.symm.trans hb)

namespace Table

lemma cells_get? (h : ofRules r s = .ok table) (i : Nat) (k : Terminal) :
    table.cells.get? r i k = table.get? i k := by
  rw [Cells.get?]
  split
  · next hi =>
    rw [(Cells.shows_cells h).getElem?_place i hi, (ofRules_eq_ok h).2.2.2 i hi, Cells.rowOf]
  · next hi => rw [get?_of_size_le h (Nat.not_lt.mp hi)]

lemma get?_eq_expand_iff_predicts (h : ofRules r r.firstFollow = .ok table) (hi : i < r.size) :
    table.get? i k = some (.expand a) ↔ r.Predicts i a k := by
  obtain ⟨-, -, hdisjoint, hcells⟩ := ofRules_eq_ok h
  rw [hcells i hi, Option.some.injEq, Row.action_eq_expand_iff (hdisjoint i hi),
    Rules.predicts_iff]

lemma get?_of_not_predicts (h : ofRules r r.firstFollow = .ok table) (hi : i < r.size)
    (hnone : ∀ a, ¬ r.Predicts i a k) : table.get? i k = some (.recover
      (if k = .endOfInput ∨ k ∈ r.firstFollow.followOf i then .pop else .scan)) := by
  obtain ⟨-, -, -, hcells⟩ := ofRules_eq_ok h
  cases hchosen : Row.chosen? (r.firstFollow.predictions r i) k with
  | none =>
    rw [hcells i hi, Row.action, hchosen]
    rfl
  | some a =>
    have hcell : table.get? i k = some (.expand a) := by rw [hcells i hi, Row.action, hchosen]
    exact absurd ((get?_eq_expand_iff_predicts h hi).mp hcell) (hnone a)

end Table

/-- The conflict that is found is the first one. -/
lemma CellConflict.isFirst_of_cellConflict? (h : r.firstFollow.cellConflict? r = some c) :
    c.IsFirst r := by
  obtain ⟨is, i, js, hrange, hsome, hnone⟩ := List.findSome?_eq_some_iff.mp h
  obtain ⟨⟨b, t⟩, hoverlap, rfl⟩ := Option.map_eq_some_iff.mp hsome
  obtain ⟨before, ks, after, hsplit, rfl, hfree, ht, hbefore, hleast⟩ :=
    Row.overlap_eq_some hoverlap
  simp only [TerminalSet.not_mem_empty, false_or] at hbefore hleast
  have hdisjoint := (Row.overlap_eq_none_iff.mp hfree).2
  obtain ⟨a, hlt, ha, hchosen⟩ := Row.exists_chosen?_append hbefore (ks :: after)
  rw [Nat.zero_add, hsplit]
  show CellConflict.IsFirst ⟨i, t, (Row.chosen? (before ++ ks :: after) t).getD 0, before.length⟩ r
  rw [hchosen, Option.getD_some]
  -- what predicts the alternatives up to the later one
  have hearlier {a : Nat} {k : Terminal} (ha : a < before.length) :
      r.Predicts i a k ↔ Row.chosen? before k = some a := by
    rw [Rules.predicts_iff, hsplit, List.getElem?_append_left ha,
      Row.chosen?_eq_some_iff hdisjoint]
  have hlater {k : Terminal} : r.Predicts i before.length k ↔ k ∈ ks := by
    rw [Rules.predicts_iff, hsplit]
    simp
  refine ⟨hlt, (hearlier hlt).mpr ha, hlater.mpr ht, ?_, ?_, ?_⟩
  · intro j hj a b k ha hb
    have hmem : j ∈ is ++ i :: js := hrange ▸ List.mem_range.mpr (Rules.lt_size_of_predicts ha)
    have hsorted : (is ++ i :: js).Pairwise (· < ·) := hrange ▸ List.pairwise_lt_range
    rw [List.pairwise_append, List.pairwise_cons] at hsorted
    rcases List.mem_append.mp hmem with hj' | hj'
    · exact ha.unique (hnone j hj') hb
    · rcases List.mem_cons.mp hj' with rfl | hj'
      · exact absurd hj (lt_irrefl j)
      · exact absurd hj (hsorted.2.1.1 j hj').asymm
  · intro b hb a hab k ha hk
    have heq := ((hearlier (hab.trans hb)).mp ha).symm.trans ((hearlier hb).mp hk)
    exact hab.ne (Option.some.inj heq)
  · intro k a ha hk hk'
    obtain ⟨ts, hts, hkts⟩ := (Row.chosen?_eq_some_iff hdisjoint).mp ((hearlier ha).mp hk)
    exact hleast k (hlater.mp hk') ⟨ts, List.mem_of_getElem? hts, hkts⟩

/-- **A parse table is exactly the relation of prediction.**  For the rules of any grammar, the
filling of the cells succeeds if and only if no terminal predicts two alternatives of one
nonterminal.  Then a cell holds an alternative if and only if the terminal predicts it, and
otherwise a recovery: the nonterminal is given up at the end of the source and in view of what can
follow it, and anything else is passed over.  If the filling fails, then at the first conflict, and
the error tells where it is.  All of this is what the table of the rules says, too. -/
theorem Table.cells_exact (hr : Rules.resolve g = .ok r) :
    ((∃ cells, Cells.fill r r.firstFollow = .ok cells) ↔
      ∀ i a b k, r.Predicts i a k → r.Predicts i b k → a = b) ∧
    (∀ cells, Cells.fill r r.firstFollow = .ok cells → ∀ i < r.size, ∀ k,
      (∀ a, cells.get? r i k = some (.expand a) ↔ r.Predicts i a k) ∧
      ((∀ a, ¬ r.Predicts i a k) → cells.get? r i k = some (.recover
        (if k = .endOfInput ∨ k ∈ r.firstFollow.followOf i then .pop else .scan)))) ∧
    (∀ c, Cells.fill r r.firstFollow = .error c → c.IsFirst r ∧
      c.error r = .tableConflict (r.name c.nonterminal) c.terminal c.earlier c.later) ∧
    Cells.fill r r.firstFollow = (ofRules r r.firstFollow).map cells ∧
    ∀ table, ofRules r r.firstFollow = .ok table → ∀ i k,
      table.cells.get? r i k = table.get? i k := by
  rw [Cells.fill_eq hr]
  cases htable : ofRules r r.firstFollow with
  | ok table =>
    refine ⟨⟨fun _ i a b k ha hb => ?_, fun _ => ⟨table.cells, rfl⟩⟩, ?_, ?_, rfl, ?_⟩
    · have hi := Rules.lt_size_of_predicts ha
      rw [← get?_eq_expand_iff_predicts htable hi] at ha hb
      exact Action.expand.inj (Option.some.inj (ha.symm.trans hb))
    · rintro _ ⟨⟩ i hi k
      rw [cells_get? htable]
      exact ⟨fun a => get?_eq_expand_iff_predicts htable hi, get?_of_not_predicts htable hi⟩
    · rintro c ⟨⟩
    · rintro _ ⟨⟩
      exact cells_get? htable
  | error c =>
    have hfirst : c.IsFirst r := by
      rw [ofRules] at htable
      split at htable
      · next c' hc =>
        obtain rfl := Except.error.inj htable
        exact CellConflict.isFirst_of_cellConflict? hc
      · exact absurd htable (by simp)
    refine ⟨⟨?_, fun hunique => ?_⟩, ?_, ?_, rfl, ?_⟩
    · rintro ⟨cells, ⟨⟩⟩
    · have heq := hunique _ _ _ _ hfirst.predicts_earlier hfirst.predicts_later
      exact absurd heq hfirst.earlier_lt_later.ne
    · rintro cells ⟨⟩
    · rintro _ ⟨⟩
      exact ⟨hfirst, rfl⟩
    · rintro table ⟨⟩

/-- A single identifier or a list of them, which begin alike. -/
def identifierOrList : Grammar where
  productions := [⟨"item", [[.nonterminal "single"], [.nonterminal "list"]]⟩,
    ⟨"single", [[.terminal .identifier]]⟩,
    ⟨"list", [[.terminal .identifier, .terminal .comma, .nonterminal "list"], []]⟩]
  start := "item"

/-- Identifiers between parentheses. -/
def bracketedNames : Grammar where
  productions := [⟨"names", [[.terminal .parenOpen, .nonterminal "rest", .terminal .parenClose]]⟩,
    ⟨"rest", [[], [.terminal .identifier, .nonterminal "rest"]]⟩]
  start := "names"

/-- The rules of identifiers between parentheses. -/
def bracketedNamesRules : Rules where
  rules := #[⟨"names", [[.terminal .parenOpen, .nonterminal 1, .terminal .parenClose]]⟩,
    ⟨"rest", [[], [.terminal .identifier, .nonterminal 1]]⟩]
  start := 0

/-- For instance, the rest of some names is empty in view of the parenthesis that follows it, and it
begins with an identifier in view of one; nothing else is predicted, so it is given up at the end of
the source, and a comma is passed over.  Of one identifier or a list of them there is no table, as an
identifier predicts both. -/
theorem Table.cells_exact_bracketedNames :
    (∃ r cells, Rules.resolve bracketedNames = .ok r ∧ Cells.fill r r.firstFollow = .ok cells ∧
      (∀ i a b k, r.Predicts i a k → r.Predicts i b k → a = b) ∧
      r.Predicts 1 0 .parenClose ∧ cells.get? r 1 .parenClose = some (.expand 0) ∧
      r.Predicts 1 1 .identifier ∧ cells.get? r 1 .identifier = some (.expand 1) ∧
      cells.get? r 1 .endOfInput = some (.recover .pop) ∧
      cells.get? r 1 .comma = some (.recover .scan) ∧ ∀ a, ¬ r.Predicts 1 a .comma) ∧
    ∃ r c, Rules.resolve identifierOrList = .ok r ∧ Cells.fill r r.firstFollow = .error c ∧
      c.IsFirst r ∧ c.error r = .tableConflict "item" .identifier 0 1 := by
  constructor
  · have hr : Rules.resolve bracketedNames = .ok bracketedNamesRules := by decide +kernel
    have hrecover : (Cells.fill bracketedNamesRules bracketedNamesRules.firstFollow).toOption.map
        (fun cells => (cells.get? bracketedNamesRules 1 .endOfInput,
          cells.get? bracketedNamesRules 1 .comma)) =
        some (some (.recover .pop), some (.recover .scan)) := by decide +kernel
    obtain ⟨cells, hcells, hrecover⟩ := Option.map_eq_some_iff.mp hrecover
    have hfill := toOption_eq_some_iff.mp hcells
    obtain ⟨hpop, hscan⟩ := Prod.mk.inj hrecover
    have hclose : bracketedNamesRules.Predicts 1 0 .parenClose :=
      ⟨[], rfl, .inr ⟨by decide +kernel, by decide +kernel⟩⟩
    have hidentifier : bracketedNamesRules.Predicts 1 1 .identifier :=
      ⟨[.terminal .identifier, .nonterminal 1], rfl, .inl ⟨by decide +kernel, by decide⟩⟩
    obtain ⟨htable, hexact, -⟩ := Table.cells_exact hr
    have hrest (k : Terminal) := hexact cells hfill 1 (by decide) k
    refine ⟨bracketedNamesRules, cells, hr, hfill, htable.mp ⟨cells, hfill⟩, hclose,
      ((hrest .parenClose).1 0).mpr hclose, hidentifier, ((hrest .identifier).1 1).mpr hidentifier,
      hpop, hscan, fun a ha => ?_⟩
    have hcomma := ((hrest .comma).1 a).mpr ha
    rw [hscan] at hcomma
    exact absurd hcomma (by simp)
  · have hr : Rules.resolve identifierOrList = .ok ⟨#[
        ⟨"item", [[.nonterminal 1], [.nonterminal 2]]⟩, ⟨"single", [[.terminal .identifier]]⟩,
        ⟨"list", [[], [.terminal .identifier, .terminal .comma, .nonterminal 2]]⟩], 0⟩ := by
      decide +kernel
    obtain ⟨-, -, herror, -⟩ := Table.cells_exact hr
    obtain ⟨hfirst, -⟩ := herror ⟨0, .identifier, 0, 1⟩ (by decide +kernel)
    exact ⟨_, _, hr, by decide +kernel, hfirst, by decide +kernel⟩

end LL1
