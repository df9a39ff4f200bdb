/-
# Derivation trees of LL(1) rules

A derivation tree shows which alternatives are chosen in deriving a string, and which part of the
string comes from which symbol.  LL(1) rules leave no choice in this: two derivation trees with
the same nonterminal at the root and the same string are equal.

Lists of trees are compared from the left, as a parser comes upon their nodes.  The first token of
the string that both lists yield calls for the alternative at the first node of either list, so the
alternatives are the same; if there is no token, both can be empty.  The node is then replaced by
its children, which makes the lists smaller.
-/
import LL1.Proofs.Conflict

namespace LL1

/-- A tree with nonterminals at its nodes and terminals at its leaves. -/
inductive Tree (ν : Type) where
  | leaf (t : Terminal)
  | node (n : ν) (children : List (Tree ν))

namespace Tree

variable {ν : Type} {P : RuleSet ν} {F : ν → Terminal → Prop} {n : ν} {p : Phrase ν}
  {w : List Terminal} {x y : Tree ν} {xs ys : List (Tree ν)}

/-- The symbol at the root. -/
def root : Tree ν → Symbol ν
  | leaf t => .terminal t
  | node n _ => .nonterminal n

mutual

/-- The terminals at the leaves, from left to right. -/
def yield : Tree ν → List Terminal
  | leaf t => [t]
  | node _ xs => yieldAll xs

/-- The terminals at the leaves of several trees. -/
def yieldAll : List (Tree ν) → List Terminal
  | [] => []
  | x :: xs => x.yield ++ yieldAll xs

end

mutual

/-- The number of nodes and leaves. -/
def size : Tree ν → Nat
  | leaf _ => 1
  | node _ xs => sizeAll xs + 1

/-- The number of nodes and leaves of several trees. -/
def sizeAll : List (Tree ν) → Nat
  | [] => 0
  | x :: xs => x.size + sizeAll xs

end

/-- At every node, the roots of the children form an alternative of the nonterminal. -/
inductive IsDerivation (P : RuleSet ν) : Tree ν → Prop
  | leaf (t : Terminal) : IsDerivation P (.leaf t)
  | node {n : ν} {xs : List (Tree ν)} : P n (xs.map root) → (∀ x ∈ xs, IsDerivation P x) →
      IsDerivation P (.node n xs)

lemma yieldAll_append (xs ys : List (Tree ν)) :
    yieldAll (xs ++ ys) = yieldAll xs ++ yieldAll ys := by
  induction xs with
  | nil => rfl
  | cons x xs ih => rw [List.cons_append, yieldAll, yieldAll, ih, List.append_assoc]

lemma sizeAll_append (xs ys : List (Tree ν)) :
    sizeAll (xs ++ ys) = sizeAll xs + sizeAll ys := by
  induction xs with
  | nil => simp [sizeAll]
  | cons x xs ih => rw [List.cons_append, sizeAll, sizeAll, ih, Nat.add_assoc]

lemma IsDerivation.rule (h : IsDerivation P (.node n xs)) :
    P n (xs.map root) ∧ ∀ x ∈ xs, IsDerivation P x := by
  cases h with
  | node hn hxs => exact ⟨hn, hxs⟩

/-! ### Trees and strings -/

/-- The string at the leaves is derived from the roots. -/
lemma yields_yieldAll (xs : List (Tree ν)) (h : ∀ x ∈ xs, IsDerivation P x) :
    P.Yields (xs.map root) (yieldAll xs) := by
  match xs with
  | [] => exact .nil
  | .leaf t :: xs =>
    exact .terminal (yields_yieldAll xs (List.forall_mem_cons.mp h).2)
  | .node n cs :: xs =>
    obtain ⟨hx, hxs⟩ := List.forall_mem_cons.mp h
    obtain ⟨hn, hcs⟩ := hx.rule
    exact .nonterminal hn (yields_yieldAll cs hcs) (yields_yieldAll xs hxs)
termination_by sizeAll xs
decreasing_by all_goals simp only [sizeAll, size]; omega

/-- Whatever is derived has derivation trees. -/
lemma exists_trees (h : P.Yields p w) : ∃ xs : List (Tree ν),
    (∀ x ∈ xs, IsDerivation P x) ∧ xs.map root = p ∧ yieldAll xs = w := by
  induction h with
  | nil => exact ⟨[], by simp, rfl, rfl⟩
  | @terminal t p w _ ih =>
    obtain ⟨xs, hxs, rfl, rfl⟩ := ih
    exact ⟨.leaf t :: xs, List.forall_mem_cons.mpr ⟨.leaf t, hxs⟩, rfl, rfl⟩
  | @nonterminal n a p u v hn _ _ iha ihp =>
    obtain ⟨cs, hcs, rfl, rfl⟩ := iha
    obtain ⟨xs, hxs, rfl, rfl⟩ := ihp
    exact ⟨.node n cs :: xs, List.forall_mem_cons.mpr ⟨.node hn hcs, hxs⟩, rfl, rfl⟩

/-- A nonterminal has a derivation tree for exactly the strings that it derives. -/
theorem exists_isDerivation_iff :
    (∃ x : Tree ν, x.IsDerivation P ∧ x.root = .nonterminal n ∧ x.yield = w) ↔
      P.Derives [.nonterminal n] (w.map .terminal) := by
  rw [RuleSet.derives_terminals_iff]
  constructor
  · rintro ⟨x, hx, hroot, rfl⟩
    have hyields := yields_yieldAll [x] (by simpa using hx)
    simpa [yieldAll, hroot] using hyields
  · intro h
    obtain ⟨xs, hxs, hroots, rfl⟩ := exists_trees h
    obtain ⟨x, rfl, hroot⟩ := List.map_eq_singleton_iff.mp hroots
    exact ⟨x, hxs x (by simp), hroot, by simp [yieldAll]⟩

/-! ### Uniqueness -/

/-- The alternative at the first node is determined by the string. -/
lemma alternative_unique {a b q : Phrase ν} (h : P.IsLL1 F) (hε : P.Avoids .epsilon)
    (hfollowed : P.Followed F (.nonterminal n :: q)) (hq : .terminal .epsilon ∉ q)
    (ha : P n a) (hb : P n b) (haw : P.Yields (a ++ q) w) (hbw : P.Yields (b ++ q) w) :
    a = b := by
  cases w with
  | nil =>
    have hea := (RuleSet.yields_nil_iff.mp haw).of_append.1
    have heb := (RuleSet.yields_nil_iff.mp hbw).of_append.1
    rw [← RuleSet.first_epsilon] at hea heb
    exact h.first_first n a b .epsilon ha hb hea heb
  | cons t w =>
    have hmem : t ≠ .epsilon := by
      rintro rfl
      have hp : .terminal .epsilon ∉ a ++ q := by simp [hε n a ha, hq]
      exact haw.not_mem hε hp List.mem_cons_self
    have hta := hfollowed.callsFor hmem haw.begins
    have htb := hfollowed.callsFor hmem hbw.begins
    exact h.deterministic n a b t ha hb hmem hta htb

/-- Lists of derivation trees with the same roots and the same string are equal. -/
lemma eq_of_yieldAll_eq (h : P.IsLL1 F) (hF : P.Follows F) (hε : P.Avoids .epsilon)
    (xs ys : List (Tree ν)) (hxs : ∀ x ∈ xs, IsDerivation P x) (hys : ∀ y ∈ ys, IsDerivation P y)
    (hroots : xs.map root = ys.map root) (hmarker : .terminal .epsilon ∉ xs.map root)
    (hfollowed : P.Followed F (xs.map root)) (hyield : yieldAll xs = yieldAll ys) : xs = ys := by
  match xs, ys with
  | [], [] => rfl
  | .leaf t :: xs, .leaf t' :: ys =>
    obtain ⟨ht, htail⟩ := List.cons.inj hroots
    obtain rfl : t = t' := Symbol.terminal.inj ht
    have hrest : xs = ys :=
      eq_of_yieldAll_eq h hF hε xs ys (List.forall_mem_cons.mp hxs).2
        (List.forall_mem_cons.mp hys).2 htail (fun hmem => hmarker (List.mem_cons_of_mem _ hmem))
        hfollowed.tail (by simpa [yieldAll, yield] using hyield)
    rw [hrest]
  | .node n cs :: xs, .node n' ds :: ys =>
    have htail : xs.map root = ys.map root := (List.cons.inj hroots).2
    obtain rfl : n = n' := Symbol.nonterminal.inj (List.cons.inj hroots).1
    obtain ⟨hx, hxs⟩ := List.forall_mem_cons.mp hxs
    obtain ⟨hy, hys⟩ := List.forall_mem_cons.mp hys
    obtain ⟨hcs_rule, hcs⟩ := hx.rule
    obtain ⟨hds_rule, hds⟩ := hy.rule
    have hcxs : ∀ x ∈ cs ++ xs, IsDerivation P x := List.forall_mem_append.mpr ⟨hcs, hxs⟩
    have hdys : ∀ y ∈ ds ++ ys, IsDerivation P y := List.forall_mem_append.mpr ⟨hds, hys⟩
    have hq : .terminal .epsilon ∉ xs.map root := fun hmem =>
      hmarker (List.mem_cons_of_mem _ hmem)
    have hstring : yieldAll (cs ++ xs) = yieldAll (ds ++ ys) := by
      simpa [yieldAll, yield, yieldAll_append] using hyield
    have halt : cs.map root = ds.map root := by
      have hxw := yields_yieldAll _ hcxs
      have hyw := yields_yieldAll _ hdys
      rw [List.map_append] at hxw hyw
      rw [← hstring, ← htail] at hyw
      exact alternative_unique h hε hfollowed hq hcs_rule hds_rule hxw hyw
    -- the children take the place of the node
    have hlists : cs ++ xs = ds ++ ys := by
      refine eq_of_yieldAll_eq h hF hε (cs ++ xs) (ds ++ ys) hcxs hdys ?_ ?_ ?_ hstring
      · rw [List.map_append, List.map_append, halt, htail]
      · rw [List.map_append, List.mem_append, not_or]
        exact ⟨hε n _ hcs_rule, hq⟩
      · rw [List.map_append]
        exact hfollowed.replace hF hcs_rule
    have hlength : cs.length = ds.length := by
      simpa using congrArg List.length halt
    obtain ⟨rfl, rfl⟩ := List.append_inj hlists hlength
    rfl
  | .leaf _ :: _, .node _ _ :: _ => exact absurd (List.cons.inj hroots).1 (by simp [root])
  | .node _ _ :: _, .leaf _ :: _ => exact absurd (List.cons.inj hroots).1 (by simp [root])
termination_by sizeAll xs
decreasing_by all_goals simp only [sizeAll_append, sizeAll, size]; omega

end Tree

/-- **LL(1) rules are unambiguous.** -/
theorem RuleSet.IsLL1.subsingleton_trees {ν : Type} {P : RuleSet ν} {F : ν → Terminal → Prop}
    (h : P.IsLL1 F) (hF : P.Follows F) (hε : P.Avoids .epsilon) (n : ν) (w : List Terminal) :
    {x : Tree ν | x.IsDerivation P ∧ x.root = .nonterminal n ∧ x.yield = w}.Subsingleton := by
  rintro x ⟨hx, hxroot, rfl⟩ y ⟨hy, hyroot, hyield⟩
  have hlists : [x] = [y] := by
    refine Tree.eq_of_yieldAll_eq h hF hε [x] [y] (by simpa using hx) (by simpa using hy) ?_ ?_ ?_ ?_
    · simp [hxroot, hyroot]
    · simp [hxroot]
    · -- nothing stands behind the nonterminal
      intro u m v t huv _ hv
      rw [List.map_singleton, eq_comm, List.append_eq_singleton_iff] at huv
      obtain ⟨-, -, rfl⟩ : u = [] ∧ .nonterminal m = x.root ∧ v = [] := by simpa using huv
      exact absurd hv (by rintro ⟨⟩)
    · simpa [Tree.yieldAll] using hyield.symm
  exact (List.cons.inj hlists).1

/-- **A grammar that passes the check is unambiguous.**  If the check accepts the resolved rules of
a normal form, then a nonterminal has at most one derivation tree for a string, whether or not it
can be reached from the start symbol. -/
theorem Grammar.subsingleton_derivation_trees {g : Grammar} {fuel : Nat} {n : Normalization}
    {r : Rules} (hg : g.WellFormed) (hn : g.normalize fuel = some n)
    (hr : Rules.resolve n.grammar = .ok r) (hcheck : r.firstFollow.check r = .ok ())
    (i : Nat) (w : List Terminal) :
    {x : Tree Nat | x.IsDerivation r.ruleSet ∧ x.root = .nonterminal i ∧
      x.yield = w}.Subsingleton := by
  have hε := avoids_epsilon_normalize hg hn hr
  have hll1 := (Rules.check_eq_ok_iff hε (Rules.nodup_alternatives_resolve hr)).mp hcheck
  exact hll1.subsingleton_trees (Rules.follows (Rules.wellFormed_of_resolve hr) hε) hε i w

/-- The rules of lists of identifiers. -/
def identifierListRules : Rules where
  rules := #[⟨"list", [[.terminal .identifier, .nonterminal 1]]⟩,
    ⟨"list_tail1", [[], [.terminal .comma, .terminal .identifier, .nonterminal 1]]⟩]
  start := 0

/-- The derivation tree of a list of two identifiers. -/
def identifierPairTree : Tree Nat :=
  .node 0 [.leaf .identifier, .node 1 [.leaf .comma, .leaf .identifier, .node 1 []]]

lemma isDerivation_identifierPairTree :
    identifierPairTree.IsDerivation identifierListRules.ruleSet := by
  have hleaf (t : Terminal) : Tree.IsDerivation identifierListRules.ruleSet (.leaf t) := .leaf t
  have hend : Tree.IsDerivation identifierListRules.ruleSet (.node 1 []) :=
    .node (List.mem_cons_self ..) (by simp)
  refine .node (List.mem_cons_self ..) ?_
  simp only [List.forall_mem_cons, List.not_mem_nil, false_imp_iff, implies_true, and_true]
  refine ⟨hleaf _, .node (List.mem_cons_of_mem _ (List.mem_cons_self ..)) ?_⟩
  simp only [List.forall_mem_cons, List.not_mem_nil, false_imp_iff, implies_true, and_true]
  exact ⟨hleaf _, hleaf _, hend⟩

/-- It is the only one. -/
theorem eq_identifierPairTree : ∃ n, identifierList.normalize 3 = some n ∧
    Rules.resolve n.grammar = .ok identifierListRules ∧
      identifierListRules.firstFollow.check identifierListRules = .ok () ∧
      ∀ x : Tree Nat, x.IsDerivation identifierListRules.ruleSet → x.root = .nonterminal 0 →
        x.yield = [.identifier, .comma, .identifier] → x = identifierPairTree := by
  have h : (identifierList.normalize 3).map (Rules.resolve ·.grammar) =
      some (.ok identifierListRules) := by decide +kernel
  have hcheck : identifierListRules.firstFollow.check identifierListRules = .ok () := by
    decide +kernel
  obtain ⟨n, hn, hr⟩ := Option.map_eq_some_iff.mp h
  refine ⟨n, hn, hr, hcheck, fun x hx hroot hyield => ?_⟩
  exact Grammar.subsingleton_derivation_trees wellFormed_identifierList hn hr hcheck 0 _
    ⟨hx, hroot, hyield⟩ ⟨isDerivation_identifierPairTree, rfl, rfl⟩

end LL1
