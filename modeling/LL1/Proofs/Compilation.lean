/-
# What a compiled table stands for

The rules of a table that a grammar compiles to derive the language of the grammar, in spite of
normalization and resolution, and the predictor of the table decides for these rules.
-/
import LL1.Compilation
import LL1.Proofs.Normalization
import LL1.Proofs.Table
import LL1.Sql.Grammar

namespace LL1

variable {g : Grammar} {fuel : Nat} {c : Compilation} {table : Table} {t : Terminal}
  {w : List Terminal}

lemma toOption_eq_some_iff {ε α : Type} {x : Except ε α} {a : α} :
    x.toOption = some a ↔ x = .ok a := by
  cases x <;> simp [Except.toOption]

lemma Factored.start_iterate (fuel : Nat) (f : Factored) :
    (iterate fuel f).grammar.start = f.grammar.start := by
  induction fuel generalizing f with
  | zero => rfl
  | succ fuel ih =>
    rw [iterate]
    dsimp only
    split
    · exact ih _
    · rfl

lemma Grammar.start_normalize {n : Normalization} (h : g.normalize fuel = some n) :
    n.grammar.start = g.start := by
  obtain ⟨t, ht, rfl⟩ := Option.map_eq_some_iff.mp h
  obtain ⟨e, -, rfl⟩ := Option.map_eq_some_iff.mp ht
  exact Factored.start_iterate _ _

/-- More fuel than suffices makes no difference. -/
lemma Elimination.run_mono {e e' : Elimination} {fuel' : Nat} (h : e.run fuel = some e')
    (hle : fuel ≤ fuel') : e.run fuel' = some e' := by
  induction fuel generalizing e fuel' with
  | zero => exact absurd h (by simp [run])
  | succ fuel ih =>
    obtain ⟨k, rfl⟩ : ∃ k, fuel' = k + 1 := ⟨fuel' - 1, by omega⟩
    rw [run] at h ⊢
    split at h
    · exact h
    · exact ih h (by omega)

lemma Grammar.compile_mono {fuel' : Nat} (h : g.compile fuel = some c) (hle : fuel ≤ fuel') :
    g.compile fuel' = some c := by
  obtain ⟨n, hn, rfl⟩ := Option.map_eq_some_iff.mp h
  obtain ⟨t, ht, rfl⟩ := Option.map_eq_some_iff.mp hn
  obtain ⟨e, he, rfl⟩ := Option.map_eq_some_iff.mp ht
  rw [compile, normalize, removeLeftRecursion, Elimination.run_mono he hle]
  rfl

/-- A grammar compiles to the same however much fuel there is. -/
lemma Grammar.compile_unique {fuel' : Nat} {c' : Compilation} (h : g.compile fuel = some c)
    (h' : g.compile fuel' = some c') : c = c' := by
  have hmax := compile_mono h (Nat.le_max_left fuel fuel')
  have hmax' := compile_mono h' (Nat.le_max_right fuel fuel')
  exact Option.some.inj (hmax.symm.trans hmax')

lemma Outcome.ofNormal_eq_ok {checked : Bool} (h : (ofNormal checked g).result = .ok table) :
    ∃ r, Rules.resolve g = .ok r ∧ Table.ofRules r r.firstFollow = .ok table := by
  rw [ofNormal] at h
  split at h
  · exact absurd h (by simp [result])
  · next r hr =>
    dsimp only at h
    split at h
    · exact absurd h (by simp [result])
    · split at h
      · exact absurd h (by simp [result])
      · next table' htable =>
        obtain rfl : table' = table := Except.ok.inj h
        exact ⟨r, hr, htable⟩

namespace Grammar

/-- A table comes from the resolved normal form of a grammar. -/
lemma compile_eq_ok (h : g.compile fuel = some c) (hc : c.result = .ok table) :
    ∃ n, g.normalize fuel = some n ∧ Rules.resolve n.grammar = .ok table.rules ∧
      table.sets = table.rules.firstFollow ∧
      Table.ofRules table.rules table.rules.firstFollow = .ok table := by
  obtain ⟨n, hn, rfl⟩ := Option.map_eq_some_iff.mp h
  obtain ⟨r, hr, htable⟩ := Outcome.ofNormal_eq_ok hc
  obtain ⟨rfl, hsets, -⟩ := Table.ofRules_eq_ok htable
  exact ⟨n, hn, hr, hsets, htable⟩

variable (hg : g.WellFormed) (h : g.compile fuel = some c) (hc : c.result = .ok table)
include hg h hc

/-- A terminal that no alternative contains is not in the rules of the table either. -/
lemma avoids_compile (ht : g.ruleSet.Avoids t) : table.rules.ruleSet.Avoids t := by
  obtain ⟨n, hn, hr, -⟩ := compile_eq_ok h hc
  exact Rules.avoids_resolve hr ((keepsLanguages_normalize hg.nodup hn).avoids t ht)

/-- **The rules of a table derive the language of the grammar.** -/
theorem yields_compile_iff :
    table.rules.ruleSet.Yields [.nonterminal table.rules.start] w ↔ w ∈ g.language g.start := by
  obtain ⟨n, hn, hr, -⟩ := compile_eq_ok h hc
  have hkeeps := keepsLanguages_normalize hg.nodup hn
  rw [Rules.yields_resolve_iff hr hkeeps.nodup, hkeeps.language_eq hg.start_mem,
    start_normalize hn, mem_language_iff]

/-- **A compiled table decides** for its rules. -/
theorem decides_compile : table.predictor.Decides table.rules.ruleSet
    (fun i t => t ∈ table.sets.followOf i) table.rules.size := by
  obtain ⟨n, hn, hr, hsets, htable⟩ := compile_eq_ok h hc
  rw [hsets]
  exact Table.decides (Rules.wellFormed_of_resolve hr) (avoids_compile hg h hc hg.noMarker) htable

end Grammar

/-- The grammar of SQL compiles. -/
lemma Sql.exists_table : ∃ g c table, Sql.grammar = .ok g ∧ g.WellFormed ∧
    g.ruleSet.Avoids .endOfInput ∧ g.compile 60 = some c ∧ c.result = .ok table := by
  have h : (match Sql.grammar with
      | .error _ => false
      | .ok g =>
        g.productions.all (·.alternatives.all fun a => ! a.contains (.terminal .endOfInput)) &&
        match g.compile 60 with
        | none => false
        | some c => c.result.isOk) = true := by decide +kernel
  split at h
  · exact absurd h (by simp)
  · next g hg =>
    obtain ⟨hend, h⟩ := (Bool.and_eq_true _ _).mp h
    split at h
    · exact absurd h (by simp)
    · next c hc =>
      cases htable : c.result with
      | error e =>
        rw [htable] at h
        exact absurd h (by simp [Except.isOk, Except.toBool])
      | ok table =>
        refine ⟨g, c, table, hg, Grammar.wellFormed_of_define hg, ?_, hc, htable⟩
        rintro n a ⟨p, hp, -, ha⟩ hmem
        simp only [List.all_eq_true] at hend
        simpa [hmem] using hend p hp a ha

end LL1
