/-
# A parser stays within its table

A parser looks up rows by the numbers on its stack and alternatives by the numbers in the cells.
All of them belong to something.  The numbers on the stack come from the start symbol and from
alternatives of the rules, in which resolution has put numbers of nonterminals only; a cell has
been filled with the position of an alternative.  Whatever the lexer delivers, and however often
the parser is resumed or opened anew, no step leads out of this range.  Resolution also limits the
size of the rules, so that every number in use is a word of sixteen bits.
-/
import LL1.Proofs.Compilation
import LL1.Proofs.Recovery

namespace LL1

variable {g : Grammar} {c : Compilation} {r : Rules} {s : FirstFollow} {table : Table} {fuel : Nat}
  {i a : Nat} {k : Terminal}

/-! ### The cells of a table -/

namespace Table

/-- Every nonterminal has a cell for every terminal. -/
lemma exists_get? (h : ofRules r s = .ok table) (hi : i < table.rules.size) (k : Terminal) :
    ∃ act, table.get? i k = some act := by
  obtain ⟨rfl, -, -, hcells⟩ := ofRules_eq_ok h
  exact ⟨_, hcells i hi k⟩

/-- An alternative that a cell calls for exists. -/
lemma exists_alternative_of_get? (h : ofRules r s = .ok table)
    (hact : table.get? i k = some (.expand a)) :
    ∃ phrase, (table.rules.alternatives i)[a]? = some phrase := by
  obtain ⟨rfl, -, hdisjoint, hcells⟩ := ofRules_eq_ok h
  have hi : i < table.rules.size := by
    by_contra hi
    rw [get?_of_size_le h (Nat.not_lt.mp hi)] at hact
    exact absurd hact (by simp)
  rw [hcells i hi, Option.some.injEq, Row.action_eq_expand_iff (hdisjoint i hi)] at hact
  obtain ⟨lookaheads, hlookaheads, -⟩ := hact
  rw [FirstFollow.predictions, List.getElem?_map, Option.map_eq_some_iff] at hlookaheads
  obtain ⟨phrase, hphrase, -⟩ := hlookaheads
  exact ⟨phrase, hphrase⟩

/-- What the predictor expands is a rule. -/
lemma ruleSet_of_expand (h : ofRules r s = .ok table)
    (hact : table.predictor.action i k = .expand a) :
    table.rules.ruleSet i (table.predictor.alternative i a) := by
  have hget : table.get? i k = some (.expand a) := by
    cases hcell : table.get? i k with
    | none => simp [predictor, hcell] at hact
    | some act => simpa [predictor, hcell] using hact
  obtain ⟨phrase, hphrase⟩ := exists_alternative_of_get? h hget
  have heq : table.predictor.alternative i a = phrase := by
    show table.rules.alternative i a = phrase
    rw [Rules.alternative, hphrase, Option.getD_some]
  rw [heq]
  exact List.mem_of_getElem? hphrase

end Table

/-! ### The parsers that can be reached -/

namespace Parser

variable {p q : Parser} {t : Token} {e : Option SyntaxError} {st : Step}

/-- The states of a parser that follows `pr`: at the start with some lexer, between two steps of a
call, after a call, and after it has been opened on another source. -/
inductive Reachable (pr : Predictor) : Parser → Prop
  | start (l : Lexer) : Reachable pr (.ofLexer pr l)
  | step {p : Parser} {s : Step} : Reachable pr p → p.step = some s → Reachable pr s.parser
  | proceed {p : Parser} {fuel : Nat} {r : Run} :
      Reachable pr p → p.proceed fuel = some r → Reachable pr r.parser
  | reopen {p : Parser} (source : String) : Reachable pr p → Reachable pr (p.reopen source)

/-- The parser follows the table, and the numbers on its stack belong to rows. -/
structure InRange (table : Table) (p : Parser) : Prop where
  predictor_eq : p.predictor = table.predictor
  lt_size : ∀ i ∈ Phrase.nonterminals p.stack, i < table.rules.size

lemma inRange_ofLexer (hr : table.rules.WellFormed) (l : Lexer) :
    (ofLexer table.predictor l).InRange table where
  predictor_eq := rfl
  lt_size i hi := by
    rw [Phrase.mem_nonterminals] at hi
    have hstart : i = table.rules.start := by
      simpa [ofLexer, Predictor.goal, Table.predictor] using hi
    rw [hstart]
    exact hr.start_lt

/-- What is done with a token changes the stack by the symbols of an alternative at most. -/
lemma InRange.acts (hr : table.rules.WellFormed) (htable : Table.ofRules r s = .ok table)
    (hp : p.InRange table) (h : p.Acts t q e) : q.InRange table := by
  have hbelow {top : Symbol Nat} {below : Phrase Nat} (hstack : p.stack = top :: below) :
      ∀ i ∈ Phrase.nonterminals below, i < table.rules.size := by
    intro i hi
    refine hp.lt_size i ?_
    rw [Phrase.mem_nonterminals] at hi ⊢
    rw [hstack]
    exact List.mem_cons_of_mem top hi
  cases h with
  | matched hstack => exact ⟨hp.predictor_eq, hbelow hstack⟩
  | stuck _ _ _ => exact ⟨hp.predictor_eq, hp.lt_size⟩
  | refused _ _ _ => exact ⟨hp.predictor_eq, hp.lt_size⟩
  | @expanded i a below hstack hact =>
    rw [hp.predictor_eq] at hact ⊢
    have hrule := Table.ruleSet_of_expand htable hact
    refine ⟨rfl, fun j hj => ?_⟩
    rw [Phrase.mem_nonterminals, List.mem_append, ← Phrase.mem_nonterminals,
      ← Phrase.mem_nonterminals] at hj
    exact hj.elim (hr.references_lt i _ hrule j) (hbelow hstack j)
  | popped hstack _ => exact ⟨hp.predictor_eq, hbelow hstack⟩
  | scanned _ _ => exact ⟨hp.predictor_eq, hp.lt_size⟩

lemma InRange.step (hr : table.rules.WellFormed) (htable : Table.ofRules r s = .ok table)
    (hp : p.InRange table) (h : p.step = some st) : st.parser.InRange table := by
  rcases step_cases h with ⟨e, l, -, -, -, hq⟩ | ⟨t, p', e, hpeek, hacts, -⟩
  · rw [hq]
    exact ⟨hp.predictor_eq, hp.lt_size⟩
  · obtain ⟨hpredictor, hstack, -⟩ := hpeek.unchanged
    have hp' : p'.InRange table := ⟨hpredictor.trans hp.predictor_eq, hstack ▸ hp.lt_size⟩
    exact hp'.acts hr htable hacts

/-- **No step leads out of the range of the table.** -/
theorem Reachable.inRange (hr : table.rules.WellFormed) (htable : Table.ofRules r s = .ok table)
    (h : Reachable table.predictor p) : p.InRange table := by
  induction h with
  | start l => exact inRange_ofLexer hr l
  | step _ hstep ih => exact ih.step hr htable hstep
  | proceed _ hproceed ih =>
    exact proceed_induction hproceed ih fun _ _ hp hstep => hp.step hr htable hstep
  | reopen source _ ih =>
    rw [Parser.reopen, ih.predictor_eq]
    exact inRange_ofLexer hr _

end Parser

/-! ### Numbers of sixteen bits -/

lemma length_canonical_le {α : Type} [Ord α] [Std.TransOrd α] [Std.LawfulEqOrd α] (as : List α) :
    (canonical as).length ≤ as.length :=
  ((increasing_canonical as).nodup.subperm fun _ => mem_canonical.mp).length_le

namespace Rules

lemma size_le_numberLimit (h : resolve g = .ok r) : r.size ≤ numberLimit := by
  have hsize := size_resolve h
  simp only [resolve, bind, Except.bind] at h
  split at h
  · exact absurd h (by simp)
  · next hlimit =>
    rw [hsize, Grammar.nonterminals, List.length_map]
    omega

lemma length_alternatives_le_numberLimit (h : resolve g = .ok r) (i : Nat) :
    (r.alternatives i).length ≤ numberLimit := by
  by_cases hi : i < r.rules.toList.length
  · have hrules := (resolve_eq_ok h).1
    obtain ⟨hlen, hall⟩ := List.forall₂_iff_get.mp hrules
    obtain ⟨hlimit, phrases, hphrases, hrule⟩ := Production.resolve_eq_ok (hall i (hlen ▸ hi) hi)
    have heq : r.alternatives i = canonical phrases := by
      rw [alternatives, ← Array.getElem?_toList, List.getElem?_eq_getElem hi]
      exact congrArg Rule.alternatives hrule
    have hle := length_canonical_le phrases
    have hlength := (forall₂_of_mapM hphrases).length_eq
    rw [heq]
    omega
  · have hnone : r.rules[i]? = none := by
      rw [← Array.getElem?_toList]
      exact List.getElem?_eq_none (Nat.not_lt.mp hi)
    simp [alternatives, hnone]

end Rules

/-- Numbers of nonterminals and alternatives fit into sixteen bits. -/
lemma toNat_ofNat_of_lt_numberLimit (h : i < numberLimit) : (UInt16.ofNat i).toNat = i :=
  UInt16.toNat_ofNat_of_lt' (h.trans (by decide))

/-! ### Tables of grammars -/

/-- A table comes from the resolved normal form of a grammar, also without the check for
conflicts. -/
lemma Grammar.compileUnchecked_eq_ok (h : g.compileUnchecked fuel = some c)
    (hc : c.result = .ok table) : ∃ n, g.normalize fuel = some n ∧
      Rules.resolve n.grammar = .ok table.rules ∧
      Table.ofRules table.rules table.rules.firstFollow = .ok table := by
  obtain ⟨n, hn, rfl⟩ := Option.map_eq_some_iff.mp h
  have houtcome : (Outcome.ofNormal false n.grammar).result = .ok table := hc
  obtain ⟨r, hr, htable⟩ := Outcome.ofNormal_eq_ok houtcome
  obtain ⟨rfl, -⟩ := Table.ofRules_eq_ok htable
  exact ⟨n, hn, hr, htable⟩

/-- **A table never sends its parser out of range.**  In every state that a parser can come to, a
nonterminal on its stack has a row with a cell for every terminal, and if the cell calls for an
alternative, then the nonterminal has that alternative and it is the one that the parser gets.
The numbers of all nonterminals and of all alternatives are words of sixteen bits. -/
theorem Grammar.parser_in_range {p : Parser} (h : g.compileUnchecked fuel = some c)
    (hc : c.result = .ok table) (hp : Parser.Reachable table.predictor p) :
    (∀ i, .nonterminal i ∈ p.stack → i < table.rules.size ∧ ∀ k, ∃ act,
      table.get? i k = some act ∧ p.predictor.action i k = act ∧
      ∀ a, act = .expand a → ∃ phrase,
        (table.rules.alternatives i)[a]? = some phrase ∧ p.predictor.alternative i a = phrase) ∧
    (∀ i < table.rules.size, (UInt16.ofNat i).toNat = i) ∧
    ∀ i a, a < (table.rules.alternatives i).length → (UInt16.ofNat a).toNat = a := by
  obtain ⟨n, -, hr, htable⟩ := compileUnchecked_eq_ok h hc
  have hrange := hp.inRange (Rules.wellFormed_of_resolve hr) htable
  refine ⟨fun i hi => ?_, fun i hi => ?_, fun i a ha => ?_⟩
  · have hlt : i < table.rules.size := hrange.lt_size i (Phrase.mem_nonterminals.mpr hi)
    refine ⟨hlt, fun k => ?_⟩
    obtain ⟨act, hact⟩ := Table.exists_get? htable hlt k
    rw [hrange.predictor_eq]
    refine ⟨act, hact, by simp [Table.predictor, hact], ?_⟩
    rintro a rfl
    obtain ⟨phrase, hphrase⟩ := Table.exists_alternative_of_get? htable hact
    exact ⟨phrase, hphrase, by simp [Table.predictor, Rules.alternative, hphrase]⟩
  · have hsize := Rules.size_le_numberLimit hr
    exact toNat_ofNat_of_lt_numberLimit (Nat.lt_of_lt_of_le hi hsize)
  · have hlength := Rules.length_alternatives_le_numberLimit hr i
    exact toNat_ofNat_of_lt_numberLimit (Nat.lt_of_lt_of_le ha hlength)

/-- A compilation with a table that passes a test. -/
lemma exists_table_of_any (compilation : Option Compilation) (test : Table → Bool)
    (h : (compilation.any fun c => c.result.toOption.any test) = true) :
    ∃ c table, compilation = some c ∧ c.result = .ok table ∧ test table = true := by
  obtain ⟨c, hc, h⟩ := (Option.any_eq_true _ _).mp h
  obtain ⟨table, htable, htest⟩ := (Option.any_eq_true _ _).mp h
  refine ⟨c, table, hc, ?_, htest⟩
  cases hresult : c.result with
  | error e => simp [hresult, Except.toOption] at htable
  | ok table' =>
    rw [hresult] at htable
    exact congrArg Except.ok (Option.some.inj htable)

/-- For instance, when a list of identifiers has been begun, its rest is expected, which is the
nonterminal with the number 1. -/
theorem parser_in_range_identifierList : ∃ c table p,
    identifierList.compileUnchecked 3 = some c ∧ c.result = .ok table ∧
      Parser.Reachable table.predictor p ∧ .nonterminal 1 ∈ p.stack ∧
      1 < table.rules.size ∧ ∀ k, ∃ act,
        table.get? 1 k = some act ∧ p.predictor.action 1 k = act ∧
        ∀ a, act = .expand a → ∃ phrase,
          (table.rules.alternatives 1)[a]? = some phrase ∧
            p.predictor.alternative 1 a = phrase := by
  obtain ⟨c, table, h, hc, htest⟩ :=
    exists_table_of_any (identifierList.compileUnchecked 3)
      (fun table => (Parser.ofSource table.predictor Sql.lexicon "a, b").step.any
        (·.parser.stack.contains (.nonterminal 1))) (by decide +kernel)
  obtain ⟨s, hs, hstack⟩ := (Option.any_eq_true _ _).mp htest
  have hp : Parser.Reachable table.predictor s.parser := .step (.start _) hs
  have hmem : .nonterminal 1 ∈ s.parser.stack := List.contains_iff_mem.mp hstack
  obtain ⟨hlt, hcells⟩ := (Grammar.parser_in_range h hc hp).1 1 hmem
  exact ⟨c, table, s.parser, h, hc, hp, hmem, hlt, hcells⟩

end LL1
