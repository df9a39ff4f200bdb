/-
# Resolution is a renaming

What resolution needs is that everything can be numbered and that every name is defined.  Then the
rules are the grammar itself under other names: a nonterminal has the number of its position, and
when the names are put back, each nonterminal has the alternatives that it had, in another order.
Two names do not have the same number, so alternatives that differ still differ after resolution,
and to bring them into canonical form means no more than to sort them.  Words of sixteen bits are
enough for all numbers, since what does not fit into one is refused before it is narrowed.
-/
import LL1.Proofs.Cells
import LL1.Proofs.Reordering
import LL1.Rules.Numbering

namespace LL1

variable {names : List String} {referrer n : String} {a : Alternative} {as : List Alternative}
  {bs : List (Phrase Nat)} {p : Production} {rule : Rule} {g : Grammar} {r : Rules} {i fuel : Nat}

/-! ### When there are rules -/

/-- A phrase can be resolved if its names are defined. -/
lemma Phrase.exists_resolve_eq_ok_iff :
    (∃ b, a.mapM (Symbol.resolve names referrer) = .ok b) ↔ ∀ n ∈ a.nonterminals, n ∈ names := by
  rw [exists_mapM_eq_ok_iff]
  simp only [Phrase.mem_nonterminals]
  constructor
  · intro h n hn
    obtain ⟨s, hs⟩ := h _ hn
    rw [Symbol.resolve] at hs
    split at hs
    · next i hi =>
      obtain ⟨hlt, rfl, -⟩ := List.idxOf?_eq_some_iff.mp hi
      exact List.getElem_mem hlt
    · exact absurd hs (by simp)
  · rintro h (t | n) hs
    · exact ⟨.terminal t, rfl⟩
    · have hn : (names.idxOf? n).isSome := List.isSome_idxOf?.mpr (h n hs)
      obtain ⟨i, hi⟩ := Option.isSome_iff_exists.mp hn
      exact ⟨.nonterminal i, by rw [Symbol.resolve, hi]⟩

/-- A production can be resolved if its alternatives can be numbered and the names in them are
defined. -/
lemma Production.exists_resolve_eq_ok_iff : (∃ rule, p.resolve names = .ok rule) ↔
    p.alternatives.length ≤ numberLimit ∧ ∀ n ∈ p.references, n ∈ names := by
  have hreferences : (∃ bs, p.alternatives.mapM (·.mapM (Symbol.resolve names p.name)) = .ok bs) ↔
      ∀ n ∈ p.references, n ∈ names := by
    rw [exists_mapM_eq_ok_iff]
    simp only [Phrase.exists_resolve_eq_ok_iff, references, List.mem_flatMap]
    constructor
    · rintro h n ⟨a, ha, hn⟩
      exact h a ha n hn
    · exact fun h a ha n hn => h n ⟨a, ha, hn⟩
  rw [← hreferences, resolve]
  by_cases hlimit : p.alternatives.length > numberLimit
  · simp [hlimit]
  · simp only [hlimit, if_false, Nat.not_lt.mp hlimit, true_and, bind, Except.bind]
    cases p.alternatives.mapM (·.mapM (Symbol.resolve names p.name)) <;> simp

/-- The nonterminals of a grammar can be numbered, the alternatives of each of them as well, and
what they refer to is defined. -/
structure Grammar.Resolvable (g : Grammar) : Prop where
  nonterminals_le : g.nonterminals.length ≤ numberLimit
  alternatives_le : ∀ p ∈ g.productions, p.alternatives.length ≤ numberLimit
  references_mem : ∀ p ∈ g.productions, ∀ n ∈ p.references, n ∈ g.nonterminals

/-- If the start symbol is defined, then there are rules for what can be resolved. -/
lemma Rules.exists_resolve_eq_ok_iff (hstart : g.start ∈ g.nonterminals) :
    (∃ r, resolve g = .ok r) ↔ g.Resolvable := by
  have hproductions : (∃ rules, g.productions.mapM (Production.resolve g.nonterminals) =
      .ok rules) ↔ ∀ p ∈ g.productions,
        p.alternatives.length ≤ numberLimit ∧ ∀ n ∈ p.references, n ∈ g.nonterminals := by
    rw [exists_mapM_eq_ok_iff]
    simp only [Production.exists_resolve_eq_ok_iff]
  have hresolvable : g.Resolvable ↔ g.productions.length ≤ numberLimit ∧
      ∃ rules, g.productions.mapM (Production.resolve g.nonterminals) = .ok rules := by
    rw [hproductions]
    constructor
    · intro h
      exact ⟨by simpa [Grammar.nonterminals] using h.nonterminals_le,
        fun p hp => ⟨h.alternatives_le p hp, h.references_mem p hp⟩⟩
    · rintro ⟨hlimit, h⟩
      exact ⟨by simpa [Grammar.nonterminals] using hlimit, fun p hp => (h p hp).1,
        fun p hp => (h p hp).2⟩
  obtain ⟨start, hstart⟩ := Option.isSome_iff_exists.mp (List.isSome_idxOf?.mpr hstart)
  rw [hresolvable, resolve]
  by_cases hlimit : g.productions.length > numberLimit
  · simp [hlimit]
  · simp only [hlimit, if_false, Nat.not_lt.mp hlimit, true_and, hstart, bind, Except.bind]
    cases g.productions.mapM (Production.resolve g.nonterminals) <;> simp

/-- A start symbol that is defined is found. -/
lemma Rules.resolve_ne_unknownStartSymbol (hstart : g.start ∈ g.nonterminals) (name : String) :
    resolve g ≠ .error (.unknownStartSymbol name) := by
  obtain ⟨start, hidx⟩ := Option.isSome_iff_exists.mp (List.isSome_idxOf?.mpr hstart)
  intro h
  simp only [resolve, bind, Except.bind, hidx] at h
  split at h
  · exact absurd h (by simp)
  · split at h
    · next e hrules =>
      -- a production is refused for other reasons
      obtain rfl := Except.error.inj h
      obtain ⟨p, -, hp⟩ := exists_of_mapM_eq_error hrules
      exact absurd (Production.resolve_eq_error hp) (by simp)
    · exact absurd h (by simp)

/-! ### Names and numbers -/

/-- With the names put back, resolved alternatives are those that they come from. -/
lemma map_rename_of_mapM (h : as.mapM (·.mapM (Symbol.resolve names referrer)) = .ok bs) :
    bs.map (·.rename (names.getD · "")) = as := by
  have hall := forall₂_of_mapM h
  clear h
  induction hall with
  | nil => rfl
  | cons hab _ ih =>
    obtain ⟨-, ha, -⟩ := Phrase.resolve_eq_ok hab
    rw [List.map_cons, ih, ← ha]

/-- Alternatives that differ are resolved to phrases that differ. -/
lemma nodup_of_mapM (h : as.mapM (·.mapM (Symbol.resolve names referrer)) = .ok bs)
    (has : as.Nodup) : bs.Nodup :=
  .of_map _ (map_rename_of_mapM h ▸ has)

lemma Production.name_of_resolve (h : p.resolve names = .ok rule) : rule.name = p.name := by
  obtain ⟨-, _, -, rfl⟩ := resolve_eq_ok h
  rfl

/-- The production with a name is found under it. -/
lemma Grammar.alternatives?_name (hg : g.nonterminals.Nodup) (hp : p ∈ g.productions) :
    g.alternatives? p.name = some p.alternatives := by
  have hsome : (g.productions.find? (·.name == p.name)).isSome :=
    List.find?_isSome.mpr ⟨p, hp, by simp⟩
  obtain ⟨q, hq⟩ := Option.isSome_iff_exists.mp hsome
  have hname : q.name = p.name := by simpa using List.find?_some hq
  obtain rfl : q = p := List.inj_on_of_nodup_map hg (List.mem_of_find?_eq_some hq) hp hname
  rw [alternatives?, hq]
  rfl

namespace Rules

/-- The names of the rules are those of the nonterminals. -/
lemma names_of_resolve (h : resolve g = .ok r) : r.rules.toList.map (·.name) = g.nonterminals := by
  have hnames : List.Forall₂ (· = ·) (r.rules.toList.map (·.name))
      (g.productions.map (·.name)) := by
    rw [List.forall₂_map_left_iff, List.forall₂_map_right_iff]
    exact (resolve_eq_ok h).1.flip.imp fun _ _ hrule => Production.name_of_resolve hrule
  rwa [List.forall₂_eq_eq_eq] at hnames

/-- A number stands for the name at its position. -/
lemma getElem?_nonterminals_of_resolve (h : resolve g = .ok r) (hi : i < r.size) :
    g.nonterminals[i]? = some (r.name i) := by
  rw [← names_of_resolve h, List.getElem?_map, Array.getElem?_toList, name,
    Array.getElem?_eq_getElem hi]
  rfl

/-- The rules and the grammar find a name at the same position. -/
lemma id?_of_resolve (h : resolve g = .ok r) : r.id? n = g.nonterminals.idxOf? n := by
  rw [← names_of_resolve h, List.idxOf?, List.findIdx?_map, id?]
  cases r.rules
  simp [Function.comp_def]

/-- The name of a nonterminal leads back to its number. -/
lemma id?_name_of_resolve (h : resolve g = .ok r) (hg : g.nonterminals.Nodup) (hi : i < r.size) :
    r.id? (r.name i) = some i := by
  obtain ⟨hlt, hname⟩ := List.getElem?_eq_some_iff.mp (getElem?_nonterminals_of_resolve h hi)
  rw [id?_of_resolve h, List.idxOf?_eq_some_iff]
  refine ⟨hlt, hname, fun j hj heq => ?_⟩
  exact absurd (hg.getElem_inj_iff.mp (heq.trans hname.symm)) hj.ne

/-- With the names put back, a nonterminal has the alternatives that it had. -/
lemma alternatives_perm_of_resolve (h : resolve g = .ok r) (hg : g.nonterminals.Nodup)
    (hnodup : ∀ p ∈ g.productions, p.alternatives.Nodup) (hi : i < r.size) :
    ∃ as, g.alternatives? (r.name i) = some as ∧
      ((r.alternatives i).map (Phrase.rename r.name)).Perm as := by
  have hlt : i < g.productions.length := by
    rwa [size_resolve h, Grammar.nonterminals, List.length_map] at hi
  have hname : g.productions[i].name = r.name i := by
    have hget := getElem?_nonterminals_of_resolve h hi
    simpa [Grammar.nonterminals, hlt] using hget
  have hmem : g.productions[i] ∈ g.productions := List.getElem_mem hlt
  obtain ⟨phrases, hphrases, halternatives⟩ := alternatives_resolve h hlt
  have hrename : (r.alternatives i).map (Phrase.rename r.name) =
      (r.alternatives i).map (·.rename (g.nonterminals.getD · "")) := by
    refine List.map_congr_left fun b hb => Phrase.rename_congr fun j hj => ?_
    have hlt : j < r.size := (wellFormed_of_resolve h).references_lt i b hb j hj
    rw [List.getD_eq_getElem?_getD, getElem?_nonterminals_of_resolve h hlt, Option.getD_some]
  have hperm := (canonical_perm (nodup_of_mapM hphrases (hnodup _ hmem))).map
    (·.rename (g.nonterminals.getD · ""))
  rw [map_rename_of_mapM hphrases, ← halternatives, ← hrename] at hperm
  exact ⟨_, hname ▸ Grammar.alternatives?_name hg hmem, hperm⟩

end Rules

/-! ### Words of sixteen bits -/

lemma isNone_word?_iff : (word? i).isNone ↔ i > numberLimit := by
  have hsize : UInt16.size = numberLimit + 1 := rfl
  rw [word?]
  split <;> simp <;> omega

/-- If the nonterminals can be numbered, then every position is a word. -/
lemma Grammar.number?_eq_idxOf? (h : g.nonterminals.length ≤ numberLimit) (n : String) :
    g.number? n = g.nonterminals.idxOf? n := by
  rw [number?]
  cases hi : g.nonterminals.idxOf? n with
  | none => rfl
  | some i =>
    obtain ⟨hlt, -, -⟩ := List.idxOf?_eq_some_iff.mp hi
    have hsize : UInt16.size = numberLimit + 1 := rfl
    rw [Option.bind_some, word?, if_pos (by omega)]

section

variable {number? : String → Option Nat} (hnumber : ∀ n, number? n = names.idxOf? n)
include hnumber

lemma Symbol.number_eq_resolve :
    Symbol.number number? referrer = Symbol.resolve names referrer := by
  funext s
  cases s with
  | terminal t => rfl
  | nonterminal n => cases hn : names.idxOf? n <;> simp only [number, resolve, hnumber, hn]

lemma Production.number_eq_resolve (h : p.alternatives.Nodup) :
    p.number number? = p.resolve names := by
  rw [number, resolve, Symbol.number_eq_resolve hnumber]
  simp only [isNone_word?_iff]
  split
  · rfl
  · cases hphrases : p.alternatives.mapM fun a => a.mapM (Symbol.resolve names p.name) with
    | error e => rfl
    | ok phrases =>
      simp only [bind, Except.bind, mergeSort_eq_canonical (nodup_of_mapM hphrases h)]

end

namespace Rules

/-- For the rules it makes no difference whether numbers are narrowed to words, and whether
alternatives are sorted or brought into canonical form. -/
lemma number_eq_resolve (h : ∀ p ∈ g.productions, p.alternatives.Nodup) :
    number g = resolve g := by
  rw [number, resolve]
  simp only [isNone_word?_iff]
  split
  · rfl
  · next hlimit =>
    have hnumber : ∀ n, g.number? n = g.nonterminals.idxOf? n := by
      refine Grammar.number?_eq_idxOf? ?_
      rw [Grammar.nonterminals, List.length_map]
      omega
    have hrules : g.productions.mapM (Production.number g.number?) =
        g.productions.mapM (Production.resolve g.nonterminals) :=
      mapM_congr_left fun p hp => Production.number_eq_resolve hnumber (h p hp)
    cases hstart : g.nonterminals.idxOf? g.start <;> simp only [hrules, hnumber, hstart]

/-- The number of a nonterminal is a word. -/
lemma number?_of_resolve (h : resolve g = .ok r) (hi : r.id? n = some i) :
    r.number? n = some i := by
  rw [id?_of_resolve h] at hi
  obtain ⟨-, -, hlt⟩ := idxOf_of_idxOf?_eq_some hi
  rw [← size_resolve h] at hlt
  rw [number?, id?_of_resolve h, hi, Option.map_some,
    toNat_ofNat_of_lt_numberLimit (hlt.trans_le (size_le_numberLimit h))]

/-! ### Rules as a renaming -/

/-- The rules are the grammar with numbers in place of names. -/
structure Represents (r : Rules) (g : Grammar) : Prop where
  size_eq : r.size = g.nonterminals.length
  words_eq : words r.size = List.range r.size
  name_eq : ∀ i < r.size, g.nonterminals[i]? = some (r.name i)
  number?_name : ∀ i < r.size, r.number? (r.name i) = some i
  start_lt : r.start < r.size
  name_start : r.name r.start = g.start
  perm : ∀ i < r.size, ∃ as, g.alternatives? (r.name i) = some as ∧
    ((r.alternatives i).map (Phrase.rename r.name)).Perm as
  increasing : ∀ i < r.size, Increasing (r.alternatives i)
  references_lt : ∀ i < r.size, ∀ b ∈ r.alternatives i, ∀ j ∈ Phrase.nonterminals b, j < r.size

lemma represents_of_resolve (h : resolve g = .ok r) (hg : g.nonterminals.Nodup)
    (hnodup : ∀ p ∈ g.productions, p.alternatives.Nodup) : r.Represents g where
  size_eq := size_resolve h
  words_eq := words_eq_range (size_le_numberLimit h)
  name_eq _ hi := getElem?_nonterminals_of_resolve h hi
  number?_name _ hi := number?_of_resolve h (id?_name_of_resolve h hg hi)
  start_lt := (wellFormed_of_resolve h).start_lt
  name_start := by
    obtain ⟨hlt, hstart, -⟩ := List.idxOf?_eq_some_iff.mp (resolve_eq_ok h).2
    have hname := getElem?_nonterminals_of_resolve h (wellFormed_of_resolve h).start_lt
    rw [List.getElem?_eq_getElem hlt, hstart, Option.some.injEq] at hname
    exact hname.symm
  perm _ hi := alternatives_perm_of_resolve h hg hnodup hi
  increasing i _ := increasing_alternatives_resolve h i
  references_lt i _ b hb j hj := (wellFormed_of_resolve h).references_lt i b hb j hj

end Rules

/-- **Resolution renames a normal form and does nothing else.**  It succeeds if and only if there
are not too many nonterminals, none of them has too many alternatives, and all references are
defined; the start symbol always is.  The rules that it succeeds with are the normal form with
numbers in place of names.  Words of sixteen bits and mere sorting come to the same rules, and to
the same errors. -/
theorem Grammar.represents_normalize {n : Normalization} (hg : g.Reachable)
    (h : g.normalize fuel = some n) :
    ((∃ r, Rules.resolve n.grammar = .ok r) ↔ n.grammar.Resolvable) ∧
    (∀ name, Rules.resolve n.grammar ≠ .error (.unknownStartSymbol name)) ∧
    (∀ r, Rules.resolve n.grammar = .ok r → r.Represents n.grammar) ∧
    Rules.number n.grammar = Rules.resolve n.grammar := by
  have hwf : n.grammar.WellFormed := (hg.normalize h).wellFormed
  have hnodup : ∀ p ∈ n.grammar.productions, p.alternatives.Nodup :=
    fun p hp => (hwf.increasing p hp).nodup
  exact ⟨Rules.exists_resolve_eq_ok_iff hwf.start_mem,
    Rules.resolve_ne_unknownStartSymbol hwf.start_mem,
    fun r hr => Rules.represents_of_resolve hr hwf.nodup hnodup, Rules.number_eq_resolve hnodup⟩

/-- An item that is a sign or a name, in this order. -/
def signedItem : Grammar where
  productions := [⟨"item", [[.nonterminal "name"], [.nonterminal "sign"]]⟩,
    ⟨"sign", [[.terminal .star]]⟩, ⟨"name", [[.terminal .identifier]]⟩]
  start := "item"

/-- The name of a sign is the greater one, but its number is the smaller one: the alternatives of an
item change places when they are resolved. -/
theorem Grammar.represents_signedItem : signedItem.Reachable ∧
    ∃ n r, signedItem.normalize 4 = some n ∧ n.grammar = signedItem ∧
      Rules.resolve n.grammar = .ok r ∧ r.Represents n.grammar ∧ n.grammar.Resolvable ∧
      Rules.number n.grammar = .ok r ∧
      r.alternatives 0 = [[.nonterminal 1], [.nonterminal 2]] := by
  have hdefine : Grammar.define [.declare "item", .declare "sign", .declare "name",
      .rule "item" [.nonterminal "sign"], .rule "item" [.nonterminal "name"],
      .rule "sign" [.terminal .star], .rule "name" [.terminal .identifier]] = .ok signedItem := by
    decide +kernel
  have hreachable : signedItem.Reachable := Grammar.reachable_of_define hdefine
  have hnormalize : (signedItem.normalize 4).map (·.grammar) = some signedItem := by decide +kernel
  obtain ⟨n, hn, hgrammar⟩ := Option.map_eq_some_iff.mp hnormalize
  have hresolve : Rules.resolve n.grammar =
      .ok ⟨#[⟨"item", [[.nonterminal 1], [.nonterminal 2]]⟩, ⟨"sign", [[.terminal .star]]⟩,
        ⟨"name", [[.terminal .identifier]]⟩], 0⟩ := by
    rw [hgrammar]
    decide +kernel
  obtain ⟨hiff, -, hrepresents, hnumber⟩ := Grammar.represents_normalize hreachable hn
  exact ⟨hreachable, n, _, hn, hgrammar, hresolve, hrepresents _ hresolve, hiff.mp ⟨_, hresolve⟩,
    hnumber.trans hresolve, rfl⟩

end LL1
