/-
# What a parser recognises

A parser that has not met an error yet expects a phrase that the rest of the source must be
derived from.  The first call of `proceed` finds out about the longest beginning of the rest that
can be continued to something derivable: if the tokens go on after it, the next one is the error
that is reported.  `Verdict` says so in terms of the tokens, and it is proved along the steps of
the parser: matching takes away the first token together with the terminal that expects it, and
an expansion loses no string that begins with the token at hand.
-/
import LL1.Proofs.Recovery
import Mathlib.Order.Bounds.Defs

namespace LL1

/-- The categories of tokens. -/
abbrev kindsOf (ts : List Token) : List Terminal := ts.map (·.kind)

variable {P : RuleSet Nat} {F : Nat → Terminal → Prop} {n : Nat} {γ γ' : Phrase Nat}
  {t : Token} {ts : List Token} {x : Option LexError} {o : Except ParseError Unit}

/-- What must be found when the phrase `γ` is expected of the tokens `ts`, behind which there is
the lexical error `x` or nothing. -/
inductive Verdict (P : RuleSet Nat) (γ : Phrase Nat) (ts : List Token) :
    Option LexError → Except ParseError Unit → Prop
  | accepted : P.Begins γ (kindsOf ts) → Verdict P γ ts none (.ok ())
  | lexical {e : LexError} :
      P.Begins γ (kindsOf ts) → Verdict P γ ts (some e) (.error (.lexical e))
  | syntactic {x : Option LexError} {before after : List Token} {t : Token} {e : SyntaxError} :
      ts = before ++ t :: after → P.Begins γ (kindsOf before) →
      ¬ P.Begins γ (kindsOf (before ++ [t])) → e.token = t →
      Verdict P γ ts x (.error (.syntactic e))

namespace Verdict

/-- A token that is expected is taken away with the terminal that expects it. -/
lemma matched (h : Verdict P γ ts x o) : Verdict P (.terminal t.kind :: γ) (t :: ts) x o := by
  cases h with
  | accepted h => exact .accepted (.terminal h)
  | lexical h => exact .lexical (.terminal h)
  | @syntactic _ before after u e hts hbefore hu he =>
    have hcons : t :: ts = (t :: before) ++ u :: after := by rw [hts]; rfl
    exact .syntactic hcons (.terminal hbefore)
      (fun h => hu (RuleSet.begins_terminal_iff.mp h).2) he

/-- Phrases that begin the same strings with the next token have the same verdicts. -/
lemma congr (hγ : ∀ w, P.Begins γ (t.kind :: w) ↔ P.Begins γ' (t.kind :: w))
    (h : Verdict P γ' (t :: ts) x o) : Verdict P γ (t :: ts) x o := by
  cases h with
  | accepted h => exact .accepted ((hγ _).mpr h)
  | lexical h => exact .lexical ((hγ _).mpr h)
  | @syntactic _ before after u e hts hbefore hu he =>
    cases before with
    | nil =>
      obtain ⟨rfl, -⟩ := List.cons.inj hts
      exact .syntactic hts .nil (fun h => hu ((hγ []).mp h)) he
    | cons t' before =>
      obtain ⟨rfl, -⟩ := List.cons.inj hts
      exact .syntactic hts ((hγ _).mpr hbefore) (fun h => hu ((hγ _).mp h)) he

/-! What a verdict says about the beginnings of the tokens. -/

lemma begins_take (h : P.Begins γ (kindsOf ts)) (i : Nat) : P.Begins γ (kindsOf (ts.take i)) := by
  have happend : kindsOf ts = kindsOf (ts.take i) ++ kindsOf (ts.drop i) := by
    rw [← List.map_append, List.take_append_drop]
  rw [happend] at h
  exact h.of_append

/-- A syntactic error is at the last token of the shortest beginning that does not fit. -/
lemma isLeast {e : SyntaxError} (h : Verdict P γ ts x (.error (.syntactic e))) :
    ∃ i, IsLeast {i | i ≤ ts.length ∧ ¬ P.Begins γ (kindsOf (ts.take i))} (i + 1) ∧
      ts[i]? = some e.token := by
  cases h with
  | @syntactic _ before after u _ hts hbefore hu he =>
    subst hts he
    refine ⟨before.length, ⟨⟨by simp, ?_⟩, ?_⟩, by simp⟩
    · have htake : (before ++ e.token :: after).take (before.length + 1) = before ++ [e.token] := by
        simp [List.take_append]
      rwa [htake]
    · rintro i ⟨-, hi⟩
      by_contra hlt
      refine hi ?_
      rw [List.take_append_of_le_length (by omega)]
      exact begins_take hbefore i

lemma not_begins {e : SyntaxError} (h : Verdict P γ ts x (.error (.syntactic e))) :
    ¬ P.Begins γ (kindsOf ts) := by
  obtain ⟨i, ⟨⟨-, hi⟩, -⟩, -⟩ := h.isLeast
  exact fun hts => hi (begins_take hts (i + 1))

lemma ok_iff (h : Verdict P γ ts x o) : o = .ok () ↔ x = none ∧ P.Begins γ (kindsOf ts) := by
  cases h with
  | accepted hts => simp [hts]
  | lexical hts => simp
  | syntactic hts hbefore hu he =>
    have hnot := not_begins (.syntactic (x := x) hts hbefore hu he)
    simp [hnot]

lemma lexical_iff {e : LexError} (h : Verdict P γ ts x o) :
    o = .error (.lexical e) ↔ x = some e ∧ P.Begins γ (kindsOf ts) := by
  cases h with
  | accepted hts => simp
  | lexical hts => simp [hts]
  | syntactic hts hbefore hu he =>
    have hnot := not_begins (.syntactic (x := x) hts hbefore hu he)
    simp [hnot]

lemma syntactic_iff (h : Verdict P γ ts x o) : (∃ e, o = .error (.syntactic e)) ↔
    ∃ i ≤ ts.length, ¬ P.Begins γ (kindsOf (ts.take i)) := by
  constructor
  · rintro ⟨e, rfl⟩
    obtain ⟨i, hleast, -⟩ := h.isLeast
    exact ⟨i + 1, hleast.1⟩
  · rintro ⟨i, -, hi⟩
    cases h with
    | accepted h => exact absurd (begins_take h i) hi
    | lexical h => exact absurd (begins_take h i) hi
    | syntactic _ _ _ _ => exact ⟨_, rfl⟩

/-- A token that begins nothing is the error. -/
lemma refused {e : SyntaxError} (hγ : ¬ P.Begins γ [t.kind]) (he : e.token = t) :
    Verdict P γ (t :: ts) x (.error (.syntactic e)) :=
  have hnil : t :: ts = [] ++ t :: ts := rfl
  .syntactic hnil .nil hγ he

end Verdict

namespace Parser

variable {p p' : Parser} {fuel : Nat} {moves : List Move}

/-- The tokens that a parser will see, up to the end of the source or the first error. -/
def upcoming (p : Parser) : List Token × Option LexError :=
  match p.lookahead with
  | none => p.lexer.scan
  | some t =>
    if t.kind = .endOfInput then ([t], none) else (t :: p.lexer.scan.1, p.lexer.scan.2)

lemma Peeks.upcoming_eq (h : p.Peeks t p') : p.upcoming = p'.upcoming := by
  rcases peeks_iff.mp h with ⟨-, rfl⟩ | ⟨l, hl, hnext, rfl⟩
  · rfl
  · unfold upcoming
    rw [hl]
    dsimp only
    split
    · next hend => exact Lexer.scan_of_end hnext hend
    · next hend => exact Lexer.scan_of_token hnext hend

/-- The token at hand comes first, and the others come from the lexer unless it is the last. -/
lemma upcoming_of_lookahead (h : p.lookahead = some t) : ∃ ts, p.upcoming.1 = t :: ts ∧
    (t.kind ≠ .endOfInput → p.consume.upcoming = (ts, p.upcoming.2)) ∧
    (t.kind = .endOfInput → p.upcoming = ([t], none)) := by
  have hconsume : p.consume.upcoming = p.lexer.scan := rfl
  rw [hconsume, upcoming, h]
  by_cases hend : t.kind = .endOfInput
  · exact ⟨[], by simp [hend], fun hne => absurd hend hne, fun _ => by simp [hend]⟩
  · exact ⟨p.lexer.scan.1, by simp [hend], fun _ => by simp [hend], fun h => absurd h hend⟩

section

variable {q : Parser} (hp : p.Valid P F n) (ht : p.lookahead = some t)
include hp ht

/-- If nothing is expected any more, the end of the source has just been found. -/
lemma Acts.verdict_of_nil (h : p.Acts t q none) (hq : q.stack = []) :
    Verdict P p.stack p.upcoming.1 p.upcoming.2 (.ok ()) := by
  obtain ⟨-, -, -, hlast⟩ := upcoming_of_lookahead ht
  cases h with
  | @matched below hstack =>
    have hclosed := hp.closed hstack
    obtain rfl : below = [] := hq
    have hend : t.kind = .endOfInput := by
      by_contra hne
      exact absurd (hclosed.tail hne) (by rintro ⟨⟩)
    rw [hlast hend, hstack]
    exact .accepted (.terminal .nil)
  | @expanded i a below hstack hact =>
    have hclosed := (hp.closed hstack).inv_nonterminal.2
    rw [(List.append_eq_nil_iff.mp hq).2] at hclosed
    exact absurd hclosed (by rintro ⟨⟩)

variable (hF : P.Followed F p.stack)
include hF

/-- An error is reported only at a token that begins nothing of what is expected. -/
lemma Acts.not_begins {e : SyntaxError} (h : p.Acts t q (some e)) :
    ¬ P.Begins p.stack [t.kind] := by
  have hε := hp.lookahead t ht
  have hne {k : Terminal} {below : Phrase Nat} (hk : k ≠ t.kind) :
      ¬ P.Begins (.terminal k :: below) [t.kind] :=
    fun hb => hk (RuleSet.begins_terminal_iff.mp hb).1
  cases h with
  | stuck hstack hk hend => exact hstack ▸ hne fun hk' => hk (hk'.trans hend)
  | refused hstack hk _ => exact hstack ▸ hne hk
  | popped hstack hact =>
    rw [hstack] at hF ⊢
    exact hp.decides.not_begins_of_recover hε hF hact
  | scanned hstack hact =>
    rw [hstack] at hF ⊢
    exact hp.decides.not_begins_of_recover hε hF hact

/-- Without an error, the stack is still followed as the rules allow. -/
lemma Acts.followed (h : p.Acts t q none) : P.Followed F q.stack := by
  cases h with
  | matched hstack =>
    rw [hstack] at hF
    exact hF.tail
  | @expanded i a below hstack hact =>
    rw [hstack] at hF
    exact hF.replace hp.decides.follows
      (hp.decides.rule_of_expand i t.kind a (hp.lookahead t ht) hact).1

/-- What is found of the tokens afterwards is right before, too. -/
lemma Acts.verdict (h : p.Acts t q none) (hq : q.stack ≠ [])
    (hverdict : Verdict P q.stack q.upcoming.1 q.upcoming.2 o) :
    Verdict P p.stack p.upcoming.1 p.upcoming.2 o := by
  obtain ⟨ts, hts, hconsume, -⟩ := upcoming_of_lookahead ht
  rw [hts]
  cases h with
  | @matched below hstack =>
    -- the end of the source would have been the last symbol of the stack
    have hend : t.kind ≠ .endOfInput := by
      intro hend
      have hclosed := hp.closed hstack
      rw [hend] at hclosed
      exact hq hclosed.eq_nil_of_end
    have hupcoming : upcoming { p.consume with stack := below } = (ts, p.upcoming.2) :=
      hconsume hend
    rw [hupcoming] at hverdict
    rw [hstack]
    exact hverdict.matched
  | @expanded i a below hstack hact =>
    have hupcoming : upcoming { p with stack := p.predictor.alternative i a ++ below } =
        p.upcoming := rfl
    rw [hupcoming, hts] at hverdict
    rw [hstack] at hF ⊢
    exact hverdict.congr fun w => hp.decides.begins_expand_iff (hp.lookahead t ht) hF hact

end

/-- **The verdict of a call.**  A parser that has met no error yet comes to a verdict about all
tokens that are left. -/
theorem Valid.exists_verdict (hp : p.Valid P F n) (hu : p.unrecoverable = false)
    (hstack : p.stack ≠ []) (hF : P.Followed F p.stack) (moves : List Move) :
    ∃ fuel r, p.go fuel moves = some r ∧
      Verdict P p.stack p.upcoming.1 p.upcoming.2 r.outcome := by
  induction hp.acc generalizing moves with
  | intro p _ ih =>
  obtain ⟨s, hs⟩ := Option.ne_none_iff_exists'.mp (step_eq_none_iff.not.mpr hstack)
  rcases step_cases hs with ⟨e, l, hl, hlex, he, -⟩ | ⟨t, p', e, hpeek, hacts, he⟩
  · obtain ⟨r, hr, ho⟩ := go_of_error hs he moves
    have hscan : p.upcoming = ([], some e) := by
      rw [upcoming, hl]
      exact Lexer.scan_of_error hlex
    exact ⟨1, r, hr, by rw [ho, hscan]; exact .lexical .nil⟩
  · have hp' := hp.peeks hpeek
    have ht := hpeek.lookahead_eq
    obtain ⟨-, hst, hu'⟩ := hpeek.unchanged
    rw [hpeek.upcoming_eq, ← hst]
    rw [← hst] at hF
    cases e with
    | some e =>
      obtain ⟨r, hr, ho⟩ := go_of_error hs he moves
      obtain ⟨ts, hts, -⟩ := upcoming_of_lookahead ht
      refine ⟨1, r, hr, ?_⟩
      rw [ho, hts]
      exact .refused (hacts.not_begins hp' ht hF) hacts.token_eq
    | none =>
      by_cases hq : s.parser.stack = []
      · obtain ⟨r, hr, ho⟩ := go_of_stack_eq_nil hq (s.moves.reverse ++ moves)
        exact ⟨2, r, go_of_step hs he hr, ho ▸ hacts.verdict_of_nil hp' ht hq⟩
      · obtain ⟨fuel, r, hr, hverdict⟩ := ih s.parser ⟨hu, s, hs, rfl⟩ (hp'.acts ht hacts)
          (hacts.unrecoverable_eq.trans (hu'.trans hu)) hq (hacts.followed hp' ht hF)
          (s.moves.reverse ++ moves)
        exact ⟨fuel + 1, r, go_of_step hs he hr, hacts.verdict hp' ht hF hq hverdict⟩

end Parser

/-! ### Compiled tables -/

/-- Something that begins with the string can be derived from what is expected of a source. -/
def Table.Viable (table : Table) (w : List Terminal) : Prop :=
  ∃ q, table.rules.ruleSet.Derives table.predictor.goal (w.map .terminal ++ q)

lemma Table.viable_iff {table : Table} {w : List Terminal} :
    table.Viable w ↔ table.rules.ruleSet.Begins table.predictor.goal w :=
  RuleSet.exists_derives_append_iff

section

variable {g : Grammar} {fuel : Nat} {c : Compilation} {table : Table}

/-- The first call on a source comes to a verdict about all of its tokens. -/
lemma Grammar.exists_verdict (hg : g.WellFormed) (hend : g.ruleSet.Avoids .endOfInput)
    (h : g.compile fuel = some c) (hc : c.result = .ok table) (source : String) :
    ∃ n r, (Parser.ofSource table.predictor Sql.lexicon source).proceed n = some r ∧
      Verdict table.rules.ruleSet table.predictor.goal (Lexer.ofSource Sql.lexicon source).scan.1
        (Lexer.ofSource Sql.lexicon source).scan.2 r.outcome := by
  have hdecides := decides_compile hg h hc
  have hvalid := Parser.valid_ofSource hdecides (avoids_compile hg h hc hend)
    Sql.ordinary_lexicon source
  exact hvalid.exists_verdict rfl (List.cons_ne_nil _ _) hdecides.followed_goal []

/-- **The first error is at the first token that cannot be continued.**  Let `ts` be the tokens
of a source up to its end or to the lexical error `x`.  The first call reports a syntactic error
if and only if some beginning of `ts` is not viable, and then the error is at the last token of
the shortest such beginning.  It reports the lexical error if and only if all tokens before it
are viable, and the source is recognised if there is no such error. -/
theorem Grammar.first_error (hg : g.WellFormed) (hend : g.ruleSet.Avoids .endOfInput)
    (h : g.compile fuel = some c) (hc : c.result = .ok table) (source : String) {ts : List Token}
    {x : Option LexError} (hscan : (Lexer.ofSource Sql.lexicon source).scan = (ts, x)) :
    ∃ n r, (Parser.ofSource table.predictor Sql.lexicon source).proceed n = some r ∧
      ((∃ e, r.outcome = .error (.syntactic e)) ↔
        ∃ i ≤ ts.length, ¬ table.Viable (kindsOf (ts.take i))) ∧
      (∀ e, r.outcome = .error (.syntactic e) → ∃ i t,
        IsLeast {i | i ≤ ts.length ∧ ¬ table.Viable (kindsOf (ts.take i))} (i + 1) ∧
          ts[i]? = some t ∧ e.token.location = t.location) ∧
      (∀ e, r.outcome = .error (.lexical e) ↔ x = some e ∧ table.Viable (kindsOf ts)) ∧
      (r.outcome = .ok () ↔ x = none ∧ table.Viable (kindsOf ts)) := by
  obtain ⟨n, r, hr, hverdict⟩ := exists_verdict hg hend h hc source
  rw [hscan] at hverdict
  refine ⟨n, r, hr, ?_⟩
  simp only [Table.viable_iff]
  refine ⟨hverdict.syntactic_iff, fun e he => ?_, fun e => hverdict.lexical_iff, hverdict.ok_iff⟩
  rw [he] at hverdict
  obtain ⟨i, hleast, hi⟩ := hverdict.isLeast
  exact ⟨i, e.token, hleast, hi, rfl⟩

/-- For instance, in a statement of SQL that lacks the name of a table. -/
theorem Sql.first_error_of_missing_name : ∃ g c table ts x,
    Sql.grammar = .ok g ∧ g.compile 60 = some c ∧ c.result = .ok table ∧
      (Lexer.ofSource Sql.lexicon "INSERT INTO VALUES (1);").scan = (ts, x) ∧
      ∃ n r, (Parser.ofSource table.predictor Sql.lexicon "INSERT INTO VALUES (1);").proceed n =
          some r ∧
        ((∃ e, r.outcome = .error (.syntactic e)) ↔
          ∃ i ≤ ts.length, ¬ table.Viable (kindsOf (ts.take i))) := by
  obtain ⟨g, c, table, hgrammar, hg, hend, h, hc⟩ := Sql.exists_table
  obtain ⟨n, r, hr, hiff, -⟩ :=
    Grammar.first_error hg hend h hc "INSERT INTO VALUES (1);" rfl
  exact ⟨g, c, table, _, _, hgrammar, h, hc, rfl, n, r, hr, hiff⟩

/-- **A compiled table recognises the language of the grammar.**  The first call on a source has
a result, and the source is recognised if and only if it has no lexical error and the categories
of its tokens, without the end, are derived from the start symbol of the grammar. -/
theorem Grammar.recognizes_language (hg : g.WellFormed) (hend : g.ruleSet.Avoids .endOfInput)
    (h : g.compile fuel = some c) (hc : c.result = .ok table) (source : String) :
    ∃ n r, (Parser.ofSource table.predictor Sql.lexicon source).proceed n = some r ∧
      (r.outcome = .ok () ↔ ∃ ts eoi,
        (Lexer.ofSource Sql.lexicon source).scan = (ts ++ [eoi], none) ∧
          eoi.kind = .endOfInput ∧ kindsOf ts ∈ g.language g.start) := by
  obtain ⟨n, r, hr, hverdict⟩ := exists_verdict hg hend h hc source
  refine ⟨n, r, hr, hverdict.ok_iff.trans ?_⟩
  generalize (Lexer.ofSource Sql.lexicon source) = l
  -- the end of the source makes a beginning of the goal out of what the start symbol yields
  have hgoal (ts : List Token) (eoi : Token) (heoi : eoi.kind = .endOfInput) :
      table.rules.ruleSet.Begins table.predictor.goal (kindsOf (ts ++ [eoi])) ↔
        kindsOf ts ∈ g.language g.start := by
    have hkinds : kindsOf (ts ++ [eoi]) = kindsOf ts ++ [.endOfInput] := by simp [heoi]
    rw [← yields_compile_iff hg h hc, hkinds]
    exact RuleSet.begins_append_terminal_iff (p := [.nonterminal table.rules.start])
      (avoids_compile hg h hc hend) (by simp)
  constructor
  · rintro ⟨hnone, hbegins⟩
    obtain ⟨ts, eoi, hscan, heoi, -⟩ := Lexer.scan_eq_none hnone
    rw [hscan] at hbegins
    exact ⟨ts, eoi, hscan, heoi, (hgoal ts eoi heoi).mp hbegins⟩
  · rintro ⟨ts, eoi, hscan, heoi, hts⟩
    rw [hscan]
    exact ⟨rfl, (hgoal ts eoi heoi).mpr hts⟩

/-- So the table of SQL recognises its language, for instance on this statement. -/
theorem Sql.recognizes_statement : ∃ g c table,
    Sql.grammar = .ok g ∧ g.compile 60 = some c ∧ c.result = .ok table ∧
      ∃ n r, (Parser.ofSource table.predictor Sql.lexicon "SELECT * FROM t;").proceed n = some r ∧
        (r.outcome = .ok () ↔ ∃ ts eoi,
          (Lexer.ofSource Sql.lexicon "SELECT * FROM t;").scan = (ts ++ [eoi], none) ∧
            eoi.kind = .endOfInput ∧ kindsOf ts ∈ g.language g.start) := by
  obtain ⟨g, c, table, hgrammar, hg, hend, h, hc⟩ := Sql.exists_table
  exact ⟨g, c, table, hgrammar, h, hc, Grammar.recognizes_language hg hend h hc _⟩

end

end LL1
