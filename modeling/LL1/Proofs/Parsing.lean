/-
# Steps of a parser

A parser with a token at hand uses it, refuses it, or changes its stack in view of it; `Acts`
lists what can happen.  The steps that follow each other while nothing is fatal come to an end:
each of them takes up a part of the source, or it uses or passes over a token, or it leaves both
alone and only changes the stack, which a predictor that decides allows finitely often.
-/
import LL1.Parsing.Parser
import LL1.Proofs.Lexing
import LL1.Proofs.Prediction

namespace LL1

variable {P : RuleSet Nat} {F : Nat → Terminal → Prop} {n i : Nat} {a below γ : Phrase Nat}

/-! ### Stacks -/

/-- The phrase has the end of the source as its last symbol and nowhere else, and its
nonterminals have numbers below `n`. -/
inductive Closed (n : Nat) : Phrase Nat → Prop
  | last : Closed n [.terminal .endOfInput]
  | terminal {k : Terminal} {p : Phrase Nat} :
      k ≠ .endOfInput → Closed n p → Closed n (.terminal k :: p)
  | nonterminal {i : Nat} {p : Phrase Nat} : i < n → Closed n p → Closed n (.nonterminal i :: p)

lemma Closed.append (hend : .terminal .endOfInput ∉ a) (ha : ∀ j ∈ a.nonterminals, j < n)
    (h : Closed n below) : Closed n (a ++ below) := by
  induction a with
  | nil => exact h
  | cons s a ih =>
    rw [List.mem_cons, not_or] at hend
    have hrest : Closed n (a ++ below) := by
      refine ih hend.2 fun j hj => ha j ?_
      rw [Phrase.mem_nonterminals] at hj ⊢
      exact List.mem_cons_of_mem s hj
    cases s with
    | terminal k => exact .terminal (fun hk => hend.1 (by rw [hk])) hrest
    | nonterminal i => exact .nonterminal (ha i (by simp)) hrest

lemma Closed.eq_nil_of_end (h : Closed n (.terminal .endOfInput :: below)) : below = [] := by
  cases h with
  | last => rfl
  | terminal hk _ => exact absurd rfl hk

lemma Closed.tail {k : Terminal} (h : Closed n (.terminal k :: below)) (hk : k ≠ .endOfInput) :
    Closed n below := by
  cases h with
  | last => exact absurd rfl hk
  | terminal _ h => exact h

lemma Closed.inv_nonterminal (h : Closed n (.nonterminal i :: below)) : i < n ∧ Closed n below := by
  cases h with
  | nonterminal hi h => exact ⟨hi, h⟩

namespace Parser

variable {p p' q : Parser} {t : Token} {e : Option SyntaxError} {s : Step}

/-- The state of a parser for the rules `P` of the nonterminals below `n`. -/
structure Valid (P : RuleSet Nat) (F : Nat → Terminal → Prop) (n : Nat) (p : Parser) : Prop where
  decides : p.predictor.Decides P F n
  avoids : P.Avoids .endOfInput
  ordinary : Lexicon.Ordinary p.lexer.lexicon
  stack : p.stack = [] ∨ Closed n p.stack
  lookahead : ∀ t, p.lookahead = some t → t.kind ≠ .epsilon

/-! ### What a parser does with a token -/

/-- What a parser with the token `t` at hand does: the parser then, and the error reported. -/
inductive Acts (p : Parser) (t : Token) : Parser → Option SyntaxError → Prop
  | matched {below : Phrase Nat} : p.stack = .terminal t.kind :: below →
      Acts p t { p.consume with stack := below } none
  | stuck {k : Terminal} {below : Phrase Nat} : p.stack = .terminal k :: below →
      k ≠ .endOfInput → t.kind = .endOfInput →
      Acts p t { p with unrecoverable := true } (some (.mismatch k t))
  | refused {k : Terminal} {below : Phrase Nat} : p.stack = .terminal k :: below →
      k ≠ t.kind → t.kind ≠ .endOfInput → Acts p t p.consume (some (.mismatch k t))
  | expanded {i a : Nat} {below : Phrase Nat} : p.stack = .nonterminal i :: below →
      p.predictor.action i t.kind = .expand a →
      Acts p t { p with stack := p.predictor.alternative i a ++ below } none
  | popped {i : Nat} {below : Phrase Nat} : p.stack = .nonterminal i :: below →
      p.predictor.action i t.kind = .recover .pop →
      Acts p t { p with stack := below } (some (.unexpected t (p.predictor.name i)))
  | scanned {i : Nat} {below : Phrase Nat} : p.stack = .nonterminal i :: below →
      p.predictor.action i t.kind = .recover .scan →
      Acts p t p.consume (some (.unexpected t (p.predictor.name i)))

lemma acts_act {top : Symbol Nat} (h : p.stack = top :: below) :
    Acts p t (p.act top below t).2.1 (p.act top below t).2.2 := by
  cases top with
  | terminal k =>
    rw [act]
    split
    · next hk =>
      subst hk
      exact .matched h
    · next hk =>
      dsimp only
      split
      · next hend => exact .stuck h (fun hk' => hk (hk'.trans hend.symm)) hend
      · next hend => exact .refused h hk hend
  | nonterminal i =>
    rw [act]
    split
    · next a ha => exact .expanded h ha
    · next how hhow =>
      cases how with
      | pop => exact .popped h hhow
      | scan => exact .scanned h hhow

/-- What a parser does is what it can do. -/
lemma Acts.act_eq (h : p.Acts t q e) :
    ∃ top below, p.stack = top :: below ∧ (p.act top below t).2 = (q, e) := by
  cases h with
  | @matched below hstack => exact ⟨_, below, hstack, by simp [act]⟩
  | @stuck k below hstack hk hend => exact ⟨_, below, hstack, by simp [act, hk, hend]⟩
  | @refused k below hstack hk hend => exact ⟨_, below, hstack, by simp [act, hk, hend]⟩
  | @expanded i a below hstack hact => exact ⟨_, below, hstack, by simp [act, hact]⟩
  | @popped i below hstack hact => exact ⟨_, below, hstack, by simp [act, hact]⟩
  | @scanned i below hstack hact => exact ⟨_, below, hstack, by simp [act, hact]⟩

/-- An error that is reported is about the token at hand. -/
lemma Acts.token_eq {e : SyntaxError} (h : Acts p t q (some e)) : e.token = t := by
  cases h <;> rfl

/-- Without an error nothing becomes fatal. -/
lemma Acts.unrecoverable_eq (h : Acts p t q none) : q.unrecoverable = p.unrecoverable := by
  cases h <;> rfl

/-! ### Steps -/

/-- The token `t` is at hand, and `p'` is the parser then. -/
def Peeks (p : Parser) (t : Token) (p' : Parser) : Prop := ∃ moves, p.peek = (.ok t, moves, p')

/-- A parser gets a token from what is left, unless it has one. -/
lemma peeks_iff : p.Peeks t p' ↔ p.lookahead = some t ∧ p' = p ∨
    ∃ l, p.lookahead = none ∧ p.lexer.next = (.ok t, l) ∧
      p' = { p with lexer := l, lookahead := some t } := by
  unfold Peeks peek
  cases hl : p.lookahead with
  | some t' => simp [eq_comm (a := p')]
  | none =>
    rcases hnext : p.lexer.next with ⟨e | t', l⟩
    · simp
    · simp only [Prod.mk.injEq, Except.ok.injEq, exists_and_left, exists_eq_left', reduceCtorEq,
        false_and, false_or, true_and]
      constructor
      · rintro ⟨rfl, rfl⟩
        exact ⟨l, ⟨rfl, rfl⟩, rfl⟩
      · rintro ⟨_, ⟨rfl, rfl⟩, rfl⟩
        exact ⟨rfl, rfl⟩

lemma Peeks.lookahead_eq (h : p.Peeks t p') : p'.lookahead = some t := by
  rcases peeks_iff.mp h with ⟨hl, rfl⟩ | ⟨l, -, -, rfl⟩
  · exact hl
  · rfl

lemma Peeks.unchanged (h : p.Peeks t p') : p'.predictor = p.predictor ∧ p'.stack = p.stack ∧
    p'.unrecoverable = p.unrecoverable := by
  rcases peeks_iff.mp h with ⟨-, rfl⟩ | ⟨l, -, -, rfl⟩
  · exact ⟨rfl, rfl, rfl⟩
  · exact ⟨rfl, rfl, rfl⟩

/-- A step fails to get a token, or it acts on the token at hand. -/
lemma step_cases (h : p.step = some s) :
    (∃ e l, p.lookahead = none ∧ p.lexer.next = (.error e, l) ∧ s.error = some (.lexical e) ∧
        s.parser = { p with lexer := l, unrecoverable := true }) ∨
      ∃ t p' e, p.Peeks t p' ∧ p'.Acts t s.parser e ∧ s.error = e.map .syntactic := by
  rw [step] at h
  split at h
  · exact absurd h (by simp)
  · next top below hstack =>
    split at h
    · next e moves p' hpeek =>
      obtain rfl := Option.some.inj h
      rw [peek] at hpeek
      split at hpeek
      · exact absurd (Prod.mk.inj hpeek).1 (by simp)
      · next hl =>
        split at hpeek
        · exact absurd (Prod.mk.inj hpeek).1 (by simp)
        · next e' l hnext =>
          obtain ⟨he, hpeek'⟩ := Prod.mk.inj hpeek
          obtain ⟨-, rfl⟩ := Prod.mk.inj hpeek'
          obtain rfl := Except.error.inj he
          exact .inl ⟨_, l, hl, hnext, rfl, rfl⟩
    · next t moves p' hpeek =>
      obtain rfl := Option.some.inj h
      have hp : p.Peeks t p' := ⟨moves, hpeek⟩
      exact .inr ⟨t, p', _, hp, acts_act (hp.unchanged.2.1.trans hstack), rfl⟩

/-- A parser that gets a token does what it does with it. -/
lemma step_of_acts (hpeek : p.Peeks t p') (hacts : p'.Acts t q e) :
    ∃ s, p.step = some s ∧ s.parser = q ∧ s.error = e.map .syntactic := by
  obtain ⟨top, below, hstack, hact⟩ := hacts.act_eq
  rw [hpeek.unchanged.2.1] at hstack
  obtain ⟨moves, hmoves⟩ := hpeek
  have hstep : p.step = some ⟨q, moves ++ [(p'.act top below t).1], e.map .syntactic⟩ := by
    rw [step, hstack]
    simp only [hmoves, hact]
  exact ⟨_, hstep, rfl, rfl⟩

lemma step_eq_none_iff : p.step = none ↔ p.stack = [] := by
  rw [step]
  split
  · next h => simp [h]
  · next top below h =>
    split <;> simp [h]

/-- The parser `q` comes after `p` in a step that is made only if nothing fatal has happened. -/
def Goes (q p : Parser) : Prop := p.unrecoverable = false ∧ ∃ s, p.step = some s ∧ s.parser = q

lemma acc_of_unrecoverable (h : p.unrecoverable = true) : Acc Goes p :=
  Acc.intro _ fun q hq => absurd (hq.1.symm.trans h) (by simp)

lemma acc_of_stack_eq_nil (h : p.stack = []) : Acc Goes p :=
  Acc.intro _ fun q hq => by
    obtain ⟨-, s, hs, -⟩ := hq
    rw [step_eq_none_iff.mpr h] at hs
    exact absurd hs (by simp)

/-- A step is fatal, or an act on the token at hand. -/
lemma Goes.cases (h : Goes q p) :
    q.unrecoverable = true ∨ ∃ t p' e, p.Peeks t p' ∧ p'.Acts t q e := by
  obtain ⟨-, s, hs, rfl⟩ := h
  rcases step_cases hs with ⟨e, l, -, -, -, hq⟩ | ⟨t, p', e, hpeek, hacts, -⟩
  · exact .inl (by rw [hq])
  · exact .inr ⟨t, p', e, hpeek, hacts⟩

/-! ### Steps keep a parser valid -/

lemma Valid.peeks (hp : p.Valid P F n) (h : p.Peeks t p') : p'.Valid P F n := by
  rcases peeks_iff.mp h with ⟨-, rfl⟩ | ⟨l, -, hnext, rfl⟩
  · exact hp
  · obtain ⟨hlexicon, hkind⟩ := Lexer.next_ok hnext
    refine ⟨hp.decides, hp.avoids, ?_, hp.stack, ?_⟩
    · exact hlexicon ▸ hp.ordinary
    · intro t' ht'
      obtain rfl := Option.some.inj ht'
      rcases hkind with ⟨hend, -⟩ | ⟨hmem, -⟩
      · exact hend ▸ by decide
      · obtain ⟨c, hc, hkind⟩ := List.mem_map.mp hmem
        exact hkind ▸ (hp.ordinary c hc).1

lemma Valid.closed {top : Symbol Nat} (hp : p.Valid P F n) (h : p.stack = top :: below) :
    Closed n (top :: below) :=
  h ▸ hp.stack.resolve_left (by simp [h])

lemma Valid.acts (hp : p.Valid P F n) (ht : p.lookahead = some t) (h : p.Acts t q e) :
    q.Valid P F n := by
  have hnone (t : Token) : (none : Option Token) = some t → t.kind ≠ .epsilon := by simp
  cases h with
  | @matched below hstack =>
    refine ⟨hp.decides, hp.avoids, hp.ordinary, ?_, hnone⟩
    have hclosed := hp.closed hstack
    by_cases hend : t.kind = .endOfInput
    · rw [hend] at hclosed
      exact .inl hclosed.eq_nil_of_end
    · exact .inr (hclosed.tail hend)
  | stuck _ _ _ => exact ⟨hp.decides, hp.avoids, hp.ordinary, hp.stack, hp.lookahead⟩
  | refused _ _ _ => exact ⟨hp.decides, hp.avoids, hp.ordinary, hp.stack, hnone⟩
  | @expanded i a below hstack hact =>
    have hrule := (hp.decides.rule_of_expand i t.kind a (hp.lookahead t ht) hact).1
    refine ⟨hp.decides, hp.avoids, hp.ordinary, .inr ?_, hp.lookahead⟩
    exact (hp.closed hstack).inv_nonterminal.2.append (hp.avoids i _ hrule)
      (hp.decides.references_lt i _ hrule)
  | popped hstack _ =>
    exact ⟨hp.decides, hp.avoids, hp.ordinary, .inr (hp.closed hstack).inv_nonterminal.2,
      hp.lookahead⟩
  | scanned _ _ => exact ⟨hp.decides, hp.avoids, hp.ordinary, hp.stack, hnone⟩

/-- A parser at the beginning of a source is valid. -/
lemma valid_ofSource {pr : Predictor} {lexicon : Lexicon} (hpr : pr.Decides P F n)
    (hP : P.Avoids .endOfInput) (hl : lexicon.Ordinary) (source : String) :
    (ofSource pr lexicon source).Valid P F n :=
  have hnone (t : Token) : (none : Option Token) = some t → t.kind ≠ .epsilon := by simp
  ⟨hpr, hP, hl, .inr (.nonterminal hpr.start_lt .last), hnone⟩

/-! ### Steps come to an end -/

/-- A measure of what is left of the source, with the lookahead unless it is the end. -/
def work (p : Parser) : Nat :=
  2 * p.lexer.rest.length + if p.lookahead.any (·.kind ≠ .endOfInput) then 1 else 0

lemma Peeks.work_le (h : p.Peeks t p') : p'.work ≤ p.work := by
  rcases peeks_iff.mp h with ⟨-, rfl⟩ | ⟨l, hl, hnext, rfl⟩
  · exact Nat.le_refl _
  · rcases (Lexer.next_ok hnext).2 with ⟨hend, hrest⟩ | ⟨-, hlt⟩
    · simp [work, hrest, hend]
    · simp only [work, hl]
      split <;> simp <;> omega

lemma work_consume_lt (ht : p.lookahead = some t) (hend : t.kind ≠ .endOfInput) :
    p.consume.work < p.work := by
  simp [work, consume, ht, hend]

/-- To show that steps end, it suffices to look at what is done with the token at hand. -/
lemma acc_of_acts (h : ∀ t p' q e, p.Peeks t p' → p'.Acts t q e → Acc Goes q) : Acc Goes p :=
  Acc.intro _ fun q hq => by
    rcases hq.cases with hq | ⟨t, p', e, hpeek, hacts⟩
    · exact acc_of_unrecoverable hq
    · exact h t p' q e hpeek hacts

/-- **The steps of a parser come to an end** if nothing fatal happens before. -/
theorem Valid.acc (hp : p.Valid P F n) : Acc Goes p := by
  induction hm : p.work using Nat.strongRecOn generalizing p with
  | ind m ih =>
  refine acc_of_acts fun t p' q e hpeek hacts => ?_
  have hp' := hp.peeks hpeek
  have ht := hpeek.lookahead_eq
  have hwork : p'.work ≤ m := hm ▸ hpeek.work_le
  clear hpeek hp hm p
  have hacc := hp'.decides.acc_turns (hp'.lookahead t ht) p'.stack
  generalize hpr : p'.predictor = pr at hacc
  generalize hγ : p'.stack = γ at hacc
  -- while the token stays at hand, the stack cannot change forever
  induction hacc generalizing p' q e with
  | intro γ _ ihγ =>
    have hq := hp'.acts ht hacts
    have hturn (hqt : q.lookahead = some t) (hqwork : q.work = p'.work)
        (hqpr : q.predictor = p'.predictor) (hstack : pr.turn t.kind γ = some q.stack) :
        Acc Goes q := by
      refine acc_of_acts fun t' q' r e' hpeek hacts' => ?_
      rcases peeks_iff.mp hpeek with ⟨hq', rfl⟩ | ⟨l, hq', -⟩
      · obtain rfl : t = t' := Option.some.inj (hqt.symm.trans hq')
        exact ihγ q'.stack hstack q' r e' hacts' hq hqt (hqwork ▸ hwork) (hqpr.trans hpr) rfl
      · exact absurd (hqt.symm.trans hq') (by simp)
    subst hpr hγ
    cases hacts with
    | @matched below hstack =>
      by_cases hend : t.kind = .endOfInput
      · have hclosed := hp'.closed hstack
        rw [hend] at hclosed
        exact acc_of_stack_eq_nil hclosed.eq_nil_of_end
      · exact ih _ (Nat.lt_of_lt_of_le (work_consume_lt ht hend) hwork) hq rfl
    | stuck _ _ _ => exact acc_of_unrecoverable rfl
    | refused _ _ hend => exact ih _ (Nat.lt_of_lt_of_le (work_consume_lt ht hend) hwork) hq rfl
    | expanded hstack hact =>
      exact hturn ht rfl rfl (by rw [hstack, Predictor.turn, hact])
    | popped hstack hact =>
      exact hturn ht rfl rfl (by rw [hstack, Predictor.turn, hact])
    | @scanned i below hstack hact =>
      -- the end of the source is never passed over
      have hi := (hp'.closed hstack).inv_nonterminal.1
      have hend : t.kind ≠ .endOfInput :=
        fun hend => hp'.decides.pop_at_end i hi (hend ▸ hact)
      exact ih _ (Nat.lt_of_lt_of_le (work_consume_lt ht hend) hwork) hq rfl

end Parser

end LL1
