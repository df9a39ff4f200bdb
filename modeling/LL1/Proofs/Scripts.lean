/-
# Scripts of statements

In some languages a source is a list of statements, each with a sign behind it that occurs nowhere
else: the start symbol is replaced by nothing, or by a statement with its sign and the start symbol
again.  A parser of such a language is between two statements, where it expects as much as at the
beginning of a source, or the sign is still to come.  So when it finds the end of a source that it
accepts, it is between two statements.  If the source goes on behind a line end instead, the parser
is as new, and all that it reports is what it would report of the rest alone, further down.
-/
import LL1.Proofs.Juxtaposition
import LL1.Proofs.LifeCycle
import LL1.Proofs.Range
import LL1.Proofs.Responses

namespace LL1

variable {i : Nat} {k : Terminal} {a b γ below : Phrase Nat} {pr : Predictor}

/-! ### Statements -/

/-- The phrase can be a part of a statement: it has in it neither the symbol for a list of
statements, nor the sign behind a statement, nor the end of the source. -/
def Phrase.InStatement (i : Nat) (k : Terminal) (a : Phrase Nat) : Prop :=
  .nonterminal i ∉ a ∧ .terminal k ∉ a ∧ .terminal .endOfInput ∉ a

instance : Decidable (Phrase.InStatement i k a) := inferInstanceAs (Decidable (_ ∧ _ ∧ _))

lemma Phrase.InStatement.append (ha : InStatement i k a) (hb : InStatement i k b) :
    InStatement i k (a ++ b) := by
  simp only [InStatement, List.mem_append, not_or] at ha hb ⊢
  exact ⟨⟨ha.1, hb.1⟩, ⟨ha.2.1, hb.2.1⟩, ha.2.2, hb.2.2⟩

lemma Phrase.InStatement.tail {s : Symbol Nat} (h : InStatement i k (s :: γ)) :
    InStatement i k γ := by
  simp only [InStatement, List.mem_cons, not_or] at h ⊢
  exact ⟨h.1.2, h.2.1.2, h.2.2.2⟩

/-- The predictor is for lists of statements with the sign `k` behind each of them. -/
structure Predictor.ListsStatements (pr : Predictor) (k : Terminal) : Prop where
  sign_ne_end : k ≠ .endOfInput
  list : ∀ t a, pr.action pr.start t = .expand a → pr.alternative pr.start a = [] ∨
    ∃ γ : Phrase Nat, γ.InStatement pr.start k ∧
      pr.alternative pr.start a = γ ++ [.terminal k, .nonterminal pr.start]
  statement : ∀ i t a, i ≠ pr.start → pr.action i t = .expand a →
    (pr.alternative i a).InStatement pr.start k

/-- The rules are for lists of statements: an alternative of the start symbol is empty or a
statement with its sign and the start symbol again, and others are parts of statements. -/
def Rules.ListsStatements (r : Rules) (k : Terminal) : Prop :=
  ∀ i < r.size, ∀ a ∈ r.alternatives i,
    (i = r.start → a = [] ∨ Phrase.InStatement r.start k a.dropLast.dropLast ∧
      a = a.dropLast.dropLast ++ [.terminal k, .nonterminal r.start]) ∧
    (i ≠ r.start → a.InStatement r.start k)

instance (r : Rules) : Decidable (r.ListsStatements k) :=
  inferInstanceAs (Decidable (∀ _ < _, ∀ _ ∈ _, _ ∧ _))

lemma Rules.ListsStatements.predictor {table : Table} {s : FirstFollow}
    (h : table.rules.ListsStatements k) (hk : k ≠ .endOfInput)
    (htable : Table.ofRules table.rules s = .ok table) : table.predictor.ListsStatements k := by
  have hrule (i : Nat) (t : Terminal) (a : Nat) (hact : table.predictor.action i t = .expand a) :=
    have hmem := Table.ruleSet_of_expand htable hact
    h i (Rules.lt_size_of_rule hmem) _ hmem
  refine ⟨hk, fun t a hact => ?_, fun i t a hi hact => (hrule i t a hact).2 hi⟩
  exact ((hrule _ t a hact).1 rfl).imp id fun ⟨hγ, heq⟩ => ⟨_, hγ, heq⟩

namespace Parser

variable {p p' q : Parser} {t : Token} {e : Option SyntaxError} {s : Step} {r : Run}
  {moves moves' : List Move} {fuel : Nat} {cs : List Char} {c : Char}

/-! ### Steps without errors -/

/-- The parser `q` comes after `p` in a step that meets no error: `p` gets a token and uses it. -/
def GoesOn (p q : Parser) : Prop := ∃ t p', p.Peeks t p' ∧ p'.Acts t q none

/-- The parser `q` is reached from `p` in steps that meet no error. -/
def Advances : Parser → Parser → Prop := Relation.ReflTransGen GoesOn

lemma goesOn_of_step (hs : p.step = some s) (he : s.error = none) : p.GoesOn s.parser := by
  rcases step_cases hs with ⟨e, l, -, -, herror, -⟩ | ⟨t, p', e, hpeek, hacts, herror⟩
  · exact absurd (herror.symm.trans he) (by simp)
  · obtain rfl : e = none := Option.map_eq_none_iff.mp (herror.symm.trans he)
    exact ⟨t, p', hpeek, hacts⟩

/-- A parser that accepts does so in steps without errors. -/
lemma advances_of_go (h : p.go fuel moves = some r) (hok : r.outcome = .ok ()) :
    p.Advances r.parser := by
  induction fuel generalizing p moves with
  | zero => exact absurd h (by simp [go])
  | succ fuel ih =>
    rw [go] at h
    split at h
    · obtain rfl := Option.some.inj h
      exact .refl
    · next s hs =>
      dsimp only at h
      split at h
      · obtain rfl := Option.some.inj h
        exact absurd hok (by simp)
      · next he => exact .head (goesOn_of_step hs he) (ih h)

/-- What a call finds out does not depend on what was done before. -/
lemma go_moves (h : p.go fuel moves = some r) (moves' : List Move) :
    ∃ r', p.go fuel moves' = some r' ∧ r'.parser = r.parser ∧ r'.outcome = r.outcome := by
  induction fuel generalizing p moves moves' with
  | zero => exact absurd h (by simp [go])
  | succ fuel ih =>
    rw [go] at h ⊢
    split at h
    · obtain rfl := Option.some.inj h
      exact ⟨_, rfl, rfl, rfl⟩
    · dsimp only at h ⊢
      split at h
      · obtain rfl := Option.some.inj h
        exact ⟨_, rfl, rfl, rfl⟩
      · exact ih h _

/-- A call goes on from where steps without errors lead. -/
lemma Advances.exists_go (h : p.Advances q) (moves : List Move) :
    ∃ n moves', ∀ fuel, p.go (n + fuel) moves = q.go fuel moves' := by
  induction h using Relation.ReflTransGen.head_induction_on generalizing moves with
  | refl => exact ⟨0, moves, fun fuel => by rw [Nat.zero_add]⟩
  | @head p p₁ hstep _ ih =>
    obtain ⟨t, p', hpeek, hacts⟩ := hstep
    obtain ⟨s, hs, rfl, he⟩ := step_of_acts hpeek hacts
    obtain ⟨n, moves', hgo⟩ := ih (s.moves.reverse ++ moves)
    refine ⟨n + 1, moves', fun fuel => ?_⟩
    rw [Nat.add_right_comm, ← hgo fuel]
    simp only [go, hs, he, Option.map_none]

/-! ### The end of a script -/

/-- What is expected is a part of a statement, its sign and then as much as of a whole source. -/
def WithinStatement (pr : Predictor) (k : Terminal) (p : Parser) : Prop :=
  ∃ a : Phrase Nat, a.InStatement pr.start k ∧ p.stack = a ++ .terminal k :: pr.goal

/-- The parser is between two statements or within one, and it has not heard of the end of the
source. -/
def WithinScript (pr : Predictor) (k : Terminal) (p : Parser) : Prop :=
  (p.stack = pr.goal ∨ p.WithinStatement pr k) ∧
    ∀ t, p.lookahead = some t → t.kind ≠ .endOfInput

section

variable (hpr : pr.ListsStatements k) (hp : p.predictor = pr)
include hpr hp

/-- Within a statement a token is used up, and it is not the end of the source, or the statement is
spelled out further. -/
lemma WithinStatement.acts (h : p.WithinStatement pr k) (hacts : p.Acts t q none) :
    t.kind ≠ .endOfInput ∧ q.lookahead = none ∧ (q.stack = pr.goal ∨ q.WithinStatement pr k) ∨
      q.lookahead = p.lookahead ∧ q.WithinStatement pr k := by
  obtain ⟨a, ha, hstack⟩ := h
  cases hacts with
  | @matched below hmatched =>
    left
    rw [hstack] at hmatched
    cases a with
    | nil =>
      obtain ⟨hk, rfl⟩ := List.cons.inj hmatched
      obtain rfl : k = t.kind := by simpa using hk
      exact ⟨hpr.sign_ne_end, rfl, .inl rfl⟩
    | cons top a =>
      obtain ⟨rfl, rfl⟩ := List.cons.inj hmatched
      refine ⟨fun hend => ha.2.2 ?_, rfl, .inr ⟨a, ha.tail, rfl⟩⟩
      rw [hend]
      exact List.mem_cons_self
  | @expanded i alt below hexpanded hact =>
    right
    rw [hstack] at hexpanded
    cases a with
    | nil => exact absurd (List.cons.inj hexpanded).1 (by simp)
    | cons top a =>
      obtain ⟨rfl, rfl⟩ := List.cons.inj hexpanded
      have hi : i ≠ pr.start := by
        rintro rfl
        exact ha.1 List.mem_cons_self
      rw [hp] at hact
      refine ⟨rfl, pr.alternative i alt ++ a, (hpr.statement i _ alt hi hact).append ha.tail, ?_⟩
      rw [hp, List.append_assoc]
      rfl

/-- Between two statements nothing is used up: the list of statements is over, or there comes
another statement. -/
lemma acts_of_goal (h : p.stack = pr.goal) (hacts : p.Acts t q none) :
    q.lookahead = p.lookahead ∧ (q.stack = [.terminal .endOfInput] ∨ q.WithinStatement pr k) := by
  rw [Predictor.goal] at h
  cases hacts with
  | matched hmatched => exact absurd (h.symm.trans hmatched) (by simp)
  | @expanded i alt below hexpanded hact =>
    obtain ⟨htop, rfl⟩ := List.cons.inj (h.symm.trans hexpanded)
    obtain rfl : pr.start = i := by simpa using htop
    rw [hp] at hact
    refine ⟨rfl, ?_⟩
    rcases hpr.list _ alt hact with hnil | ⟨γ, hγ, halt⟩
    · exact .inl (by rw [hp, hnil]; rfl)
    · exact .inr ⟨γ, hγ, by rw [hp, halt, List.append_assoc]; rfl⟩

end

lemma Peeks.eq_of_lookahead {t' : Token} (h : p.Peeks t' p') (ht : p.lookahead = some t) :
    t' = t ∧ p' = p := by
  rcases peeks_iff.mp h with ⟨ht', rfl⟩ | ⟨l, hnone, -⟩
  · exact ⟨Option.some.inj (ht'.symm.trans ht), rfl⟩
  · exact absurd (hnone.symm.trans ht) (by simp)

/-- At the end of the source, within a statement, a parser comes to no end without an error. -/
lemma WithinStatement.not_advances (hpr : pr.ListsStatements k) (h : p.Advances q)
    (hq : q.stack = []) (hp : p.predictor = pr) (ht : p.lookahead = some t)
    (hend : t.kind = .endOfInput) : ¬ p.WithinStatement pr k := by
  induction h using Relation.ReflTransGen.head_induction_on with
  | refl =>
    rintro ⟨a, -, hstack⟩
    simp [hq] at hstack
  | @head p p₁ hstep _ ih =>
    intro hwithin
    obtain ⟨t', p', hpeek, hacts⟩ := hstep
    obtain ⟨rfl, rfl⟩ := hpeek.eq_of_lookahead ht
    rcases hwithin.acts hpr hp hacts with ⟨hne, -⟩ | ⟨hsame, hwithin'⟩
    · exact hne hend
    · exact ih (hacts.kept.1.trans hp) (hsame.trans ht) hwithin'

/-- If the list of statements is over too early, a parser comes to no end without an error. -/
lemma not_advances_of_ne_end (h : p.Advances q) (hq : q.stack = []) (ht : p.lookahead = some t)
    (hend : t.kind ≠ .endOfInput) : p.stack ≠ [.terminal .endOfInput] := by
  intro hstack
  rcases Relation.ReflTransGen.cases_head h with rfl | ⟨p₁, ⟨t', p', hpeek, hacts⟩, -⟩
  · exact absurd (hstack.symm.trans hq) (by simp)
  · obtain ⟨rfl, rfl⟩ := hpeek.eq_of_lookahead ht
    cases hacts with
    | matched hmatched =>
      have htop := (List.cons.inj (hstack.symm.trans hmatched)).1
      exact hend (by simpa using htop.symm)
    | expanded hexpanded _ => exact absurd (hstack.symm.trans hexpanded) (by simp)

/-! ### More text behind a script -/

/-- The parser with more text behind its source. -/
def followedBy (p : Parser) (cs : List Char) : Parser :=
  { p with lexer := p.lexer.followedBy cs }

lemma Peeks.followedBy (hl : p.lexer.lexicon.StopsAtBlanks) (hc : Text.isBlank c = true)
    (h : p.Peeks t p') (hend : t.kind ≠ .endOfInput) (cs : List Char) :
    (p.followedBy (c :: cs)).Peeks t (p'.followedBy (c :: cs)) := by
  rcases peeks_iff.mp h with ⟨ht, rfl⟩ | ⟨l, hnone, hnext, rfl⟩
  · exact peeks_iff.mpr (.inl ⟨ht, rfl⟩)
  · exact peeks_iff.mpr
      (.inr ⟨_, hnone, Lexer.next_followedBy_token hl hnext hend hc cs, rfl⟩)

lemma Acts.followedBy (h : p.Acts t q e) (cs : List Char) :
    (p.followedBy cs).Acts t (q.followedBy cs) e := by
  cases h with
  | matched hstack => exact .matched hstack
  | stuck hstack hk hend => exact .stuck hstack hk hend
  | refused hstack hk hend => exact .refused hstack hk hend
  | expanded hstack hact => exact .expanded hstack hact
  | popped hstack hact => exact .popped hstack hact
  | scanned hstack hact => exact .scanned hstack hact

/-- A parser that will accept stays within the script until the end of the source. -/
lemma WithinScript.acts (hpr : pr.ListsStatements k) (hp : p.predictor = pr)
    (h : p.WithinScript pr k) (ht : p.lookahead = some t) (hacts : p.Acts t p' none)
    (hrest : p'.Advances q) (hq : q.stack = []) : p'.WithinScript pr k := by
  obtain ⟨hgoal | hwithin, hend⟩ := h
  · obtain ⟨hsame, hstack⟩ := acts_of_goal hpr hp hgoal hacts
    have hover := not_advances_of_ne_end hrest hq (hsame.trans ht) (hend t ht)
    exact ⟨.inr (hstack.resolve_left hover), fun u hu => hend u (hsame ▸ hu)⟩
  · rcases hwithin.acts hpr hp hacts with ⟨-, hnone, hstack⟩ | ⟨hsame, hwithin'⟩
    · exact ⟨hstack, fun u hu => absurd (hnone.symm.trans hu) (by simp)⟩
    · exact ⟨.inr hwithin', fun u hu => hend u (hsame ▸ hu)⟩

/-- **At the end of a script a parser is as new.**  If a parser accepts its source, it comes to the
point between two statements, with no token at hand, when another text follows behind a blank; what
it reads next is that text. -/
theorem advances_followedBy (hpr : pr.ListsStatements k) (hc : Text.isBlank c = true)
    (h : p.Advances q) (hq : q.stack = []) (hp : p.predictor = pr)
    (hl : p.lexer.lexicon.StopsAtBlanks) (hend : p.lexer.lexicon.Avoids .endOfInput)
    (hscript : p.WithinScript pr k) (cs : List Char) :
    ∃ l, l.next = (p.lexer.behind (c :: cs)).next ∧ (p.followedBy (c :: cs)).Advances
      { p with lexer := l, stack := pr.goal, lookahead := none } := by
  induction h using Relation.ReflTransGen.head_induction_on with
  | refl =>
    rcases hscript.1 with hgoal | ⟨a, -, hstack⟩
    · simp [hq, Predictor.goal] at hgoal
    · simp [hq] at hstack
  | @head p p₁ hstep hrest ih =>
    obtain ⟨t, p', hpeek, hacts⟩ := hstep
    obtain ⟨hpredictor, hstack, hunrecoverable⟩ := hpeek.unchanged
    have hp' : p'.predictor = pr := hpredictor.trans hp
    by_cases ht : t.kind = .endOfInput
    · -- the source has come to its end, so there is no token at hand
      rcases peeks_iff.mp hpeek with ⟨hsome, -⟩ | ⟨l, hnone, hnext, rfl⟩
      · exact absurd ht (hscript.2 t hsome)
      · have hgoal : p.stack = pr.goal := by
          refine hscript.1.resolve_right fun hwithin => ?_
          have hagain : Peeks { p with lexer := l, lookahead := some t } t
              { p with lexer := l, lookahead := some t } := peeks_iff.mpr (.inl ⟨rfl, rfl⟩)
          exact WithinStatement.not_advances hpr (.head ⟨t, _, hagain, hacts⟩ hrest) hq hp' rfl ht
            hwithin
        refine ⟨p.lexer.followedBy (c :: cs), Lexer.next_followedBy_end hend hnext ht _, ?_⟩
        rw [← hgoal, ← hnone]
        exact .refl
    · have hscript' : p'.WithinScript pr k := by
        refine ⟨?_, fun u hu => ?_⟩
        · simpa only [WithinStatement, hstack] using hscript.1
        · obtain rfl := Option.some.inj (hpeek.lookahead_eq.symm.trans hu)
          exact ht
      have hlexer : p₁.lexer.lexicon = p.lexer.lexicon ∧
          p₁.lexer.behind (c :: cs) = p.lexer.behind (c :: cs) := by
        rw [hacts.kept.2.1]
        rcases peeks_iff.mp hpeek with ⟨-, rfl⟩ | ⟨l, -, hnext, rfl⟩
        · exact ⟨rfl, rfl⟩
        · exact ⟨(Lexer.next_ok hnext).1, Lexer.behind_of_next hnext _⟩
      obtain ⟨l, hnext, hadvances⟩ := ih (hacts.kept.1.trans hp') (hlexer.1 ▸ hl) (hlexer.1 ▸ hend)
        (hscript'.acts hpr hp' hpeek.lookahead_eq hacts hrest hq)
      have hkept : ({ p₁ with lexer := l, stack := pr.goal, lookahead := none } : Parser) =
          { p with lexer := l, stack := pr.goal, lookahead := none } := by
        rw [hacts.kept.1, hpredictor, hacts.unrecoverable_eq, hunrecoverable]
      exact ⟨l, hnext.trans (congrArg Lexer.next hlexer.2),
        hkept ▸ .head ⟨t, _, hpeek.followedBy hl hc ht cs, hacts.followedBy _⟩ hadvances⟩

/-! ### What calls let their caller know -/

/-- A call depends on nothing of the lexer but what it reads next, if there is no token at hand. -/
lemma go_lexer_congr {l : Lexer} (hnext : l.next = p.lexer.next) (hnone : p.lookahead = none)
    (hstack : p.stack ≠ []) (fuel : Nat) (moves : List Move) :
    ({ p with lexer := l } : Parser).go fuel moves = p.go fuel moves := by
  have hstep : ({ p with lexer := l } : Parser).step = p.step := by
    obtain ⟨top, below, htop⟩ := List.exists_cons_of_ne_nil hstack
    simp only [step, htop, peek, hnone, hnext]
  cases fuel with
  | zero => rfl
  | succ fuel =>
    rw [go, go, hstep]
    cases hs : p.step with
    | none => exact absurd (step_eq_none_iff.mp hs) hstack
    | some s => rfl

/-- If the first call of a parser goes on from another parser, the caller learns the same. -/
lemma Reports.of_go {es : List Response} {n : Nat} (h : q.Reports es)
    (hp : p.unrecoverable = false) (hq : q.unrecoverable = false)
    (hgo : ∀ fuel, p.go (n + fuel) [] = q.go fuel moves) : p.Reports es := by
  obtain ⟨fuel, limit, rs, hrs, hfinished, rfl⟩ := h
  cases limit with
  | zero =>
    obtain rfl : [] = rs := Option.some.inj hrs
    obtain ⟨r, hr, -⟩ := hfinished
    exact absurd hr (by simp)
  | succ limit =>
    rw [runs_succ] at hrs
    obtain ⟨r, hr, hrs⟩ := Option.bind_eq_some_iff.mp hrs
    simp only [proceed, hq, Bool.false_eq_true, if_false] at hr
    obtain ⟨r', hr', hparser, houtcome⟩ := go_moves hr moves
    have hproceed : p.proceed (n + fuel) = some r' := by
      simp only [proceed, hp, Bool.false_eq_true, if_false, hgo, hr']
    have hfinal : r'.isFinal = r.isFinal := by rw [Run.isFinal, hparser, houtcome, Run.isFinal]
    have hresponse : r'.response = r.response := by
      rw [Run.response, hparser, houtcome, Run.response]
    split at hrs
    · next hr =>
      obtain rfl : [r] = rs := Option.some.inj hrs
      refine ⟨n + fuel, limit + 1, [r'], ?_, finished_singleton (hfinal.trans hr), ?_⟩
      · rw [runs_succ, hproceed, Option.bind_some, if_pos (hfinal.trans hr)]
      · rw [List.map_singleton, List.map_singleton, hresponse]
    · next hr =>
      obtain ⟨rest, hrest, rfl⟩ := Option.map_eq_some_iff.mp hrs
      have hr' : r'.isFinal = false := hfinal.trans (by simpa using hr)
      rw [finished_cons_iff (by simpa using hr)] at hfinished
      refine ⟨n + fuel, limit + 1, r' :: rest, ?_, (finished_cons_iff hr').mpr hfinished, ?_⟩
      · rw [runs_succ, hproceed, Option.bind_some, hr', hparser,
          runs_mono hrest (Nat.le_add_left fuel n)]
        rfl
      · rw [List.map_cons, List.map_cons, hresponse]

end Parser

/-- The response, `k` lines further down. -/
def Response.down (k : Nat) (e : Response) : Response :=
  { e with outcome := e.outcome.mapError (·.down k) }

lemma Response.outcome_down_eq_ok_iff (e : Response) (k : Nat) :
    (e.down k).outcome = .ok () ↔ e.outcome = .ok () := by
  obtain ⟨outcome, accepted, unrecoverable⟩ := e
  cases outcome with
  | ok => exact Iff.rfl
  | error x => exact iff_of_false (fun h => by cases h) (fun h => by cases h)

lemma Parser.Reports.down {p : Parser} {es : List Response} (h : p.Reports es) (k : Nat) :
    (p.down k).Reports (es.map (·.down k)) := by
  obtain ⟨fuel, limit, rs, hrs, ⟨r, hlast, hfinal⟩, rfl⟩ := h
  refine ⟨fuel, limit, rs.map (·.down k), by rw [runs_down, hrs]; rfl, ⟨r.down k, ?_, ?_⟩, ?_⟩
  · rw [List.getLast?_map, hlast]
    rfl
  · rw [isFinal_down, hfinal]
  · rw [List.map_map, List.map_map]
    rfl

/-- **A correct script leaves nothing behind.**  If a parser for lists of statements accepts a
source, then for this source, a line end and another source it reports what it reports for the other
source alone, further down by the lines of the first. -/
theorem Parser.Accepts.reports_behind {lexicon : Lexicon} {s₁ s₂ : String} {es : List Response}
    (hpr : pr.ListsStatements k) (hl : lexicon.StopsAtBlanks) (hend : lexicon.Avoids .endOfInput)
    (hs₁ : (ofSource pr lexicon s₁).Accepts) (h : (ofSource pr lexicon s₂).Reports es) :
    (ofSource pr lexicon (s₁ ++ "\n" ++ s₂)).Reports
      (es.map (·.down (s₁.toList.count '\n' + 1))) := by
  obtain ⟨fuel, r, hr, hok⟩ := hs₁
  have hgo : (ofSource pr lexicon s₁).go fuel [] = some r := hr
  have hscript : (ofSource pr lexicon s₁).WithinScript pr k := ⟨.inl rfl, fun t ht => by cases ht⟩
  obtain ⟨l, hnext, hfollowed⟩ := advances_followedBy (c := '\n') hpr rfl (advances_of_go hgo hok)
    (stack_eq_nil_of_go hgo hok) rfl hl hend hscript s₂.toList
  obtain ⟨n, moves, hn⟩ := hfollowed.exists_go []
  have hsource : ofSource pr lexicon (s₁ ++ "\n" ++ s₂) =
      (ofSource pr lexicon s₁).followedBy ('\n' :: s₂.toList) := by
    rw [ofSource, Lexer.ofSource_newline]
    rfl
  have hbehind := hnext.trans (Lexer.next_behind_newline lexicon s₁ s₂)
  generalize s₁.toList.count '\n' + 1 = lines at hbehind ⊢
  have hcalls (fuel : Nat) : (ofSource pr lexicon (s₁ ++ "\n" ++ s₂)).go (n + fuel) [] =
      ((ofSource pr lexicon s₂).down lines).go fuel moves := by
    have hne : ((ofSource pr lexicon s₂).down lines).stack ≠ [] := List.cons_ne_nil _ _
    rw [hsource, hn]
    exact go_lexer_congr hbehind rfl hne fuel moves
  exact (h.down lines).of_go rfl rfl hcalls

/-! ### Scripts of SQL -/

namespace Sql

open LL1.Parser

/-- The table of SQL, if it passes a test. -/
lemma exists_table_passing (test : Table → Bool)
    (h : ((grammar.toOption.bind (·.compile 60)).any fun c => c.result.toOption.any test) = true) :
    ∃ g c table, grammar = .ok g ∧ g.compile 60 = some c ∧ c.result = .ok table ∧
      test table = true := by
  obtain ⟨c, table, hcompile, hc, htest⟩ := exists_table_of_any _ test h
  obtain ⟨g, hg, hcompile⟩ := Option.bind_eq_some_iff.mp hcompile
  exact ⟨g, c, table, toOption_eq_some_iff.mp hg, hcompile, hc, htest⟩

variable {g : Grammar} {fuel : Nat} {c : Compilation} {table : Table} {s₁ : String}

/-- The grammar of SQL compiles to rules for lists of statements. -/
lemma listsStatements (hg : grammar = .ok g) (h : g.compile fuel = some c)
    (hc : c.result = .ok table) : table.predictor.ListsStatements .semicolon := by
  obtain ⟨g', c', table', hg', h', hc', hlists⟩ :=
    exists_table_passing (fun table => decide (table.rules.ListsStatements .semicolon))
      (by decide +kernel)
  obtain rfl : g' = g := Except.ok.inj (hg'.symm.trans hg)
  obtain rfl : c' = c := Grammar.compile_unique h' h
  obtain rfl : table' = table := Except.ok.inj (hc'.symm.trans hc)
  obtain ⟨n, -, -, -, htable⟩ := Grammar.compile_eq_ok h hc
  exact (of_decide_eq_true hlists).predictor (by decide) htable

/-- A parser for SQL comes to an end with its responses. -/
lemma exists_reports (hg : grammar = .ok g) (h : g.compile fuel = some c)
    (hc : c.result = .ok table) (source : String) :
    ∃ es, (ofSource table.predictor lexicon source).Reports es := by
  obtain ⟨g', -, -, hg', hwf, hend, -⟩ := exists_table
  obtain rfl : g' = g := Except.ok.inj (hg'.symm.trans hg)
  exact (valid_ofSource (Grammar.decides_compile hwf h hc) (Grammar.avoids_compile hwf h hc hend)
    ordinary_lexicon source).exists_reports

/-- **A correct script has no influence on later diagnostics.**  If a parser for SQL accepts the
source `s₁`, then for any other source it comes to an end with a list of responses, and for `s₁`, a
line end and the other source it comes to an end with the same list, further down by the lines of
`s₁`.  There are no errors in one of them if and only if there are none in the other. -/
theorem reports_newline (hg : grammar = .ok g) (h : g.compile fuel = some c)
    (hc : c.result = .ok table) (hs₁ : (ofSource table.predictor lexicon s₁).Accepts)
    (s₂ : String) : ∃ es,
      (∀ es', (ofSource table.predictor lexicon s₂).Reports es' ↔ es' = es) ∧
      (∀ es', (ofSource table.predictor lexicon (s₁ ++ "\n" ++ s₂)).Reports es' ↔
        es' = es.map (·.down (s₁.toList.count '\n' + 1))) ∧
      ((ofSource table.predictor lexicon (s₁ ++ "\n" ++ s₂)).Accepts ↔
        (ofSource table.predictor lexicon s₂).Accepts) := by
  obtain ⟨es, hes⟩ := exists_reports hg h hc s₂
  have hnewline := hs₁.reports_behind (listsStatements hg h hc) stopsAtBlanks_lexicon
    avoids_endOfInput hes
  refine ⟨es, fun es' => ⟨fun hes' => hes'.unique hes, ?_⟩,
    fun es' => ⟨fun hes' => hes'.unique hnewline, ?_⟩, ?_⟩
  · rintro rfl
    exact hes
  · rintro rfl
    exact hnewline
  · rw [hnewline.accepts_iff, hes.accepts_iff, List.forall_mem_map]
    exact forall₂_congr fun e _ => e.outcome_down_eq_ok_iff _

/-- For instance, if two empty statements and a selection are followed by a source with two errors,
one of which is fatal. -/
theorem reports_newline_selection : ∃ g c table,
    grammar = .ok g ∧ g.compile 60 = some c ∧ c.result = .ok table ∧
      (ofSource table.predictor lexicon ";;SELECT a\nFROM t;").Accepts ∧ ∃ es,
        (∀ es', (ofSource table.predictor lexicon "SELECT FROM t; 'x").Reports es' ↔ es' = es) ∧
        (∀ es', (ofSource table.predictor lexicon
            (";;SELECT a\nFROM t;" ++ "\n" ++ "SELECT FROM t; 'x")).Reports es' ↔
          es' = es.map (·.down (";;SELECT a\nFROM t;".toList.count '\n' + 1))) ∧
        ((ofSource table.predictor lexicon
            (";;SELECT a\nFROM t;" ++ "\n" ++ "SELECT FROM t; 'x")).Accepts ↔
          (ofSource table.predictor lexicon "SELECT FROM t; 'x").Accepts) := by
  obtain ⟨g, c, table, hg, h, hc, htest⟩ :=
    exists_table_passing (fun table =>
      ((ofSource table.predictor lexicon ";;SELECT a\nFROM t;").proceed 60).any (·.outcome.isOk))
      (by decide +kernel)
  obtain ⟨r, hr, hok⟩ := (Option.any_eq_true _ _).mp htest
  have hs₁ : (ofSource table.predictor lexicon ";;SELECT a\nFROM t;").Accepts := by
    refine ⟨60, r, hr, ?_⟩
    cases houtcome : r.outcome with
    | ok => rfl
    | error e => simp [houtcome, Except.isOk, Except.toBool] at hok
  exact ⟨g, c, table, hg, h, hc, hs₁, reports_newline hg h hc hs₁ _⟩

end Sql

end LL1
