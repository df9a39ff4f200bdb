/-
# The life of a parser

A parser is asked to go on, again and again, and from time to time it is opened on another source.
Whatever its predictor does, the end of the source stays at the bottom of the stack until the lexer
delivers it, which is how a source is accepted.  A parser that has accepted its source stays as it
is, and so does one that has met a fatal error, until it is opened again; no parser does both.  The
state of a parser is followed through steps, calls and openings, in each case together with the
lexer with which it was opened last and the tokens that this lexer has delivered since.
-/
import LL1.Proofs.Accounting
import LL1.Proofs.Partition

namespace LL1

lemma Lexer.Delivers.lexicon_eq {l l' : Lexer} {ts : List Token} (h : l.Delivers ts l') :
    l'.lexicon = l.lexicon := by
  induction h with
  | nil l => rfl
  | cons hnext _ ih => exact ih.trans (next_ok hnext).1

/-- If the last token delivered is the end of the source, all of the source has been read. -/
lemma Lexer.Delivers.rest_eq_nil {l l' : Lexer} {ts : List Token} {t : Token}
    (hl : l.lexicon.Avoids .endOfInput) (h : l.Delivers ts l') (ht : ts.getLast? = some t)
    (hend : t.kind = .endOfInput) : l'.rest = [] := by
  induction h with
  | nil l => simp at ht
  | @cons l l₁ l' u us hnext hrest ih =>
    obtain ⟨hlexicon, hnext'⟩ := next_ok hnext
    cases us with
    | nil =>
      obtain rfl : u = t := by simpa using ht
      cases hrest
      rcases hnext' with ⟨-, hnil⟩ | ⟨hmem, -⟩
      · exact hnil
      · -- the end of the source is not a kind of the lexicon
        obtain ⟨c, hc, hkind⟩ := List.mem_map.mp hmem
        exact absurd (hkind.trans hend) (hl c hc)
    | cons v vs => exact ih (hlexicon ▸ hl) (by simpa using ht)

namespace Parser

variable {pr : Predictor} {l₀ l : Lexer} {p p' q : Parser} {t : Token} {e : Option SyntaxError}
  {r : Run} {moves : List Move} {fuel : Nat}

/-! ### Calls and openings -/

/-- A parser for `pr` that was made with the lexer `l₀` was opened last with the lexer `l` and has
come to the state `p`: it has just been opened, or it is between two steps of a call, or calls have
returned since. -/
inductive Session (pr : Predictor) (l₀ : Lexer) : Lexer → Parser → Prop
  | start : Session pr l₀ l₀ (.ofLexer pr l₀)
  | step {l : Lexer} {p q : Parser} : Session pr l₀ l p → Goes q p → Session pr l₀ l q
  | proceed {l : Lexer} {p : Parser} {fuel : Nat} {r : Run} :
      Session pr l₀ l p → p.proceed fuel = some r → Session pr l₀ l r.parser
  | reopen {l : Lexer} {p : Parser} (source : String) :
      Session pr l₀ l p → Session pr l₀ (p.lexer.reopen source) (p.reopen source)

/-- What the lexer has delivered since it was in the state `l`: nothing else than tokens, the last
of which is the token at hand, if there is one, and the end of the source, if nothing is expected
any more. -/
def HasHeard (l : Lexer) (p : Parser) : Prop :=
  ∃ ts, l.Delivers ts p.lexer ∧ (∀ t, p.lookahead = some t → ts.getLast? = some t) ∧
    (p.stack = [] → ∃ t, ts.getLast? = some t ∧ t.kind = .endOfInput)

/-- The state of a parser for `pr` with the given lexicon, opened with the lexer `l`. -/
structure Lives (pr : Predictor) (lexicon : Lexicon) (l : Lexer) (p : Parser) : Prop where
  predictor_eq : p.predictor = pr
  lexicon_eq : p.lexer.lexicon = lexicon
  awaitsEnd : p.AwaitsEnd
  fatal_or_heard : p.unrecoverable = true ∧ p.stack ≠ [] ∨ p.unrecoverable = false ∧ p.HasHeard l

/-! ### Steps -/

lemma HasHeard.peeks (h : p.HasHeard l) (hstack : p.stack ≠ []) (hpeek : p.Peeks t p') :
    p'.HasHeard l := by
  obtain ⟨ts, hdelivers, hlast, -⟩ := h
  rcases peeks_iff.mp hpeek with ⟨hl, rfl⟩ | ⟨l', -, hnext, rfl⟩
  · exact ⟨ts, hdelivers, hlast, fun hnil => absurd hnil hstack⟩
  · refine ⟨ts ++ [t], hdelivers.append (.cons hnext (.nil _)), ?_, fun hnil => absurd hnil hstack⟩
    intro t' ht'
    obtain rfl := Option.some.inj ht'
    simp

/-- What is done with the token at hand does not concern the lexer, and this token stays at hand or
is gone then. -/
lemma Acts.kept (h : p.Acts t q e) : q.predictor = p.predictor ∧ q.lexer = p.lexer ∧
    (q.lookahead = p.lookahead ∨ q.lookahead = none) := by
  cases h <;> simp [consume]

/-- Nothing is expected any more only after the end of the source. -/
lemma AwaitsEnd.kind_eq (hp : p.AwaitsEnd) (h : p.Acts t q e) (hnil : q.stack = []) :
    t.kind = .endOfInput := by
  cases h with
  | matched hstack =>
    rcases hp.cons_cases hstack with ⟨htop, -⟩ | ⟨γ, hγ⟩
    · simpa using htop
    · exact absurd (hγ.symm.trans hnil) (by simp)
  | stuck hstack _ _ => exact absurd (hstack.symm.trans hnil) (by simp)
  | refused hstack _ _ => exact absurd (hstack.symm.trans hnil) (by simp)
  | expanded hstack _ =>
    rcases hp.cons_cases hstack with ⟨htop, -⟩ | ⟨γ, hγ⟩
    · exact absurd htop (by simp)
    · exact absurd (List.append_eq_nil_iff.mp hnil).2 (by simp [hγ])
  | popped hstack _ =>
    rcases hp.cons_cases hstack with ⟨htop, -⟩ | ⟨γ, hγ⟩
    · exact absurd htop (by simp)
    · exact absurd (hγ.symm.trans hnil) (by simp)
  | scanned hstack _ => exact absurd (hstack.symm.trans hnil) (by simp)

lemma HasHeard.acts (h : p.HasHeard l) (hend : p.AwaitsEnd) (ht : p.lookahead = some t)
    (hacts : p.Acts t q e) : q.HasHeard l := by
  obtain ⟨ts, hdelivers, hlast, -⟩ := h
  obtain ⟨-, hlexer, hlookahead⟩ := hacts.kept
  refine ⟨ts, hlexer ▸ hdelivers, fun t' ht' => ?_, fun hnil => ?_⟩
  · rcases hlookahead with hsame | hnone
    · exact hlast t' (hsame ▸ ht')
    · exact absurd (hnone.symm.trans ht') (by simp)
  · exact ⟨t, hlast t ht, hend.kind_eq hacts hnil⟩

/-- A parser becomes fatal only while something is expected. -/
lemma Acts.fatal (h : p.Acts t q e) (hp : p.unrecoverable = false) :
    q.unrecoverable = true ∧ q.stack ≠ [] ∨ q.unrecoverable = false := by
  cases h with
  | stuck hstack _ _ => exact .inl ⟨rfl, by simp [hstack]⟩
  | _ => exact .inr hp

variable {lexicon : Lexicon}

/-- **A step keeps a parser alive.** -/
lemma Lives.goes (h : p.Lives pr lexicon l) (hgoes : Goes q p) : q.Lives pr lexicon l := by
  obtain ⟨hp, s, hs, rfl⟩ := hgoes
  have hstack : p.stack ≠ [] := fun hnil => by simp [step_eq_none_iff.mpr hnil] at hs
  have hend := h.awaitsEnd.step hs
  obtain ⟨-, hheard⟩ := h.fatal_or_heard.resolve_left fun hfatal => by simp [hp] at hfatal
  rcases step_cases hs with ⟨x, l', -, hnext, -, hq⟩ | ⟨t, p', e, hpeek, hacts, -⟩
  · have hlexicon := (Lexer.next_error hnext).1
    rw [hq] at hend ⊢
    exact ⟨h.predictor_eq, hlexicon.trans h.lexicon_eq, hend, .inl ⟨rfl, hstack⟩⟩
  · obtain ⟨hpredictor, hstack', hfatal⟩ := hpeek.unchanged
    obtain ⟨hpredictor', hlexer, -⟩ := hacts.kept
    have hlexicon : p'.lexer.lexicon = p.lexer.lexicon := by
      rcases peeks_iff.mp hpeek with ⟨-, rfl⟩ | ⟨l', -, hnext, rfl⟩
      · rfl
      · exact (Lexer.next_ok hnext).1
    have hend' : p'.AwaitsEnd :=
      .inl (hstack' ▸ h.awaitsEnd.resolve_right fun hnil => hstack hnil.1)
    refine ⟨(hpredictor'.trans hpredictor).trans h.predictor_eq, ?_, hend, ?_⟩
    · rw [hlexer, hlexicon, h.lexicon_eq]
    · rcases hacts.fatal (hfatal.trans hp) with hfatal' | hnot
      · exact .inl hfatal'
      · exact .inr ⟨hnot, (hheard.peeks hstack hpeek).acts hend' hpeek.lookahead_eq hacts⟩

/-! ### Sessions -/

lemma lives_ofLexer (pr : Predictor) (l : Lexer) : (ofLexer pr l).Lives pr l.lexicon l where
  predictor_eq := rfl
  lexicon_eq := rfl
  awaitsEnd := awaitsEnd_ofLexer pr l
  fatal_or_heard :=
    .inr ⟨rfl, [], .nil l, by simp [ofLexer], fun hnil => by simp [ofLexer, Predictor.goal] at hnil⟩

lemma Lives.reopen_eq (h : p.Lives pr lexicon l) (source : String) :
    p.reopen source = ofSource pr lexicon source := by
  rw [Parser.reopen, Lexer.reopen, h.predictor_eq, h.lexicon_eq, ofSource]

lemma Lives.steps (h : p.Lives pr lexicon l) (hsteps : Relation.ReflTransGen Goes q p) :
    q.Lives pr lexicon l := by
  induction hsteps using Relation.ReflTransGen.head_induction_on with
  | refl => exact h
  | head hgoes _ ih => exact ih.goes hgoes

/-- A parser lives through the calls on its source. -/
lemma Lives.runs {limit : Nat} {rs : List Run} (h : p.Lives pr lexicon l)
    (hruns : p.runs fuel limit = some rs) : ∀ r ∈ rs, r.parser.Lives pr lexicon l := by
  intro r hr
  obtain ⟨q, hsteps, hproceed⟩ := exists_proceed_of_mem hruns hr
  exact (h.steps hsteps).steps (proceed_steps hproceed)

/-- A parser lives through all of its calls and openings. -/
theorem Session.lives (h : Session pr l₀ l p) : p.Lives pr l₀.lexicon l := by
  induction h with
  | start => exact lives_ofLexer pr l₀
  | step _ hgoes ih => exact ih.goes hgoes
  | proceed _ hproceed ih => exact ih.steps (proceed_steps hproceed)
  | @reopen l p source _ ih =>
    have hlexer : p.lexer.reopen source = .ofSource l₀.lexicon source := by
      rw [Lexer.reopen, ih.lexicon_eq]
    rw [ih.reopen_eq source, hlexer]
    exact lives_ofLexer pr (.ofSource l₀.lexicon source)

/-- A parser that expects nothing any more has accepted all of its source. -/
lemma Lives.accepted (h : p.Lives pr lexicon l) (hl : lexicon.Avoids .endOfInput)
    (hnil : p.stack = []) : p.unrecoverable = false ∧ p.lookahead = none ∧ p.lexer.rest = [] ∧
      ∃ ts t, l.Delivers (ts ++ [t]) p.lexer ∧ t.kind = .endOfInput := by
  obtain ⟨hnot, ts, hdelivers, -, hlast⟩ := h.fatal_or_heard.resolve_left fun hfatal =>
    hfatal.2 hnil
  obtain ⟨t, ht, hend⟩ := hlast hnil
  have hlexicon : l.lexicon = lexicon := hdelivers.lexicon_eq.symm.trans h.lexicon_eq
  have hrest : p.lexer.rest = [] := hdelivers.rest_eq_nil (hlexicon ▸ hl) ht hend
  obtain ⟨us, rfl⟩ := List.getLast?_eq_some_iff.mp ht
  exact ⟨hnot, h.awaitsEnd.lookahead_eq_none hnil, hrest, us, t, hdelivers, hend⟩

lemma proceed_of_stack_eq_nil (hnil : p.stack = []) (hp : p.unrecoverable = false) (fuel : Nat) :
    p.proceed (fuel + 1) = some ⟨p, [], .ok ()⟩ := by
  have hgo : p.go (fuel + 1) [] = some ⟨p, [], .ok ()⟩ := by
    rw [go, step_eq_none_iff.mpr hnil, List.reverse_nil]
  rw [Parser.proceed, hgo, hp]
  rfl

lemma proceed_of_unrecoverable (hp : p.unrecoverable = true) (fuel : Nat) :
    p.proceed fuel = some ⟨p, [], .error .aborted⟩ := by
  rw [Parser.proceed, if_pos hp]

/-- What goes wrong in a step is never that an earlier error was fatal. -/
lemma step_error_ne_aborted {s : Step} (h : p.step = some s) : s.error ≠ some .aborted := by
  rcases step_cases h with ⟨x, l', -, -, herror, -⟩ | ⟨t, p', e, -, -, herror⟩
  · simp [herror]
  · cases e <;> simp [herror]

lemma go_outcome_ne_aborted (h : p.go fuel moves = some r) (hp : p.unrecoverable = false) :
    r.outcome ≠ .error .aborted := by
  intro habort
  obtain ⟨q, s, -, hs, he⟩ := exists_step_of_go_error h hp habort
  exact step_error_ne_aborted hs he

/-- A call is refused exactly if an earlier error was fatal. -/
lemma outcome_eq_aborted_iff (h : p.proceed fuel = some r) :
    r.outcome = .error .aborted ↔ p.unrecoverable = true := by
  rw [Parser.proceed] at h
  split at h
  · next hfatal =>
    obtain rfl := Option.some.inj h
    simp [hfatal]
  · next hnot => simp [hnot, go_outcome_ne_aborted h (by simpa using hnot)]

/-- **The life of a parser.**  Whatever the predictor, the lexer and the calls are, as long as no
category of the lexer is the end of the source:

* the end of the source stands at the bottom of every stack that is not empty;
* an accepted parser has no token at hand, its lexer has read the whole source with which it was
  opened, and what it has delivered ends with the end of the source;
* no accepted parser has met a fatal error;
* a call of an accepted parser succeeds and changes nothing;
* a call is refused exactly if an earlier error was fatal, and then it changes nothing;
* a parser that is opened again is as new. -/
theorem life_cycle (hl : l₀.lexicon.Avoids .endOfInput) (h : Session pr l₀ l p) :
    (p.stack ≠ [] → p.stack.getLast? = some (.terminal .endOfInput)) ∧
    (p.isAccepted = true → p.lookahead = none ∧ p.lexer.rest = [] ∧
      ∃ ts t, l.Delivers (ts ++ [t]) p.lexer ∧ t.kind = .endOfInput) ∧
    ¬ (p.isAccepted = true ∧ p.unrecoverable = true) ∧
    (p.isAccepted = true → ∀ fuel, p.proceed (fuel + 1) = some ⟨p, [], .ok ()⟩) ∧
    (∀ fuel r, p.proceed fuel = some r →
      (r.outcome = .error .aborted ↔ p.unrecoverable = true)) ∧
    (p.unrecoverable = true → ∀ fuel, p.proceed fuel = some ⟨p, [], .error .aborted⟩) ∧
    ∀ source, p.reopen source = .ofSource pr l₀.lexicon source := by
  have hlives := h.lives
  have haccepted (hp : p.isAccepted = true) := hlives.accepted hl (List.isEmpty_iff.mp hp)
  refine ⟨fun hne => ?_, fun hp => (haccepted hp).2, ?_, fun hp => ?_, fun _ _ => ?_,
    proceed_of_unrecoverable, hlives.reopen_eq⟩
  · obtain ⟨γ, hγ⟩ := hlives.awaitsEnd.resolve_right fun hnil => hne hnil.1
    rw [hγ, List.getLast?_append, List.getLast?_singleton, Option.some_or]
  · rintro ⟨hp, hfatal⟩
    exact absurd ((haccepted hp).1.symm.trans hfatal) (by simp)
  · exact proceed_of_stack_eq_nil (List.isEmpty_iff.mp hp) (haccepted hp).1
  · exact outcome_eq_aborted_iff

end Parser

/-! ### A predictor that expects the end of the source early -/

/-- Whatever the token is, the predictor passes over it, unless it is the end of the source: then
it expects this twice more. -/
def endSeeker : Predictor where
  start := 0
  action _ k := if k = .endOfInput then .expand 0 else .recover .scan
  alternative _ _ := [.terminal .endOfInput, .terminal .endOfInput]
  name _ := "end"

/-- For instance its parser, opened on a name after it has been asked to go on with a single quote,
passes over the name and accepts. -/
theorem life_cycle_endSeeker : ∃ l p, Sql.lexicon.Avoids .endOfInput ∧
    Parser.Session endSeeker (.ofSource Sql.lexicon "'") l p ∧ p.isAccepted = true ∧
      p.lookahead = none ∧ p.lexer.rest = [] ∧
      (∃ ts t, l.Delivers (ts ++ [t]) p.lexer ∧ t.kind = .endOfInput) ∧
      p.unrecoverable = false ∧ ∀ fuel, p.proceed (fuel + 1) = some ⟨p, [], .ok ()⟩ := by
  let first : Parser := .ofSource endSeeker Sql.lexicon "'"
  have hcalls : ((first.proceed 1).bind fun a => ((a.parser.reopen "a").proceed 1).bind fun b =>
      b.parser.proceed 5).any (·.parser.isAccepted) = true := by decide +kernel
  obtain ⟨c, hc, haccepted⟩ := (Option.any_eq_true _ _).mp hcalls
  obtain ⟨a, ha, hc⟩ := Option.bind_eq_some_iff.mp hc
  obtain ⟨b, hb, hc⟩ := Option.bind_eq_some_iff.mp hc
  have hstart : Parser.Session endSeeker (.ofSource Sql.lexicon "'") _ first := .start
  have hsession := (((hstart.proceed ha).reopen "a").proceed hb).proceed hc
  obtain ⟨-, hread, hnotBoth, hagain, -⟩ := Parser.life_cycle Sql.avoids_endOfInput hsession
  obtain ⟨hlookahead, hrest, hdelivers⟩ := hread haccepted
  refine ⟨_, c.parser, Sql.avoids_endOfInput, hsession, haccepted, hlookahead, hrest, hdelivers, ?_,
    hagain haccepted⟩
  exact eq_false_of_ne_true fun hfatal => hnotBoth ⟨haccepted, hfatal⟩

end LL1
