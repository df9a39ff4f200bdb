/-
# Parsing and resuming end

A call of `proceed` makes steps until one reports an error, and every further call goes on from
there.  Since the steps of a valid parser come to an end, so does every call, and so do the calls
themselves: each one that reports an error makes at least one step.
-/
import LL1.Proofs.Compilation
import LL1.Proofs.Parsing

namespace LL1

namespace Parser

variable {P : RuleSet Nat} {F : Nat → Terminal → Prop} {n : Nat} {p q : Parser} {s : Step}
  {r : Run} {rs : List Run} {moves : List Move} {fuel fuel' limit : Nat}

/-! ### Single calls -/

/-- More fuel than suffices makes no difference. -/
lemma go_mono (h : p.go fuel moves = some r) (hle : fuel ≤ fuel') :
    p.go fuel' moves = some r := by
  induction fuel generalizing p moves fuel' with
  | zero => exact absurd h (by simp [go])
  | succ fuel ih =>
    obtain ⟨k, rfl⟩ : ∃ k, fuel' = k + 1 := ⟨fuel' - 1, by omega⟩
    rw [go] at h ⊢
    split at h
    · exact h
    · dsimp only at h ⊢
      split at h
      · exact h
      · exact ih h (by omega)

lemma proceed_mono (h : p.proceed fuel = some r) (hle : fuel ≤ fuel') :
    p.proceed fuel' = some r := by
  rw [proceed] at h ⊢
  by_cases hu : p.unrecoverable = true
  · rwa [if_pos hu] at h ⊢
  · rw [if_neg hu] at h ⊢
    exact go_mono h hle

/-- A step without an error is not fatal. -/
lemma step_unrecoverable (h : p.step = some s) (he : s.error = none) :
    s.parser.unrecoverable = p.unrecoverable := by
  rcases step_cases h with ⟨e, l, -, -, herror, -⟩ | ⟨t, p', e, hpeek, hacts, herror⟩
  · exact absurd (herror.symm.trans he) (by simp)
  · obtain rfl : e = none := Option.map_eq_none_iff.mp (herror.symm.trans he)
    exact hacts.unrecoverable_eq.trans hpeek.unchanged.2.2

/-- A step that meets an error is the last one. -/
lemma go_of_error {e : ParseError} (hs : p.step = some s) (he : s.error = some e)
    (moves : List Move) :
    ∃ r, p.go 1 moves = some r ∧ r.outcome = .error e := by
  have hgo : p.go 1 moves =
      some ⟨s.parser, (s.moves.reverse ++ moves).reverse, .error e⟩ := by
    simp only [go, hs, he]
  exact ⟨_, hgo, rfl⟩

/-- After any other step things go on. -/
lemma go_of_step (hs : p.step = some s) (he : s.error = none)
    (h : s.parser.go fuel (s.moves.reverse ++ moves) = some r) :
    p.go (fuel + 1) moves = some r := by
  simp only [go, hs, he]
  exact h

lemma go_of_stack_eq_nil (h : p.stack = []) (moves : List Move) :
    ∃ r, p.go 1 moves = some r ∧ r.outcome = .ok () := by
  have hgo : p.go 1 moves = some ⟨p, moves.reverse, .ok ()⟩ := by
    rw [go, step_eq_none_iff.mpr h]
  exact ⟨_, hgo, rfl⟩

/-- If the steps come to an end, there is a result. -/
lemma exists_go (hp : Acc Goes p) (hu : p.unrecoverable = false) (moves : List Move) :
    ∃ fuel r, p.go fuel moves = some r := by
  induction hp generalizing moves with
  | intro p _ ih =>
    cases hs : p.step with
    | none =>
      obtain ⟨r, hr, -⟩ := go_of_stack_eq_nil (step_eq_none_iff.mp hs) moves
      exact ⟨1, r, hr⟩
    | some s =>
      cases he : s.error with
      | some e =>
        obtain ⟨r, hr, -⟩ := go_of_error hs he moves
        exact ⟨1, r, hr⟩
      | none =>
        have hu' := (step_unrecoverable hs he).trans hu
        obtain ⟨fuel, r, hr⟩ := ih s.parser ⟨hu, s, hs, rfl⟩ hu' (s.moves.reverse ++ moves)
        exact ⟨fuel + 1, r, go_of_step hs he hr⟩

/-- The result of a call is reached by steps, at least one if there is an error. -/
lemma go_steps (h : p.go fuel moves = some r) (hu : p.unrecoverable = false) :
    r.outcome = .ok () ∧ Relation.ReflTransGen Goes r.parser p ∨
      Relation.TransGen Goes r.parser p := by
  induction fuel generalizing p moves with
  | zero => exact absurd h (by simp [go])
  | succ fuel ih =>
    rw [go] at h
    split at h
    · obtain rfl := Option.some.inj h
      exact .inl ⟨rfl, .refl⟩
    · next s hs =>
      have hgoes : Goes s.parser p := ⟨hu, s, hs, rfl⟩
      dsimp only at h
      split at h
      · obtain rfl := Option.some.inj h
        exact .inr (.single hgoes)
      · next he =>
        have hu' := (step_unrecoverable hs he).trans hu
        rcases ih h hu' with ⟨-, hsteps⟩ | hsteps
        · exact .inr (Relation.TransGen.tail' hsteps hgoes)
        · exact .inr (hsteps.tail hgoes)

lemma proceed_steps (h : p.proceed fuel = some r) : Relation.ReflTransGen Goes r.parser p := by
  rw [proceed] at h
  split at h
  · obtain rfl := Option.some.inj h
    exact .refl
  · next hu =>
    rcases go_steps h (by simpa using hu) with ⟨-, hsteps⟩ | hsteps
    · exact hsteps
    · exact hsteps.to_reflTransGen

/-- What single steps preserve is preserved by several of them. -/
lemma steps_induction {motive : Parser → Prop} (h : Relation.ReflTransGen Goes q p)
    (start : motive p) (step : ∀ p s, motive p → p.step = some s → motive s.parser) :
    motive q := by
  induction h using Relation.ReflTransGen.head_induction_on with
  | refl => exact start
  | head hgoes _ ih =>
    obtain ⟨-, s, hs, rfl⟩ := hgoes
    exact step _ s ih hs

/-- What steps preserve is preserved by a call. -/
lemma proceed_induction {motive : Parser → Prop} (h : p.proceed fuel = some r) (start : motive p)
    (step : ∀ p s, motive p → p.step = some s → motive s.parser) : motive r.parser :=
  steps_induction (proceed_steps h) start step

/-- The error that ends a call is that of one of its steps. -/
lemma exists_step_of_go_error {x : ParseError} (h : p.go fuel moves = some r)
    (hu : p.unrecoverable = false) (hx : r.outcome = .error x) :
    ∃ q s, Relation.ReflTransGen Goes q p ∧ q.step = some s ∧ s.error = some x := by
  induction fuel generalizing p moves with
  | zero => exact absurd h (by simp [go])
  | succ fuel ih =>
    rw [go] at h
    split at h
    · obtain rfl := Option.some.inj h
      exact absurd hx (by simp)
    · next s hs =>
      dsimp only at h
      split at h
      · next y hy =>
        obtain rfl := Option.some.inj h
        obtain rfl := Except.error.inj hx
        exact ⟨p, s, .refl, hs, hy⟩
      · next he =>
        obtain ⟨q, s', hsteps, hs'⟩ := ih h ((step_unrecoverable hs he).trans hu)
        exact ⟨q, s', hsteps.tail ⟨hu, s, hs, rfl⟩, hs'⟩

/-- Steps keep a parser valid. -/
lemma Valid.goes (hp : p.Valid P F n) (h : Goes q p) : q.Valid P F n := by
  obtain ⟨-, s, hs, rfl⟩ := h
  rcases step_cases hs with ⟨e, l, -, hnext, -, hq⟩ | ⟨t, p', e, hpeek, hacts, -⟩
  · rw [hq]
    exact ⟨hp.decides, hp.avoids, (Lexer.next_error hnext).1 ▸ hp.ordinary, hp.stack,
      hp.lookahead⟩
  · exact (hp.peeks hpeek).acts hpeek.lookahead_eq hacts

lemma Valid.steps (hp : p.Valid P F n) (h : Relation.ReflTransGen Goes q p) : q.Valid P F n := by
  induction h using Relation.ReflTransGen.head_induction_on with
  | refl => exact hp
  | head h _ ih => exact ih.goes h

lemma exists_proceed (hp : p.Valid P F n) : ∃ fuel r, p.proceed fuel = some r := by
  simp only [proceed]
  cases hu : p.unrecoverable with
  | true => exact ⟨0, _, rfl⟩
  | false => exact exists_go hp.acc hu []

/-! ### Repeated calls -/

/-- The states that calls of `proceed` lead to. -/
def Reaches : Parser → Parser → Prop :=
  Relation.ReflTransGen fun p q => ∃ fuel r, p.proceed fuel = some r ∧ r.parser = q

lemma Valid.reaches (hp : p.Valid P F n) (h : p.Reaches q) : q.Valid P F n := by
  induction h with
  | refl => exact hp
  | tail _ h ih =>
    obtain ⟨fuel, r, hr, rfl⟩ := h
    exact ih.steps (proceed_steps hr)

lemma runs_mono (h : p.runs fuel limit = some rs) (hle : fuel ≤ fuel') :
    p.runs fuel' limit = some rs := by
  induction limit generalizing p rs with
  | zero => exact h
  | succ limit ih =>
    obtain ⟨r, hr, h⟩ := Option.bind_eq_some_iff.mp h
    refine Option.bind_eq_some_iff.mpr ⟨r, proceed_mono hr hle, ?_⟩
    split at h
    · next hfinal => rwa [if_pos hfinal]
    · next hfinal =>
      obtain ⟨rs', hrs', rfl⟩ := Option.map_eq_some_iff.mp h
      rw [if_neg hfinal]
      exact Option.map_eq_some_iff.mpr ⟨rs', ih hrs', rfl⟩

/-- Each of the calls is one of a parser that steps lead to. -/
lemma exists_proceed_of_mem (h : p.runs fuel limit = some rs) (hr : r ∈ rs) :
    ∃ q, Relation.ReflTransGen Goes q p ∧ q.proceed fuel = some r := by
  induction limit generalizing p rs with
  | zero =>
    obtain rfl : [] = rs := Option.some.inj h
    exact absurd hr (by simp)
  | succ limit ih =>
    obtain ⟨first, hfirst, h⟩ := Option.bind_eq_some_iff.mp h
    split at h
    · obtain rfl : [first] = rs := Option.some.inj h
      obtain rfl := List.mem_singleton.mp hr
      exact ⟨p, .refl, hfirst⟩
    · obtain ⟨rest, hrest, rfl⟩ := Option.map_eq_some_iff.mp h
      rcases List.mem_cons.mp hr with rfl | hr
      · exact ⟨p, .refl, hfirst⟩
      · obtain ⟨q, hsteps, hproceed⟩ := ih hrest hr
        exact ⟨q, hsteps.trans (proceed_steps hfirst), hproceed⟩

/-- What steps preserve is preserved by each of the calls. -/
lemma runs_induction {motive : Parser → Prop} (h : p.runs fuel limit = some rs) (start : motive p)
    (step : ∀ p s, motive p → p.step = some s → motive s.parser) :
    ∀ r ∈ rs, motive r.parser := by
  intro r hr
  obtain ⟨q, hsteps, hproceed⟩ := exists_proceed_of_mem h hr
  exact proceed_induction hproceed (steps_induction hsteps start step) step

/-- The calls come to an end with a final one. -/
lemma exists_runs (hp : p.Valid P F n) : ∃ fuel limit rs r,
    p.runs fuel limit = some rs ∧ rs.getLast? = some r ∧ r.isFinal = true := by
  induction hp.acc.transGen with
  | intro p _ ih =>
    obtain ⟨fuel, r, hr⟩ := exists_proceed hp
    by_cases hfinal : r.isFinal = true
    · exact ⟨fuel, 1, [r], r, by simp [runs, hr], rfl, hfinal⟩
    · -- the call has met an error, so it has made a step
      have hsteps : Relation.TransGen Goes r.parser p := by
        rw [proceed] at hr
        split at hr
        · next hu =>
          obtain rfl := Option.some.inj hr
          exact absurd hu (by simpa [Run.isFinal] using hfinal)
        · next hu =>
          rcases go_steps hr (by simpa using hu) with ⟨hok, -⟩ | hsteps
          · exact absurd (by rw [Run.isFinal, hok]) hfinal
          · exact hsteps
      obtain ⟨fuel', limit, rs, r', hrs, hlast, hfinal'⟩ :=
        ih r.parser hsteps (hp.steps hsteps.to_reflTransGen)
      have hr' := proceed_mono hr (Nat.le_max_left fuel fuel')
      have hrs' := runs_mono hrs (Nat.le_max_right fuel fuel')
      refine ⟨max fuel fuel', limit + 1, r :: rs, r', ?_, ?_, hfinal'⟩
      · simp [runs, hr', hrs', hfinal]
      · simp [List.getLast?_cons, hlast]

end Parser

/-- **Parsing ends, and so does resuming it.**  In every state that is reached by calls of
`proceed` on a source, the next call has a result, and further calls come to one that recognises
the source or meets an error that cannot be recovered from. -/
theorem Grammar.exists_proceed_and_runs {g : Grammar} {fuel : Nat} {c : Compilation}
    {table : Table} {source : String} {p : Parser} (hg : g.WellFormed)
    (hend : g.ruleSet.Avoids .endOfInput) (h : g.compile fuel = some c)
    (hc : c.result = .ok table)
    (hp : (Parser.ofSource table.predictor Sql.lexicon source).Reaches p) :
    (∃ n r, p.proceed n = some r) ∧
      ∃ n limit rs r, p.runs n limit = some rs ∧ rs.getLast? = some r ∧ r.isFinal = true := by
  have hvalid := (Parser.valid_ofSource (decides_compile hg h hc)
    (avoids_compile hg h hc hend) Sql.ordinary_lexicon source).reaches hp
  exact ⟨Parser.exists_proceed hvalid, Parser.exists_runs hvalid⟩

/-- Parsing a statement of SQL with two mistakes ends. -/
theorem Sql.exists_runs_of_mistakes : ∃ g c table,
    Sql.grammar = .ok g ∧ g.compile 60 = some c ∧ c.result = .ok table ∧
      ∃ n limit rs r,
        (Parser.ofSource table.predictor Sql.lexicon "SELECT FROM ; , t").runs n limit = some rs ∧
          rs.getLast? = some r ∧ r.isFinal = true := by
  obtain ⟨g, c, table, hgrammar, hg, hend, h, hc⟩ := Sql.exists_table
  exact ⟨g, c, table, hgrammar, h, hc,
    (Grammar.exists_proceed_and_runs hg hend h hc Relation.ReflTransGen.refl).2⟩

end LL1
