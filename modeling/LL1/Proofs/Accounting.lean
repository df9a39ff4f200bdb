/-
# What becomes of the tokens

Every token that the lexer delivers to a parser is matched with a terminal, or it is dropped: it is
refused in the place of a terminal, or passed over in the place of a nonterminal.  `Accounted` says
so of a part of a parser's work, from one state to another: the token at hand before and the tokens
delivered are those used, in the same order, and the token at hand afterwards.  It also follows the
stack, which derives the terminals matched and what is left of it, if a nonterminal that is given up
may be empty.  Both are shown for what is done with a token, and carried through steps, calls and
repeated calls.
-/
import LL1.Proofs.Range

namespace LL1

/-- The rules together with an empty alternative for each nonterminal in `U`. -/
def RuleSet.withEmpty {ν : Type} (P : RuleSet ν) (U : ν → Prop) : RuleSet ν :=
  fun n a => P n a ∨ U n ∧ a = []

/-! ### What moves do with tokens -/

namespace Move

/-- The token that comes from the lexer in a move. -/
def delivered? : Move → Option Token
  | read t => some t
  | _ => none

/-- The token that is matched in a move. -/
def matched? : Move → Option Token
  | matched t => some t
  | _ => none

/-- The token that is dropped in a move, because another terminal is expected or because it is
passed over in the place of a nonterminal. -/
def dropped? : Move → Option Token
  | refused e => some e.token
  | recovered .scan e => some e.token
  | _ => none

/-- The token that is used up in a move, matched or dropped. -/
def used? (m : Move) : Option Token := m.matched?.or m.dropped?

/-- The name of the nonterminal that is given up in a move. -/
def popped? : Move → Option String
  | recovered .pop (.unexpected _ name) => some name
  | _ => none

end Move

/-- The tokens that are dropped in a run. -/
def Run.dropped (r : Run) : List Token := r.moves.filterMap Move.dropped?

/-- The names of the nonterminals that are given up in a run. -/
def Run.popped (r : Run) : List String := r.moves.filterMap Move.popped?

/-- A lexer delivers the tokens one after the other and is in the second state then. -/
inductive Lexer.Delivers : Lexer → List Token → Lexer → Prop
  | nil (l : Lexer) : Delivers l [] l
  | cons {l l' l'' : Lexer} {t : Token} {ts : List Token} :
      l.next = (.ok t, l') → Delivers l' ts l'' → Delivers l (t :: ts) l''

lemma Lexer.Delivers.append {l l' l'' : Lexer} {ts us : List Token} (h : l.Delivers ts l')
    (h' : l'.Delivers us l'') : l.Delivers (ts ++ us) l'' := by
  induction h with
  | nil l => exact h'
  | cons hnext _ ih => exact .cons hnext (ih h')

/-- The error that a run reports. -/
def Run.error? (r : Run) : Option ParseError :=
  match r.outcome with
  | .ok _ => none
  | .error e => some e

/-- An error is reported with the tokens that are dropped and the nonterminals that are given up: it
is about a single token that is dropped, or about a single nonterminal that is given up. -/
inductive Reports : Option ParseError → List Token → List String → Prop
  | nothing : Reports none [] []
  | dropped (e : SyntaxError) : Reports (some (.syntactic e)) [e.token] []
  | popped (t : Token) (name : String) : Reports (some (.syntactic (.unexpected t name))) [] [name]

namespace Parser

variable {P : RuleSet Nat} {p p' q r : Parser} {t : Token} {moves moves' : List Move} {m : Move}
  {e : Option SyntaxError} {st : Step} {run : Run} {rs : List Run} {fuel limit : Nat}
  {top : Symbol Nat} {below : Phrase Nat}

/-- What the parser has done from `p` to `q`. -/
structure Accounted (P : RuleSet Nat) (p : Parser) (moves : List Move) (q : Parser) : Prop where
  predictor_eq : q.predictor = p.predictor
  delivers : p.lexer.Delivers (moves.filterMap Move.delivered?) q.lexer
  balance : p.lookahead.toList ++ moves.filterMap Move.delivered? =
    moves.filterMap Move.used? ++ q.lookahead.toList
  derives : P.Derives p.stack
    ((moves.filterMap Move.matched?).map (.terminal ·.kind) ++ q.stack)

namespace Accounted

lemma refl (P : RuleSet Nat) (p : Parser) : Accounted P p [] p :=
  ⟨rfl, .nil _, by simp, .refl⟩

lemma trans (h : Accounted P p moves q) (h' : Accounted P q moves' r) :
    Accounted P p (moves ++ moves') r where
  predictor_eq := h'.predictor_eq.trans h.predictor_eq
  delivers := by
    rw [List.filterMap_append]
    exact h.delivers.append h'.delivers
  balance := by
    rw [List.filterMap_append, List.filterMap_append, ← List.append_assoc, h.balance,
      List.append_assoc, h'.balance, List.append_assoc]
  derives := by
    rw [List.filterMap_append, List.map_append, List.append_assoc]
    exact h.derives.trans (h'.derives.append_left _)

end Accounted

/-! ### Steps -/

/-- The rules allow what the predictor expands, and the nonterminals given up may be empty. -/
structure Allows (P : RuleSet Nat) (pr : Predictor) (popped : List String) : Prop where
  expand : ∀ i k a, pr.action i k = .expand a → P i (pr.alternative i a)
  empty : ∀ i, pr.name i ∈ popped → P i []

lemma Allows.mono {pr : Predictor} {popped popped' : List String} (h : Allows P pr popped)
    (hsub : popped' ⊆ popped) : Allows P pr popped' :=
  ⟨h.expand, fun i hi => h.empty i (hsub hi)⟩

/-- A token that is taken from the lexer is at hand then, and nothing is dropped or given up. -/
lemma accounted_peek (h : p.peek = (.ok t, moves, p')) :
    (∀ P, Accounted P p moves p') ∧ moves.filterMap Move.dropped? = [] ∧
      moves.filterMap Move.popped? = [] := by
  rw [peek] at h
  split at h
  · simp only [Prod.mk.injEq, Except.ok.injEq] at h
    obtain ⟨-, rfl, rfl⟩ := h
    exact ⟨fun P => .refl P p, rfl, rfl⟩
  · next hnone =>
    split at h
    · next t' l hnext =>
      simp only [Prod.mk.injEq, Except.ok.injEq] at h
      obtain ⟨rfl, rfl, rfl⟩ := h
      refine ⟨fun P => ⟨rfl, .cons hnext (.nil _), ?_, .refl⟩, rfl, rfl⟩
      simp [hnone, Move.delivered?, Move.used?, Move.matched?, Move.dropped?]
    · simp at h

/-- What is done with the token at hand uses it or leaves it at hand, unless that is fatal. -/
lemma accounted_act (hstack : p.stack = top :: below) (ht : p.lookahead = some t)
    (hact : p.act top below t = (m, q, e)) (hq : q.unrecoverable = false) :
    (∀ P, Allows P p.predictor ([m].filterMap Move.popped?) → Accounted P p [m] q) ∧
      Reports (e.map .syntactic) ([m].filterMap Move.dropped?) ([m].filterMap Move.popped?) := by
  cases top with
  | terminal k =>
    rw [act] at hact
    split at hact
    · next hk =>
      obtain ⟨rfl, rfl, rfl⟩ : Move.matched t = m ∧ _ = q ∧ _ = e := by simpa using hact
      refine ⟨fun P _ => ⟨rfl, .nil _, ?_, ?_⟩, .nothing⟩
      · simp [ht, consume, Move.delivered?, Move.used?, Move.matched?]
      · rw [hstack, hk]
        exact .refl
    · dsimp only at hact
      split at hact
      · -- the end of the source is not dropped
        obtain ⟨-, rfl, -⟩ : Move.refused _ = m ∧ _ = q ∧ _ = e := by simpa using hact
        exact absurd hq (by simp)
      · obtain ⟨rfl, rfl, rfl⟩ : Move.refused _ = m ∧ _ = q ∧ _ = e := by simpa using hact
        refine ⟨fun P _ => ⟨rfl, .nil _, ?_, .refl⟩, .dropped _⟩
        simp [ht, consume, Move.delivered?, Move.used?, Move.matched?, Move.dropped?,
          SyntaxError.token]
  | nonterminal i =>
    rw [act] at hact
    split at hact
    · next a ha =>
      obtain ⟨rfl, rfl, rfl⟩ : Move.expanded i a t = m ∧ _ = q ∧ _ = e := by simpa using hact
      refine ⟨fun P hP => ⟨rfl, .nil _, ?_, ?_⟩, .nothing⟩
      · simp [Move.delivered?, Move.used?, Move.matched?, Move.dropped?]
      · rw [hstack]
        exact .head_alternative (hP.expand i t.kind a ha) .refl
    · next how _ =>
      cases how with
      | pop =>
        obtain ⟨rfl, rfl, rfl⟩ : Move.recovered .pop _ = m ∧ _ = q ∧ _ = e := by simpa using hact
        refine ⟨fun P hP => ⟨rfl, .nil _, ?_, ?_⟩, .popped _ _⟩
        · simp [Move.delivered?, Move.used?, Move.matched?, Move.dropped?]
        · rw [hstack]
          exact .head_alternative (hP.empty i (by simp [Move.popped?])) .refl
      | scan =>
        obtain ⟨rfl, rfl, rfl⟩ : Move.recovered .scan _ = m ∧ _ = q ∧ _ = e := by simpa using hact
        refine ⟨fun P _ => ⟨rfl, .nil _, ?_, .refl⟩, .dropped _⟩
        simp [ht, consume, Move.delivered?, Move.used?, Move.matched?, Move.dropped?,
          SyntaxError.token]

/-- A failure to get a token is fatal. -/
lemma unrecoverable_of_peek {x : LexError} (h : p.peek = (.error x, moves, q)) :
    q.unrecoverable = true := by
  rw [peek] at h
  split at h
  · simp at h
  · split at h
    · simp at h
    · simp only [Prod.mk.injEq] at h
      obtain ⟨-, -, rfl⟩ := h
      rfl

/-- **A step is accounted for**, unless it is fatal. -/
lemma accounted_step (h : p.step = some st) (hq : st.parser.unrecoverable = false) :
    (∀ P, Allows P p.predictor (st.moves.filterMap Move.popped?) →
        Accounted P p st.moves st.parser) ∧
      Reports st.error (st.moves.filterMap Move.dropped?) (st.moves.filterMap Move.popped?) := by
  rw [step] at h
  split at h
  · simp at h
  · next top below hstack =>
    split at h
    · next x read p' hpeek =>
      obtain rfl := Option.some.inj h
      have hfatal : p'.unrecoverable = true := unrecoverable_of_peek hpeek
      exact absurd (hfatal.symm.trans hq) (by simp)
    · next t read p' hpeek =>
      obtain rfl := Option.some.inj h
      obtain ⟨hread, hdropped, hpopped⟩ := accounted_peek hpeek
      have hpeeks : p.Peeks t p' := ⟨read, hpeek⟩
      obtain ⟨hpredictor, hstack', -⟩ := hpeeks.unchanged
      obtain ⟨hact, hreports⟩ :=
        accounted_act (hstack'.trans hstack) hpeeks.lookahead_eq rfl hq
      dsimp only
      rw [List.filterMap_append, List.filterMap_append, hdropped, hpopped, List.nil_append,
        List.nil_append]
      refine ⟨fun P hP => ?_, hreports⟩
      rw [← hpredictor] at hP
      exact (hread P).trans (hact P hP)

/-! ### Calls -/

/-- A call is accounted for, unless it is fatal. -/
lemma accounted_go (h : p.go fuel moves = some run) (hp : p.unrecoverable = false)
    (hrun : run.outcome = .ok () ∨ run.parser.unrecoverable = false) :
    ∃ more, run.moves = moves.reverse ++ more ∧
      (∀ P, Allows P p.predictor (more.filterMap Move.popped?) → Accounted P p more run.parser) ∧
      Reports run.error? (more.filterMap Move.dropped?) (more.filterMap Move.popped?) := by
  induction fuel generalizing p moves with
  | zero => simp [go] at h
  | succ fuel ih =>
    rw [go] at h
    split at h
    · obtain rfl := Option.some.inj h
      exact ⟨[], by simp, fun P _ => .refl P p, .nothing⟩
    · next s hs =>
      dsimp only at h
      split at h
      · next x hx =>
        obtain rfl := Option.some.inj h
        have hq : s.parser.unrecoverable = false := hrun.resolve_left (by simp)
        obtain ⟨hstep, hreports⟩ := accounted_step hs hq
        rw [hx] at hreports
        exact ⟨s.moves, by simp, hstep, hreports⟩
      · next hnone =>
        have hq : s.parser.unrecoverable = false := (step_unrecoverable hs hnone).trans hp
        obtain ⟨hstep, hreports⟩ := accounted_step hs hq
        obtain ⟨more, hmoves, hmore, hreports'⟩ := ih h hq
        -- a step without an error drops nothing and gives nothing up
        rw [hnone] at hreports
        generalize hdropped : s.moves.filterMap Move.dropped? = dropped at hreports
        generalize hpopped : s.moves.filterMap Move.popped? = popped at hreports hstep
        obtain _ | _ | _ := hreports
        refine ⟨s.moves ++ more, by simp [hmoves], fun P hP => ?_, ?_⟩
        · rw [List.filterMap_append, hpopped, List.nil_append] at hP
          have hfirst : Accounted P p s.moves s.parser := hstep P (hP.mono (List.nil_subset _))
          rw [← hfirst.predictor_eq] at hP
          exact hfirst.trans (hmore P hP)
        · rw [List.filterMap_append, List.filterMap_append, hdropped, hpopped]
          exact hreports'

lemma accounted_proceed (h : p.proceed fuel = some run)
    (hrun : run.outcome = .ok () ∨ run.parser.unrecoverable = false) :
    (∀ P, Allows P p.predictor run.popped → Accounted P p run.moves run.parser) ∧
      Reports run.error? run.dropped run.popped := by
  rw [proceed] at h
  split at h
  · next hu =>
    obtain rfl := Option.some.inj h
    simp [hu] at hrun
  · next hu =>
    obtain ⟨more, hmoves, hmore, hreports⟩ := accounted_go h (by simpa using hu) hrun
    obtain rfl : run.moves = more := hmoves
    exact ⟨hmore, hreports⟩

/-- Calls up to one that recognises the source are accounted for. -/
lemma accounted_runs (h : p.runs fuel limit = some rs) (hlast : rs.getLast? = some run)
    (hok : run.outcome = .ok ()) :
    (∀ P, Allows P p.predictor (rs.flatMap Run.popped) →
        Accounted P p (rs.flatMap (·.moves)) run.parser) ∧
      ∀ r ∈ rs, Reports r.error? r.dropped r.popped := by
  induction limit generalizing p rs with
  | zero =>
    obtain rfl : [] = rs := Option.some.inj h
    simp at hlast
  | succ limit ih =>
    obtain ⟨first, hfirst, h⟩ := Option.bind_eq_some_iff.mp h
    split at h
    · obtain rfl : [first] = rs := Option.some.inj h
      obtain rfl : first = run := by simpa using hlast
      obtain ⟨hcall, hreports⟩ := accounted_proceed hfirst (.inl hok)
      simpa using ⟨hcall, hreports⟩
    · next hfinal =>
      obtain ⟨rest, hrest, rfl⟩ := Option.map_eq_some_iff.mp h
      have hnotFinal : first.parser.unrecoverable = false := by
        rw [Run.isFinal] at hfinal
        split at hfinal
        · exact absurd rfl hfinal
        · simpa using hfinal
      cases rest with
      | nil =>
        -- the only call would be the last one, which is final
        obtain rfl : first = run := by simpa using hlast
        rw [Run.isFinal, hok] at hfinal
        exact absurd rfl hfinal
      | cons second rest =>
        obtain ⟨hcall, hreports⟩ := accounted_proceed hfirst (.inr hnotFinal)
        obtain ⟨hmore, hreports'⟩ := ih hrest (by simpa using hlast)
        refine ⟨fun P hP => ?_, List.forall_mem_cons.mpr ⟨hreports, hreports'⟩⟩
        rw [List.flatMap_cons] at hP ⊢
        have hhead : Accounted P p first.moves first.parser :=
          hcall P (hP.mono (List.subset_append_left _ _))
        have htail := hP.mono (List.subset_append_right first.popped _)
        rw [← hhead.predictor_eq] at htail
        exact hhead.trans (hmore P htail)

/-! ### The end of the source -/

/-- The end of the source is the last symbol that is expected.  When it has been found and nothing
is expected any more, no token is left at hand. -/
def AwaitsEnd (p : Parser) : Prop :=
  (∃ γ, p.stack = γ ++ [.terminal .endOfInput]) ∨ p.stack = [] ∧ p.lookahead = none

lemma eq_append_end_of_cons {γ : Phrase Nat} (h : top :: below = γ ++ [.terminal .endOfInput]) :
    top = .terminal .endOfInput ∧ below = [] ∨ ∃ γ', below = γ' ++ [.terminal .endOfInput] := by
  cases γ with
  | nil => exact .inl (by simpa using h)
  | cons s γ => exact .inr ⟨γ, (List.cons.inj h).2⟩

/-- Below the symbol on top the end of the source is the last symbol, unless it is on top. -/
lemma AwaitsEnd.cons_cases (hp : p.AwaitsEnd) (hs : p.stack = top :: below) :
    top = .terminal .endOfInput ∧ below = [] ∨ ∃ γ, below = γ ++ [.terminal .endOfInput] := by
  rcases hp with ⟨γ, hγ⟩ | ⟨hnil, -⟩
  · exact eq_append_end_of_cons (hs.symm.trans hγ)
  · exact absurd (hs.symm.trans hnil) (by simp)

lemma AwaitsEnd.acts (hp : p.AwaitsEnd) (h : p.Acts t q e) : q.AwaitsEnd := by
  have hsame {top : Symbol Nat} {below : Phrase Nat} (hs : p.stack = top :: below) :
      ∃ γ, p.stack = γ ++ [.terminal .endOfInput] :=
    hp.resolve_right fun hnil => by simp [hs] at hnil
  cases h with
  | matched hs =>
    rcases hp.cons_cases hs with ⟨-, hbelow⟩ | hbelow
    · exact .inr ⟨hbelow, rfl⟩
    · exact .inl hbelow
  | stuck hs _ _ => exact .inl (hsame hs)
  | refused hs _ _ => exact .inl (hsame hs)
  | expanded hs _ =>
    rcases hp.cons_cases hs with ⟨htop, -⟩ | ⟨γ, rfl⟩
    · exact absurd htop (by simp)
    · exact .inl ⟨_, (List.append_assoc ..).symm⟩
  | popped hs _ =>
    rcases hp.cons_cases hs with ⟨htop, -⟩ | hbelow
    · exact absurd htop (by simp)
    · exact .inl hbelow
  | scanned hs _ => exact .inl (hsame hs)

lemma AwaitsEnd.step (hp : p.AwaitsEnd) (h : p.step = some st) : st.parser.AwaitsEnd := by
  have hne : p.stack ≠ [] := fun hnil => by simp [step_eq_none_iff.mpr hnil] at h
  have hstack := hp.resolve_right fun hnil => hne hnil.1
  rcases step_cases h with ⟨x, l, -, -, -, hq⟩ | ⟨t, p', e, hpeek, hacts, -⟩
  · rw [hq]
    exact .inl hstack
  · have hp' : p'.AwaitsEnd := .inl (hpeek.unchanged.2.1 ▸ hstack)
    exact hp'.acts hacts

lemma awaitsEnd_ofLexer (pr : Predictor) (l : Lexer) : (ofLexer pr l).AwaitsEnd :=
  .inl ⟨[.nonterminal pr.start], rfl⟩

/-- After the last token nothing is left at hand, since it is the end of the source. -/
lemma AwaitsEnd.lookahead_eq_none (hp : p.AwaitsEnd) (h : p.stack = []) : p.lookahead = none := by
  rcases hp with ⟨γ, hγ⟩ | ⟨-, hnone⟩
  · exact absurd (hγ.symm.trans h) (by simp)
  · exact hnone

/-- When a source has been recognised, nothing is expected any more. -/
lemma stack_eq_nil_of_go (h : p.go fuel moves = some run) (hok : run.outcome = .ok ()) :
    run.parser.stack = [] := by
  induction fuel generalizing p moves with
  | zero => simp [go] at h
  | succ fuel ih =>
    rw [go] at h
    split at h
    · next hnone =>
      obtain rfl := Option.some.inj h
      exact step_eq_none_iff.mp hnone
    · dsimp only at h
      split at h
      · obtain rfl := Option.some.inj h
        simp at hok
      · exact ih h

lemma stack_eq_nil_of_runs (h : p.runs fuel limit = some rs) (hr : run ∈ rs)
    (hok : run.outcome = .ok ()) : run.parser.stack = [] := by
  obtain ⟨q, -, hproceed⟩ := exists_proceed_of_mem h hr
  rw [Parser.proceed] at hproceed
  split at hproceed
  · rw [← Option.some.inj hproceed] at hok
    simp at hok
  · exact stack_eq_nil_of_go hproceed hok

end Parser

/-! ### Recovering parsers of a table -/

namespace Table

variable {r : Rules} {s : FirstFollow} {table : Table} {l : Lexer} {rs : List Run} {last : Run}
  {fuel limit : Nat}

/-- The rules that the parsers of a table follow, if some nonterminals are given up: these may be
empty in addition to what the table's rules say. -/
def recoveringRules (table : Table) (popped : List String) : RuleSet Nat :=
  table.rules.ruleSet.withEmpty fun i => table.rules.name i ∈ popped

lemma allows_recoveringRules (h : ofRules r s = .ok table) (popped : List String) :
    Parser.Allows (table.recoveringRules popped) table.predictor popped where
  expand _ _ _ hact := .inl (ruleSet_of_expand h hact)
  empty _ hi := .inr ⟨hi, rfl⟩

/-- **Recovery is accounted for.**  When calls on a source come to an end because it is recognised,
the lexer has delivered exactly the tokens that were matched or dropped, in this order.  Each call
reports an error about the only token that it drops, or about the only nonterminal that it gives
up, or it drops nothing, gives nothing up and reports nothing.  What was matched is derived from
the start symbol and the end of the source by the rules together with an empty alternative of
each nonterminal that was given up. -/
theorem recovery_accounted (h : ofRules r s = .ok table)
    (hruns : (Parser.ofLexer table.predictor l).runs fuel limit = some rs)
    (hlast : rs.getLast? = some last) (hok : last.outcome = .ok ()) :
    (l.Delivers ((rs.flatMap (·.moves)).filterMap Move.used?) last.parser.lexer ∧
      (rs.flatMap (·.moves)).filterMap Move.delivered? =
        (rs.flatMap (·.moves)).filterMap Move.used? ∧
      ∀ r ∈ rs, Reports r.error? r.dropped r.popped) ∧
    (table.recoveringRules (rs.flatMap Run.popped)).Derives table.predictor.goal
      (((rs.flatMap (·.moves)).filterMap Move.matched?).map (.terminal ·.kind)) := by
  obtain ⟨haccounted, hreports⟩ := Parser.accounted_runs hruns hlast hok
  obtain ⟨-, hdelivers, hbalance, hderives⟩ :=
    haccounted _ (allows_recoveringRules h (rs.flatMap Run.popped))
  have hmem : last ∈ rs := List.mem_of_getLast? hlast
  have hstack : last.parser.stack = [] := Parser.stack_eq_nil_of_runs hruns hmem hok
  have hend : last.parser.AwaitsEnd :=
    Parser.runs_induction hruns (Parser.awaitsEnd_ofLexer _ l) (fun _ _ hp hs => hp.step hs) last
      hmem
  have hnone : last.parser.lookahead = none := hend.lookahead_eq_none hstack
  have hused : (rs.flatMap (·.moves)).filterMap Move.delivered? =
      (rs.flatMap (·.moves)).filterMap Move.used? := by
    simpa [hnone, Parser.ofLexer] using hbalance
  rw [hused] at hdelivers
  rw [hstack, List.append_nil] at hderives
  exact ⟨⟨hdelivers, hused, hreports⟩, hderives⟩

end Table

/-! ### Tokens that are reported twice -/

/-- Marks of a name: a star before it and a semicolon behind it, or only a comma behind it. -/
def markedName : Grammar where
  productions := [
    ⟨"mark", [[.terminal .star, .nonterminal "name", .terminal .semicolon],
      [.nonterminal "name", .terminal .comma]]⟩,
    ⟨"name", [[.terminal .identifier]]⟩]
  start := "mark"

/-- Without its name, the comma that follows a star stands in the place of the name, and then in
that of the semicolon. -/
lemma exists_runs_markedName : ∃ c table rs last t,
    markedName.compileUnchecked 3 = some c ∧ c.result = .ok table ∧
      (Parser.ofSource table.predictor Sql.lexicon "* , ;").runs 9 4 = some rs ∧
      rs.getLast? = some last ∧ last.outcome = .ok () ∧
      rs.map Run.error? = [some (.syntactic (.unexpected t "name")),
        some (.syntactic (.mismatch .semicolon t)), none] ∧
      rs.map Run.dropped = [[], [t], []] := by
  let comma : Token := ⟨.comma, ",", ⟨1, 3, 3⟩⟩
  obtain ⟨c, table, h, hc, htest⟩ :=
    exists_table_of_any (markedName.compileUnchecked 3)
      (fun table => ((Parser.ofSource table.predictor Sql.lexicon "* , ;").runs 9 4).any fun rs =>
        rs.getLast?.any (·.outcome = .ok ()) ∧
        rs.map Run.error? = [some (.syntactic (.unexpected comma "name")),
          some (.syntactic (.mismatch .semicolon comma)), none] ∧
        rs.map Run.dropped = [[], [comma], []]) (by decide +kernel)
  obtain ⟨rs, hrs, htest⟩ := (Option.any_eq_true _ _).mp htest
  obtain ⟨hlast, herrors, hdropped⟩ := of_decide_eq_true htest
  obtain ⟨last, hlast, hok⟩ := (Option.any_eq_true _ _).mp hlast
  exact ⟨c, table, rs, last, comma, h, hc, hrs, hlast, of_decide_eq_true hok, herrors, hdropped⟩

/-- The tokens of such a source are accounted for. -/
theorem Table.recovery_accounted_markedName : ∃ table rs last,
    Table.ofRules table.rules table.rules.firstFollow = .ok table ∧
    (Parser.ofSource table.predictor Sql.lexicon "* , ;").runs 9 4 = some rs ∧
    rs.getLast? = some last ∧ last.outcome = .ok () ∧
    (Lexer.ofSource Sql.lexicon "* , ;").Delivers
      ((rs.flatMap (·.moves)).filterMap Move.used?) last.parser.lexer ∧
    (table.recoveringRules (rs.flatMap Run.popped)).Derives table.predictor.goal
      (((rs.flatMap (·.moves)).filterMap Move.matched?).map (.terminal ·.kind)) := by
  obtain ⟨c, table, rs, last, -, h, hc, hruns, hlast, hok, -⟩ := exists_runs_markedName
  obtain ⟨-, -, -, htable⟩ := Grammar.compileUnchecked_eq_ok h hc
  obtain ⟨⟨hdelivers, -, -⟩, hderives⟩ := Table.recovery_accounted htable hruns hlast hok
  exact ⟨table, rs, last, htable, hruns, hlast, hok, hdelivers, hderives⟩

/-- **A token that is dropped can be named by two errors**: by that of its dropping, and before
that by one in which a nonterminal is given up, which leaves the token at hand. -/
theorem Table.exists_token_reported_twice : ∃ table rs last t,
    Table.ofRules table.rules table.rules.firstFollow = .ok table ∧
    (Parser.ofSource table.predictor Sql.lexicon "* , ;").runs 9 4 = some rs ∧
    rs.getLast? = some last ∧ last.outcome = .ok () ∧
    rs.flatMap Run.dropped = [t] ∧
    rs.filterMap Run.error? = [.syntactic (.unexpected t "name"),
      .syntactic (.mismatch .semicolon t)] := by
  obtain ⟨c, table, rs, last, t, h, hc, hruns, hlast, hok, herrors, hdropped⟩ :=
    exists_runs_markedName
  obtain ⟨-, -, -, htable⟩ := Grammar.compileUnchecked_eq_ok h hc
  have hflat : rs.flatMap Run.dropped = [t] := by
    rw [List.flatMap_def, hdropped]
    rfl
  have hreported : rs.filterMap Run.error? = [.syntactic (.unexpected t "name"),
      .syntactic (.mismatch .semicolon t)] := by
    have hmap : rs.filterMap Run.error? = (rs.map Run.error?).filterMap id := by simp
    rw [hmap, herrors]
    rfl
  exact ⟨table, rs, last, t, htable, hruns, hlast, hok, hflat, hreported⟩

end LL1
