/-
# Opening a parser again

A machine keeps more than a `Parser`: the characters that it has put back, the states of its
automata, and the token that it has taken and not used.  Still it answers all calls as a parser
does, step by step.  A parser that is opened again is as new, so whatever a machine was asked
before it was opened on another source, and however that ended, it answers from then on like a
machine that has never read anything else.
-/
import LL1.Parsing.Machine
import LL1.Proofs.LifeCycle
import LL1.Proofs.Scanning

namespace LL1

/-! ### Machines that do what parsers do -/

namespace Machine

variable {m m' : Machine} {l : Lexer} {t : Token} {e : LexError} {read : List Move}

/-- The parser that reads from a lexer what the machine reads from its scanner. -/
def parser (m : Machine) (l : Lexer) : Parser :=
  ⟨m.predictor, l, m.stack, m.lookahead, m.unrecoverable⟩

/-- A machine takes the token that a parser looks at. -/
lemma peek_of_fetch (h : m.scanner.Shows l) (hfetch : m.fetch = (.ok t, read, m')) :
    ∃ l', m'.scanner.Shows l' ∧ m'.lookahead = none ∧
      (m.parser l).peek = (.ok t, read, { m'.parser l' with lookahead := some t }) := by
  obtain ⟨hresult, hshows⟩ := h.next
  rw [fetch] at hfetch
  split at hfetch
  · next u hu =>
    obtain ⟨ht, hread⟩ := Prod.mk.inj hfetch
    obtain ⟨rfl, rfl⟩ := Prod.mk.inj hread
    obtain rfl := Except.ok.inj ht
    refine ⟨l, h, rfl, ?_⟩
    simp only [Parser.peek, parser, hu]
  · next hnone =>
    split at hfetch
    · next u scanner hnext =>
      obtain ⟨ht, hread⟩ := Prod.mk.inj hfetch
      obtain ⟨rfl, rfl⟩ := Prod.mk.inj hread
      obtain rfl := Except.ok.inj ht
      rw [hnext] at hresult hshows
      have hl : l.next = (.ok u, l.next.2) := Prod.ext hresult.symm rfl
      refine ⟨l.next.2, hshows, hnone, ?_⟩
      simp only [Parser.peek, parser, hnone]
      rw [hl]
    · exact absurd (Prod.mk.inj hfetch).1 (by simp)

lemma peek_of_fetch_error (h : m.scanner.Shows l) (hfetch : m.fetch = (.error e, read, m')) :
    ∃ l', m'.scanner.Shows l' ∧ read = [] ∧ (m.parser l).peek = (.error e, [], m'.parser l') := by
  obtain ⟨hresult, hshows⟩ := h.next
  rw [fetch] at hfetch
  split at hfetch
  · exact absurd (Prod.mk.inj hfetch).1 (by simp)
  · next hnone =>
    split at hfetch
    · exact absurd (Prod.mk.inj hfetch).1 (by simp)
    · next x scanner hnext =>
      obtain ⟨he, hread⟩ := Prod.mk.inj hfetch
      obtain ⟨rfl, rfl⟩ := Prod.mk.inj hread
      obtain rfl := Except.error.inj he
      rw [hnext] at hresult hshows
      have hl : l.next = (.error x, l.next.2) := Prod.ext hresult.symm rfl
      refine ⟨l.next.2, hshows, rfl, ?_⟩
      simp only [Parser.peek, parser, hnone]
      rw [hl]

/-- What a machine does about a token that it has taken is what a parser does about the token at
hand. -/
lemma act_of_meet (hm : m.lookahead = none) (l : Lexer) (top : Symbol Nat) (below : Phrase Nat)
    (t : Token) : ({ m.parser l with lookahead := some t } : Parser).act top below t =
      ((m.meet top below t).1, (m.meet top below t).2.1.parser l, (m.meet top below t).2.2) := by
  cases top with
  | terminal k =>
    simp only [Parser.act, meet]
    split
    · simp only [Parser.consume, parser, hm]
    · split
      · rfl
      · simp only [Parser.consume, parser, hm]
  | nonterminal i =>
    simp only [Parser.act, meet, parser]
    cases m.predictor.action i t.kind with
    | expand a => rfl
    | recover how =>
      cases how with
      | pop => rfl
      | scan => simp only [Parser.consume, hm]

lemma scanner_meet (m : Machine) (top : Symbol Nat) (below : Phrase Nat) (t : Token) :
    (m.meet top below t).2.1.scanner = m.scanner := by
  cases top with
  | terminal k =>
    simp only [meet]
    split
    · rfl
    · split <;> rfl
  | nonterminal i =>
    simp only [meet]
    cases m.predictor.action i t.kind with
    | expand a => rfl
    | recover how => cases how <;> rfl

/-- The machine has come to what the parser has come to. -/
def Shows (result : Machine × List Move × Except ParseError Unit) (r : Run) : Prop :=
  ∃ l, result.1.scanner.Shows l ∧ r = ⟨result.1.parser l, result.2.1, result.2.2⟩

lemma go_shows (h : m.scanner.Shows l) (fuel : Nat) (moves : List Move) :
    Option.Rel Shows (m.go fuel moves) ((m.parser l).go fuel moves) := by
  -- both make one step for a unit of fuel; which lexer the scanner shows changes with each of them
  induction fuel generalizing m l moves with
  | zero => exact .none
  | succ fuel ih =>
    rw [go, Parser.go]
    cases hm : m.stack with
    | nil =>
      rw [Parser.step_eq_none_iff.mpr hm]
      exact .some ⟨l, h, rfl⟩
    | cons top below =>
      have hstack : (m.parser l).stack = top :: below := hm
      rcases hfetch : m.fetch with ⟨e | t, read, m'⟩
      · obtain ⟨l', h', rfl, hpeek⟩ := peek_of_fetch_error h hfetch
        simp only [Parser.step, hstack, hpeek]
        exact .some ⟨l', h', rfl⟩
      · obtain ⟨l', h', hnone, hpeek⟩ := peek_of_fetch h hfetch
        have h'' : (m'.meet top below t).2.1.scanner.Shows l' := by rwa [scanner_meet]
        simp only [Parser.step, hstack, hpeek, act_of_meet hnone]
        generalize m'.meet top below t = meeting at h'' ⊢
        obtain ⟨move, m'', e⟩ := meeting
        have hmoves : (read ++ [move]).reverse ++ moves = move :: (read.reverse ++ moves) := by
          rw [List.reverse_append, List.reverse_singleton, List.append_assoc, List.singleton_append]
        rw [hmoves]
        cases e with
        | some e => exact .some ⟨l', h'', rfl⟩
        | none => exact ih h'' _

/-- A call of a machine ends as the call of a parser does. -/
lemma proceed_shows (h : m.scanner.Shows l) (fuel : Nat) :
    Option.Rel Shows (m.proceed fuel) ((m.parser l).proceed fuel) := by
  have hunrecoverable : (m.parser l).unrecoverable = m.unrecoverable := rfl
  rw [proceed, Parser.proceed, hunrecoverable]
  split
  · exact .some ⟨l, h, rfl⟩
  · exact go_shows h fuel []

end Machine

/-! ### Dialogues -/

namespace Dialogue

variable {σ τ ι α : Type} {f : σ → ι → Option (α × σ)} {f' : τ → ι → Option (α × τ)} {s : σ} {t : τ}

/-- The answers to a list of calls, if `f` gives the answer to a single call and the state after
that.  There are none if a call does not come to an end. -/
def answers (f : σ → ι → Option (α × σ)) : List ι → σ → Option (List α)
  | [], _ => some []
  | call :: calls, s => (f s call).bind fun (a, s) => (answers f calls s).map (a :: ·)

/-- Two systems answer alike if single answers are alike in related states and if these states are
related again. -/
lemma answers_eq {R : σ → τ → Prop} (h : R s t)
    (hR : ∀ s t, R s t → ∀ call,
      Option.Rel (fun x y => x.1 = y.1 ∧ R x.2 y.2) (f s call) (f' t call))
    (calls : List ι) : answers f calls s = answers f' calls t := by
  induction calls generalizing s t with
  | nil => rfl
  | cons call calls ih =>
    have hcall := hR s t h call
    rw [answers, answers]
    generalize f s call = x at hcall ⊢
    generalize f' t call = y at hcall ⊢
    cases hcall with
    | none => rfl
    | @some x y hxy =>
      obtain ⟨a, s⟩ := x
      obtain ⟨b, t⟩ := y
      obtain ⟨rfl, hst⟩ := hxy
      simp only [Option.bind_some, ih hst]

/-- Whatever the system that begins with a source `first` was asked before it is opened on another
source, it answers from then on like a system that begins with that source. -/
def Forgets (f : σ → ι → Option (α × σ)) (ofSource : String → σ) (reopen : String → ι)
    (opened : α) : Prop :=
  ∀ first history source calls, answers f (history ++ reopen source :: calls) (ofSource first) =
    (answers f history (ofSource first)).bind fun before =>
      (answers f calls (ofSource source)).map fun later => before ++ opened :: later

/-- If all states that a system comes to are as new when they are opened, it forgets. -/
lemma forgets_of_invariant {ofSource : String → σ} {reopen : String → ι} {opened : α}
    (I : σ → Prop) (hstart : ∀ source, I (ofSource source))
    (hstep : ∀ s, I s → ∀ call a s', f s call = some (a, s') → I s')
    (hopen : ∀ s, I s → ∀ source, f s (reopen source) = some (opened, ofSource source)) :
    Forgets f ofSource reopen opened := by
  intro first history source calls
  have hs := hstart first
  generalize ofSource first = s at hs
  -- it is the invariant that remains of the history
  induction history generalizing s with
  | nil => simp [answers, hopen s hs source]
  | cons call history ih =>
    rw [List.cons_append, answers, answers]
    cases hcall : f s call with
    | none => rfl
    | some x =>
      obtain ⟨a, s'⟩ := x
      simp only [Option.bind_some, ih s' (hstep s hs call a s' hcall)]
      cases answers f history s' with
      | none => rfl
      | some before => simp [Function.comp_def]

/-- A system that answers like another one forgets like it. -/
lemma Forgets.congr {ofSource : String → σ} {ofSource' : String → τ} {reopen : String → ι}
    {opened : α} (h : Forgets f' ofSource' reopen opened)
    (heq : ∀ source calls,
      answers f calls (ofSource source) = answers f' calls (ofSource' source)) :
    Forgets f ofSource reopen opened := by
  intro first history source calls
  rw [heq, heq, heq]
  exact h first history source calls

end Dialogue

/-! ### Dialogues with lexers -/

/-- Something that a lexer can be asked. -/
inductive Lexer.Call where
  /-- For the next result. -/
  | next
  /-- To begin with another source. -/
  | reopen (source : String)

/-- The result that a lexer answers with, unless it is opened, and the lexer then. -/
def Lexer.respond (l : Lexer) : Call → Option (Option (Except LexError Token) × Lexer)
  | .next => some (some l.next.1, l.next.2)
  | .reopen source => some (none, l.reopen source)

/-- The result that a scanner answers with, unless it is opened, and the scanner then. -/
def Scanner.respond (s : Scanner) : Lexer.Call → Option (Option (Except LexError Token) × Scanner)
  | .next => some (some s.next.1, s.next.2)
  | .reopen source => some (none, s.reopen source)

/-- **A scanner answers like a lexer**, whatever it is asked. -/
theorem Scanner.answers_eq (automata : List Automaton) (source : String)
    (calls : List Lexer.Call) :
    Dialogue.answers respond calls (ofSource automata source) =
      Dialogue.answers Lexer.respond calls
        (.ofSource (automata.map (·.toCategory)) source) := by
  refine Dialogue.answers_eq (shows_ofSource automata source) (fun s l h call => ?_) calls
  cases call with
  | next =>
    obtain ⟨hresult, hshows⟩ := h.next
    exact .some ⟨congrArg some hresult, hshows⟩
  | reopen source => exact .some ⟨rfl, h.reopen source⟩

lemma Lexer.forgets (lexicon : Lexicon) :
    Dialogue.Forgets respond (ofSource lexicon) .reopen none := by
  refine Dialogue.forgets_of_invariant (·.lexicon = lexicon) (fun _ => rfl) ?_ ?_
  · rintro l hl (_ | source) a l' h
    · obtain ⟨-, rfl⟩ := Prod.mk.inj (Option.some.inj h)
      exact l.lexicon_next.trans hl
    · obtain ⟨-, rfl⟩ := Prod.mk.inj (Option.some.inj h)
      exact hl
  · rintro l rfl source
    rfl

/-! ### Dialogues with parsers -/

/-- Something that a parser can be asked. -/
inductive Parser.Call where
  /-- To go on, with some fuel. -/
  | proceed (fuel : Nat)
  /-- To begin with another source. -/
  | reopen (source : String)
  /-- Whether the whole source has been recognised. -/
  | isAccepted
  /-- Whether an error was met that cannot be recovered from. -/
  | isUnrecoverable

/-- What a parser answers. -/
inductive Parser.Answer where
  /-- It has gone on, with these moves, and this is how it ended. -/
  | ended (moves : List Move) (outcome : Except ParseError Unit)
  /-- It has been opened. -/
  | opened
  /-- Yes or no. -/
  | flag (b : Bool)

/-- The answer of a parser, if the fuel suffices, and the parser then. -/
def Parser.respond (p : Parser) : Call → Option (Answer × Parser)
  | .proceed fuel => (p.proceed fuel).map fun r => (.ended r.moves r.outcome, r.parser)
  | .reopen source => some (.opened, p.reopen source)
  | .isAccepted => some (.flag p.isAccepted, p)
  | .isUnrecoverable => some (.flag p.unrecoverable, p)

/-- The answer of a machine, if the fuel suffices, and the machine then. -/
def Machine.respond (m : Machine) : Parser.Call → Option (Parser.Answer × Machine)
  | .proceed fuel => (m.proceed fuel).map fun (m, moves, outcome) => (.ended moves outcome, m)
  | .reopen source => some (.opened, m.reopen source)
  | .isAccepted => some (.flag m.isAccepted, m)
  | .isUnrecoverable => some (.flag m.unrecoverable, m)

/-- **A machine answers like a parser**, whatever it is asked. -/
theorem Machine.answers_eq (pr : Predictor) (automata : List Automaton) (source : String)
    (calls : List Parser.Call) :
    Dialogue.answers respond calls (ofSource pr automata source) =
      Dialogue.answers Parser.respond calls
        (.ofSource pr (automata.map (·.toCategory)) source) := by
  refine Dialogue.answers_eq (R := fun m p => ∃ l, m.scanner.Shows l ∧ p = m.parser l)
    ⟨_, Scanner.shows_ofSource automata source, rfl⟩ (fun m p hmp call => ?_) calls
  obtain ⟨l, h, rfl⟩ := hmp
  cases call with
  | proceed fuel =>
    have hproceed := proceed_shows h fuel
    rw [respond, Parser.respond]
    generalize m.proceed fuel = x at hproceed ⊢
    generalize (m.parser l).proceed fuel = r at hproceed ⊢
    cases hproceed with
    | none => exact .none
    | some hshows =>
      obtain ⟨l', h', rfl⟩ := hshows
      exact .some ⟨rfl, l', h', rfl⟩
  | reopen source => exact .some ⟨rfl, _, h.reopen source, rfl⟩
  | isAccepted => exact .some ⟨rfl, l, h, rfl⟩
  | isUnrecoverable => exact .some ⟨rfl, l, h, rfl⟩

lemma Parser.forgets (pr : Predictor) (lexicon : Lexicon) :
    Dialogue.Forgets respond (ofSource pr lexicon) .reopen .opened := by
  refine Dialogue.forgets_of_invariant (fun p => ∃ l, p.Lives pr lexicon l)
    (fun source => ⟨_, lives_ofLexer pr (.ofSource lexicon source)⟩) ?_ ?_
  · rintro p ⟨l, hp⟩ call a p' h
    cases call with
    | proceed fuel =>
      obtain ⟨r, hr, h⟩ := Option.map_eq_some_iff.mp h
      obtain ⟨-, rfl⟩ := Prod.mk.inj h
      exact ⟨l, hp.steps (proceed_steps hr)⟩
    | reopen source =>
      obtain ⟨-, rfl⟩ := Prod.mk.inj (Option.some.inj h)
      rw [hp.reopen_eq source]
      exact ⟨_, lives_ofLexer pr (.ofSource lexicon source)⟩
    | isAccepted | isUnrecoverable =>
      obtain ⟨-, rfl⟩ := Prod.mk.inj (Option.some.inj h)
      exact ⟨l, hp⟩
  · rintro p ⟨l, hp⟩ source
    rw [respond, hp.reopen_eq source]

/-- **Opening a parser or a lexer again forgets everything.**  Whatever the predictor is, whatever
the automata are and in which state, and whatever was asked before: from then on, the moves with
their tokens and places, the errors and the flags are those of a parser that has just been made, and
the results of a lexer are those of a new lexer.  This is so for the working state that a program
keeps, and for the parsers and lexers that stand for it. -/
theorem reopening_forgets (pr : Predictor) (automata : List Automaton) :
    Dialogue.Forgets Machine.respond (.ofSource pr automata) .reopen .opened ∧
    Dialogue.Forgets Parser.respond (.ofSource pr (automata.map (·.toCategory))) .reopen .opened ∧
    Dialogue.Forgets Scanner.respond (.ofSource automata) .reopen none ∧
    Dialogue.Forgets Lexer.respond (.ofSource (automata.map (·.toCategory))) .reopen none :=
  ⟨(Parser.forgets pr _).congr (Machine.answers_eq pr automata), Parser.forgets pr _,
    (Lexer.forgets _).congr (Scanner.answers_eq automata), Lexer.forgets _⟩

end LL1
