/-
# Sources that begin further down

A lexer that stands some lines further down, in front of the same text, comes to the same results,
and the only difference is that they are further down by as many lines.  The same holds of a parser
that reads from it: neither what it does nor what it decides depends on where tokens stand, so that
its steps, its calls and the errors that they return are those of the other parser, moved down.
-/
import LL1.Parsing.Parser
import Mathlib.Tactic.Lemma

namespace LL1

/-! ### Places -/

namespace Position

/-- The place that is `k` lines further down, in the same column. -/
def down (p : Position) (k : Nat) : Position := { p with line := p.line + k }

lemma after_down (p : Position) (k : Nat) (c : Char) :
    (p.down k).after c = (p.after c).down k := by
  by_cases hc : c = '\n'
  · simp only [after, down, if_pos hc, Nat.add_right_comm]
  · simp only [after, down, if_neg hc]

lemma afterAll_down (p : Position) (k : Nat) (cs : List Char) :
    (p.down k).afterAll cs = (p.afterAll cs).down k := by
  induction cs generalizing p with
  | nil => rfl
  | cons c cs ih => rw [afterAll_cons, after_down, ih, afterAll_cons]

lemma line_after (p : Position) (c : Char) :
    (p.after c).line = p.line + if c = '\n' then 1 else 0 := by
  rw [after]
  split <;> rfl

/-- A text leads down by the number of its line ends. -/
lemma line_afterAll (p : Position) (cs : List Char) :
    (p.afterAll cs).line = p.line + cs.count '\n' := by
  induction cs generalizing p with
  | nil => rfl
  | cons c cs ih =>
    rw [afterAll_cons, ih, line_after, List.count_cons]
    simp only [beq_iff_eq]
    omega

/-- Behind a line end there is the beginning of a line. -/
lemma afterAll_append_newline (p : Position) (cs : List Char) :
    p.afterAll (cs ++ ['\n']) = ⟨p.line + (cs.count '\n' + 1), 1⟩ := by
  rw [afterAll_append, afterAll_cons, afterAll_nil, after, if_pos rfl, line_afterAll, Nat.add_assoc]

end Position

namespace Location

/-- The location that is `k` lines further down, in the same columns. -/
def down (l : Location) (k : Nat) : Location := { l with line := l.line + k }

lemma ofText_down (p : Position) (k : Nat) (cs : List Char) :
    ofText (p.down k) cs = (ofText p cs).down k := by
  simp only [ofText, Position.afterAll_down]
  simp only [Position.down, down, Nat.add_right_cancel_iff]

end Location

/-! ### Lexers -/

/-- The token, `k` lines further down. -/
def Token.down (t : Token) (k : Nat) : Token := { t with location := t.location.down k }

/-- The error, `k` lines further down. -/
def LexError.down (e : LexError) (k : Nat) : LexError := { e with location := e.location.down k }

namespace Lexer

/-- The result of a lexer, `k` lines further down. -/
def resultDown (k : Nat) : Except LexError Token → Except LexError Token
  | .ok t => .ok (t.down k)
  | .error e => .error (e.down k)

/-- The lexer in front of the same text, `k` lines further down. -/
def down (l : Lexer) (k : Nat) : Lexer := { l with position := l.position.down k }

lemma drop_down (l : Lexer) (k n : Nat) : (l.down k).drop n = (l.drop n).down k := by
  simp only [drop, down, Position.afterAll_down]

lemma skipBlanks_down (l : Lexer) (k : Nat) : (l.down k).skipBlanks = l.skipBlanks.down k :=
  l.drop_down k _

lemma read_down (l : Lexer) (k : Nat) :
    (l.down k).read = (resultDown k l.read.1, l.read.2.down k) := by
  have hrest : (l.down k).rest = l.rest := rfl
  have hlexicon : (l.down k).lexicon = l.lexicon := rfl
  have hposition : (l.down k).position = l.position.down k := rfl
  simp only [read, hrest, hlexicon, hposition, drop_down, Location.ofText_down]
  split
  · rfl
  · split <;> rfl

/-- **A lexer further down has the same results**, further down. -/
theorem next_down (l : Lexer) (k : Nat) :
    (l.down k).next = (resultDown k l.next.1, l.next.2.down k) := by
  rw [next, skipBlanks_down, read_down]
  rfl

end Lexer

/-! ### Parsers -/

/-- The error, `k` lines further down. -/
def SyntaxError.down (k : Nat) : SyntaxError → SyntaxError
  | mismatch expected found => mismatch expected (found.down k)
  | unexpected found nonterminal => unexpected (found.down k) nonterminal

/-- The error, `k` lines further down if it is about a place. -/
def ParseError.down (k : Nat) : ParseError → ParseError
  | lexical e => lexical (e.down k)
  | syntactic e => syntactic (e.down k)
  | aborted => aborted

/-- The move, `k` lines further down. -/
def Move.down (k : Nat) : Move → Move
  | read t => read (t.down k)
  | matched t => matched (t.down k)
  | expanded i a t => expanded i a (t.down k)
  | refused e => refused (e.down k)
  | recovered how e => recovered how (e.down k)

/-- The parser of the same text, `k` lines further down. -/
def Parser.down (k : Nat) (p : Parser) : Parser :=
  { p with lexer := p.lexer.down k, lookahead := p.lookahead.map (·.down k) }

/-- The step, `k` lines further down. -/
def Step.down (k : Nat) (s : Step) : Step :=
  ⟨s.parser.down k, s.moves.map (·.down k), s.error.map (·.down k)⟩

/-- The run, `k` lines further down. -/
def Run.down (k : Nat) (r : Run) : Run :=
  ⟨r.parser.down k, r.moves.map (·.down k), r.outcome.mapError (·.down k)⟩

namespace Parser

variable (k : Nat)

lemma peek_down (p : Parser) : (p.down k).peek =
    (Lexer.resultDown k p.peek.1, p.peek.2.1.map (·.down k), p.peek.2.2.down k) := by
  have hlookahead : (p.down k).lookahead = p.lookahead.map (·.down k) := rfl
  have hlexer : (p.down k).lexer = p.lexer.down k := rfl
  simp only [peek, hlookahead, hlexer, Lexer.next_down]
  cases hl : p.lookahead with
  | some t => rfl
  | none =>
    rcases p.lexer.next with ⟨e | t, l⟩
    · simp only [Lexer.resultDown, down, hl]
      rfl
    · rfl

/-- What is done with a token does not depend on where it stands. -/
lemma act_down (p : Parser) (top : Symbol Nat) (below : Phrase Nat) (t : Token) :
    (p.down k).act top below (t.down k) = ((p.act top below t).1.down k,
      (p.act top below t).2.1.down k, (p.act top below t).2.2.map (·.down k)) := by
  have hkind : (t.down k).kind = t.kind := rfl
  have hpredictor : (p.down k).predictor = p.predictor := rfl
  cases top with
  | terminal s =>
    simp only [act, hkind]
    split
    · rfl
    · split <;> rfl
  | nonterminal i =>
    simp only [act, hkind, hpredictor]
    split
    · rfl
    · split <;> rfl

lemma step_down (p : Parser) : (p.down k).step = p.step.map (·.down k) := by
  have hstack : (p.down k).stack = p.stack := rfl
  rw [step, step, hstack]
  cases p.stack with
  | nil => rfl
  | cons top below =>
    rw [peek_down]
    rcases p.peek with ⟨e | t, read, p'⟩
    · rfl
    · simp only [Lexer.resultDown, act_down, Option.map_some, Step.down, List.map_append,
        List.map_singleton, Option.map_map]
      rfl

lemma go_down (fuel : Nat) (p : Parser) (moves : List Move) :
    (p.down k).go fuel (moves.map (·.down k)) = (p.go fuel moves).map (·.down k) := by
  induction fuel generalizing p moves with
  | zero => rfl
  | succ fuel ih =>
    rw [go, go, step_down]
    cases p.step with
    | none =>
      simp only [Option.map_some, Run.down, List.map_reverse]
      rfl
    | some s =>
      have hmoves : (s.down k).moves.reverse ++ moves.map (·.down k) =
          (s.moves.reverse ++ moves).map (·.down k) := by
        simp [Step.down]
      have herror : (s.down k).error = s.error.map (·.down k) := rfl
      simp only [Option.map_some, hmoves, herror]
      cases s.error with
      | none => exact ih s.parser _
      | some e =>
        simp only [Option.map_some, Run.down, List.map_reverse]
        rfl

lemma proceed_down (fuel : Nat) (p : Parser) :
    (p.down k).proceed fuel = (p.proceed fuel).map (·.down k) := by
  have hunrecoverable : (p.down k).unrecoverable = p.unrecoverable := rfl
  rw [proceed, proceed, hunrecoverable]
  split
  · rfl
  · exact go_down k fuel p []

lemma isFinal_down (r : Run) : (r.down k).isFinal = r.isFinal := by
  obtain ⟨p, moves, outcome⟩ := r
  cases outcome <;> rfl

/-- **The calls on a parser further down return the same**, further down. -/
theorem runs_down (fuel limit : Nat) (p : Parser) :
    (p.down k).runs fuel limit = (p.runs fuel limit).map (·.map (·.down k)) := by
  induction limit generalizing p with
  | zero => rfl
  | succ limit ih =>
    rw [runs, runs, proceed_down]
    cases p.proceed fuel with
    | none => rfl
    | some r =>
      have hparser : (r.down k).parser = r.parser.down k := rfl
      simp only [Option.map_some, Option.bind_eq_bind, Option.bind_some, isFinal_down, hparser, ih]
      split
      · rfl
      · cases r.parser.runs fuel limit <;> rfl

end Parser

end LL1
