/-
# Predictive parsers

A parser keeps a stack of the symbols that it still expects, and looks at one token at a time.
A terminal on top of the stack must be the kind of the token; a nonterminal is treated as the
predictor says.  When the stack is empty, the source has been recognised.

A parser stops at every error, after it has recovered from it, and can be asked to go on.
Two errors cannot be recovered from: one in the text of a token, and a terminal that is missing
at the end of the source.
-/
import LL1.Journal
import LL1.Parsing.Predictor
import LL1.Parsing.Error

namespace LL1

/-- A parser at work. -/
structure Parser where
  /-- The rules and the decisions that it follows. -/
  predictor : Predictor
  /-- The source of tokens. -/
  lexer : Lexer
  /-- The symbols expected, the next one first. -/
  stack : Phrase Nat
  /-- A token that was read and not yet used. -/
  lookahead : Option Token
  /-- Whether an error was met that cannot be recovered from. -/
  unrecoverable : Bool

/-- Something that a parser does. -/
inductive Move where
  /-- It gets a token from the lexer. -/
  | read (t : Token)
  /-- It takes a token for the terminal that it expects. -/
  | matched (t : Token)
  /-- It goes on with an alternative of a nonterminal in view of a token. -/
  | expanded (nonterminal alternative : Nat) (t : Token)
  /-- It refuses a token in the place of a terminal. -/
  | refused (e : SyntaxError)
  /-- It recovers from an error in the place of a nonterminal. -/
  | recovered (how : Recovery) (e : SyntaxError)
deriving DecidableEq, Repr

/-- What a parser has done in one step. -/
structure Step where
  /-- The parser afterwards. -/
  parser : Parser
  /-- What it did, in order. -/
  moves : List Move
  /-- The error that was met, if any. -/
  error : Option ParseError

/-- What a parser has done until the source was recognised or an error was met. -/
structure Run where
  /-- The parser afterwards. -/
  parser : Parser
  /-- What it did, in order. -/
  moves : List Move
  /-- The error, unless the source was recognised. -/
  outcome : Except ParseError Unit

namespace Parser

/-- A parser that has read nothing. -/
def ofLexer (pr : Predictor) (l : Lexer) : Parser := ⟨pr, l, pr.goal, none, false⟩

/-- A parser at the beginning of a source. -/
def ofSource (pr : Predictor) (lexicon : Lexicon) (source : String) : Parser :=
  ofLexer pr (.ofSource lexicon source)

/-- The same parser at the beginning of another source. -/
def reopen (p : Parser) (source : String) : Parser :=
  ofLexer p.predictor (p.lexer.reopen source)

/-- Whether the whole source has been recognised. -/
def isAccepted (p : Parser) : Bool := p.stack.isEmpty

/-- The next token, which is left as lookahead, and the parser then. -/
def peek (p : Parser) : Except LexError Token × List Move × Parser :=
  match p.lookahead with
  | some t => (.ok t, [], p)
  | none =>
    match p.lexer.next with
    | (.ok t, lexer) => (.ok t, [.read t], { p with lexer, lookahead := some t })
    | (.error e, lexer) => (.error e, [], { p with lexer, unrecoverable := true })

/-- The parser without the lookahead, which has been used or passed over. -/
def consume (p : Parser) : Parser := { p with lookahead := none }

/-- What a parser with an expected symbol and a token does: the move, the parser then, and
whether the move reports an error. -/
def act (p : Parser) (top : Symbol Nat) (below : Phrase Nat) (t : Token) :
    Move × Parser × Option SyntaxError :=
  match top with
  | .terminal k =>
    if k = t.kind then (.matched t, { p.consume with stack := below }, none)
    else
      let e := .mismatch k t
      if t.kind = .endOfInput then (.refused e, { p with unrecoverable := true }, some e)
      else (.refused e, p.consume, some e)
  | .nonterminal i =>
    match p.predictor.action i t.kind with
    | .expand a =>
      (.expanded i a t, { p with stack := p.predictor.alternative i a ++ below }, none)
    | .recover how =>
      let e := .unexpected t (p.predictor.name i)
      match how with
      | .pop => (.recovered .pop e, { p with stack := below }, some e)
      | .scan => (.recovered .scan e, p.consume, some e)

/-- What a parser does next, nothing if the source has been recognised.  It gets a token if it
has none, and acts on it. -/
def step (p : Parser) : Option Step :=
  match p.stack with
  | [] => none
  | top :: below =>
    match p.peek with
    | (.error e, read, p) => some ⟨p, read, some (.lexical e)⟩
    | (.ok t, read, p) =>
      let (move, p, e) := p.act top below t
      some ⟨p, read ++ [move], e.map .syntactic⟩

/-- Steps until there is none or one meets an error, `moves` being what was done before, the
latest first.  There is no result if `fuel` does not suffice. -/
def go : Nat → Parser → List Move → Option Run
  | 0, _, _ => none
  | fuel + 1, p, moves =>
    match p.step with
    | none => some ⟨p, moves.reverse, .ok ()⟩
    | some s =>
      let moves := s.moves.reverse ++ moves
      match s.error with
      | some e => some ⟨s.parser, moves.reverse, .error e⟩
      | none => go fuel s.parser moves

/-- Goes on until the source is recognised or an error is met, if `fuel` suffices. -/
def proceed (fuel : Nat) (p : Parser) : Option Run :=
  if p.unrecoverable then some ⟨p, [], .error .aborted⟩ else p.go fuel []

end Parser

namespace Run

/-- Whether there is nothing more to be learned about the source. -/
def isFinal (r : Run) : Bool :=
  match r.outcome with
  | .ok _ => true
  | .error _ => r.parser.unrecoverable

end Run

namespace Parser

/-- The runs until one is final, at most `limit` of them. -/
def runs (fuel : Nat) : Nat → Parser → Option (List Run)
  | 0, _ => some []
  | limit + 1, p => do
    let r ← p.proceed fuel
    if r.isFinal then some [r] else (r :: ·) <$> runs fuel limit r.parser

end Parser

/-! ### Journals -/

/-- The event of finding a token.  The end of a source is not told about. -/
def Token.journal (t : Token) : Journal :=
  if t.lexeme.isEmpty then []
  else [⟨.trace, "token: " ++ t.location.remark t.text⟩]

/-- The events of a move. -/
def Move.journal (pr : Predictor) : Move → Journal
  | read t => t.journal
  | matched t => [⟨.trace, "match " ++ t.text⟩]
  | expanded i a t =>
    [⟨.trace, s!"expand {pr.name i} with {alternativeMark a} on {t.kind.name}"⟩]
  | refused _ => []
  | recovered how e => [⟨.trace, s!"recover by {how.name}: {e.text}"⟩]

/-- The events of a run. -/
def Run.journal (r : Run) : Journal := r.moves.flatMap (Move.journal r.parser.predictor)

end LL1
