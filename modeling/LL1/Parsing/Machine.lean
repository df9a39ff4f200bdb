/-
# Parsers with their working state

A machine is a parser that reads from a scanner.  It takes the token at hand away in order to look
at it, and keeps it if it has not used it or passed over it.  When it is opened on another source,
its scanner is, and what it has expected, what it has at hand and whether it has met a fatal error
are overwritten one by one.
-/
import LL1.Lexing.Scanner
import LL1.Parsing.Parser

namespace LL1

/-- A parser with its working state. -/
structure Machine where
  /-- The rules and the decisions that it follows. -/
  predictor : Predictor
  /-- The source of tokens. -/
  scanner : Scanner
  /-- The symbols expected, the next one first. -/
  stack : Phrase Nat
  /-- A token that was read and not yet used. -/
  lookahead : Option Token
  /-- Whether an error was met that cannot be recovered from. -/
  unrecoverable : Bool

namespace Machine

/-- A machine at the beginning of a source.  The automata may be in any state. -/
def ofSource (pr : Predictor) (automata : List Automaton) (source : String) : Machine :=
  ⟨pr, .ofSource automata source, pr.goal, none, false⟩

/-- The same machine at the beginning of another source. -/
def reopen (m : Machine) (source : String) : Machine :=
  { m with
    scanner := m.scanner.reopen source
    stack := m.predictor.goal
    lookahead := none
    unrecoverable := false }

/-- Whether the whole source has been recognised. -/
def isAccepted (m : Machine) : Bool := m.stack.isEmpty

/-- Takes the token at hand, or the next one. -/
def fetch (m : Machine) : Except LexError Token × List Move × Machine :=
  match m.lookahead with
  | some t => (.ok t, [], { m with lookahead := none })
  | none =>
    match m.scanner.next with
    | (.ok t, scanner) => (.ok t, [.read t], { m with scanner })
    | (.error e, scanner) => (.error e, [], { m with scanner, unrecoverable := true })

/-- What a machine with an expected symbol does about a token that it has taken. -/
def meet (m : Machine) (top : Symbol Nat) (below : Phrase Nat) (t : Token) :
    Move × Machine × Option SyntaxError :=
  match top with
  | .terminal k =>
    if k = t.kind then (.matched t, { m with stack := below }, none)
    else
      let e := .mismatch k t
      if t.kind = .endOfInput then
        (.refused e, { m with lookahead := some t, unrecoverable := true }, some e)
      else (.refused e, m, some e)
  | .nonterminal i =>
    match m.predictor.action i t.kind with
    | .expand a =>
      let stack := m.predictor.alternative i a ++ below
      (.expanded i a t, { m with stack, lookahead := some t }, none)
    | .recover how =>
      let e := .unexpected t (m.predictor.name i)
      match how with
      | .pop => (.recovered .pop e, { m with stack := below, lookahead := some t }, some e)
      | .scan => (.recovered .scan e, m, some e)

/-- Goes on until nothing is expected or an error is met, `moves` being what was done before, the
latest first.  There is no result if `fuel` does not suffice. -/
def go : Nat → Machine → List Move → Option (Machine × List Move × Except ParseError Unit)
  | 0, _, _ => none
  | fuel + 1, m, moves =>
    match m.stack with
    | [] => some (m, moves.reverse, .ok ())
    | top :: below =>
      match m.fetch with
      | (.error e, _, m) => some (m, moves.reverse, .error (.lexical e))
      | (.ok t, read, m) =>
        let (move, m, e) := m.meet top below t
        let moves := move :: (read.reverse ++ moves)
        match e with
        | some e => some (m, moves.reverse, .error (.syntactic e))
        | none => go fuel m moves

/-- Goes on until the source is recognised or an error is met, if `fuel` suffices. -/
def proceed (fuel : Nat) (m : Machine) :
    Option (Machine × List Move × Except ParseError Unit) :=
  if m.unrecoverable then some (m, [], .error .aborted) else m.go fuel []

end Machine

end LL1
