/-
# Errors of sources

What can be wrong with a source: a text in which no token begins, a token that does not fit in
its place, or the attempt to go on after an error that could not be recovered from.
-/
import LL1.Lexing.Lexer

namespace LL1

/-- A token that does not fit in its place. -/
inductive SyntaxError where
  /-- Another terminal is expected. -/
  | mismatch (expected : Terminal) (found : Token)
  /-- The nonterminal with this name cannot begin with the token. -/
  | unexpected (found : Token) (nonterminal : String)
deriving DecidableEq, Repr

namespace SyntaxError

/-- The token that does not fit. -/
def token : SyntaxError → Token
  | mismatch _ found => found
  | unexpected found _ => found

/-- The wording of an error, without its place. -/
def message : SyntaxError → String
  | mismatch expected found => s!"expected {expected.name}, found {found.text}"
  | unexpected found nonterminal => s!"unexpected {found.text} while parsing {nonterminal}"

/-- An error with its place. -/
def text (e : SyntaxError) : String := e.token.location.remark e.message

end SyntaxError

/-- A lexical error with its place. -/
def LexError.text (e : LexError) : String := e.location.remark e.message

/-- What keeps a parser from recognising a source. -/
inductive ParseError where
  | lexical (e : LexError)
  | syntactic (e : SyntaxError)
  /-- An earlier error could not be recovered from. -/
  | aborted
deriving DecidableEq, Repr

namespace ParseError

/-- Says that a remark about a source is about its tokens. -/
def lexicalText (remark : String) : String := "lexical error: " ++ remark

/-- Says that a remark about a source is about the order of its tokens. -/
def syntacticText (remark : String) : String := "syntax error: " ++ remark

/-- An error as it is reported. -/
def text : ParseError → String
  | lexical e => lexicalText e.text
  | syntactic e => syntacticText e.text
  | aborted => "parsing has been aborted by an unrecoverable error"

/-- Where an error is. -/
def location? : ParseError → Option Location
  | lexical e => some e.location
  | syntactic e => some e.token.location
  | aborted => none

end ParseError

end LL1
