/-
# Lexers

A lexer divides a source into tokens.  Blanks before a token are skipped, and the token is the
longest beginning of the rest that some category accepts.  If there is none, the text that was
looked at is reported, and reading goes on after its first character.  At the end of the source
the lexer answers with the token that stands for the end, as often as it is asked.
-/
import LL1.Lexing.Munch
import LL1.Text.Blank
import LL1.Token

namespace LL1

/-- A text at which no token begins. -/
structure LexError where
  /-- The characters that were looked at before all categories were ruled out. -/
  scanned : String
  /-- Where they stand. -/
  location : Location
deriving DecidableEq, Repr

/-- The wording of a lexical error, without its place. -/
def LexError.message (e : LexError) : String :=
  "unrecognized character sequence " ++ Text.quote e.scanned

/-- A source that is being divided into tokens. -/
structure Lexer where
  /-- The categories of tokens. -/
  lexicon : Lexicon
  /-- What is left of the source. -/
  rest : List Char
  /-- The place of the first character that is left. -/
  position : Position

namespace Lexer

/-- A lexer at the beginning of a source. -/
def ofSource (lexicon : Lexicon) (source : String) : Lexer := ⟨lexicon, source.toList, .first⟩

/-- The same lexer at the beginning of another source. -/
def reopen (l : Lexer) (source : String) : Lexer := ofSource l.lexicon source

/-- The lexer behind the next `n` characters. -/
def drop (l : Lexer) (n : Nat) : Lexer :=
  { l with rest := l.rest.drop n, position := l.position.afterAll (l.rest.take n) }

/-- The lexer behind the blanks that come next. -/
def skipBlanks (l : Lexer) : Lexer := l.drop (l.rest.takeWhile Text.isBlank).length

/-- The token or the error that begins with the next character, and the lexer behind it. -/
def read (l : Lexer) : Except LexError Token × Lexer :=
  match l.rest with
  | [] => (.ok (.endOfInput l.position), l)
  | _ :: _ =>
    let munch := Munch.ofText l.lexicon l.rest
    match munch.best with
    | some (kind, n) =>
      let lexeme := l.rest.take n
      (.ok ⟨kind, .ofList lexeme, .ofText l.position lexeme⟩, l.drop n)
    | none =>
      let scanned := l.rest.take munch.scanned
      (.error ⟨.ofList scanned, .ofText l.position scanned⟩, l.drop 1)

/-- The next token or error of the source, and the lexer behind it. -/
def next (l : Lexer) : Except LexError Token × Lexer := l.skipBlanks.read

/-- The results of the lexer up to the first token of the kind that ends a source, of which
there are at most `n`. -/
def results : Nat → Lexer → List (Except LexError Token) × Lexer
  | 0, l => ([], l)
  | n + 1, l =>
    match l.next with
    | (.ok t, l') =>
      if t.kind = .endOfInput then ([.ok t], l')
      else let (rs, l'') := results n l'; (.ok t :: rs, l'')
    | (.error e, l') => let (rs, l'') := results n l'; (.error e :: rs, l'')

end Lexer

end LL1
