/-
# Tokens

A token is a piece of a source with the category that it was recognised as.
-/
import LL1.Terminal
import LL1.Location
import LL1.Text.Quoted

namespace LL1

/-- A lexical unit of a source. -/
structure Token where
  /-- The category of the token. -/
  kind : Terminal
  /-- The characters of the token, empty at the end of the source. -/
  lexeme : String
  /-- Where the characters stand. -/
  location : Location
deriving DecidableEq, Repr

namespace Token

/-- The token that stands for the end of the source at `p`. -/
def endOfInput (p : Position) : Token := ⟨.endOfInput, "", .ofPosition p⟩

/-- A token as messages name it. -/
def text (t : Token) : String :=
  if t.kind = .endOfInput then "end of input" else t.kind.name ++ " " ++ Text.quote t.lexeme

end Token

end LL1
