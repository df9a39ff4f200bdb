/-
# Names of nonterminals
-/
import LL1.Text.NameChar

namespace LL1

/-- Whether a text can name a nonterminal: it begins with a letter or an underscore and goes on
with letters, digits, underscores and joining marks. -/
def isName (s : String) : Bool :=
  match s.toList with
  | [] => false
  | c :: cs => (c == '_' || Text.isNameStart c) && cs.all Text.isNameContinue

end LL1
