import LL1.Checker.Input
import LL1.Checker.Options
import LL1.Checker.Program
import LL1.Checker.Report
import LL1.Compilation
import LL1.Grammar.Basic
import LL1.Grammar.Canonical
import LL1.Grammar.Draft
import LL1.Grammar.Error
import LL1.Grammar.FreshName
import LL1.Grammar.LeftFactoring
import LL1.Grammar.LeftRecursion
import LL1.Grammar.Name
import LL1.Grammar.Notice
import LL1.Grammar.Symbol
import LL1.Journal
import LL1.Lexing.Automaton
import LL1.Lexing.Dfa
import LL1.Lexing.Lexer
import LL1.Lexing.Munch
import LL1.Location
import LL1.Main
import LL1.Parsing.Error
import LL1.Parsing.Parser
import LL1.Parsing.Predictor
import LL1.Prediction.Conflict
import LL1.Prediction.FirstFollow
import LL1.Prediction.Saturation
import LL1.Prediction.Table
import LL1.Proofs.Accounting
import LL1.Proofs.Ambiguity
import LL1.Proofs.Compilation
import LL1.Proofs.Conflict
import LL1.Proofs.Derivation
import LL1.Proofs.Exactness
import LL1.Proofs.Factoring
import LL1.Proofs.FirstFollow
import LL1.Proofs.FreshName
import LL1.Proofs.Idempotence
import LL1.Proofs.Languages
import LL1.Proofs.LeftRecursion
import LL1.Proofs.LexicalGrammar
import LL1.Proofs.Lexing
import LL1.Proofs.LifeCycle
import LL1.Proofs.MaximalMunch
import LL1.Proofs.Normalization
import LL1.Proofs.Parsing
import LL1.Proofs.Partition
import LL1.Proofs.Prediction
import LL1.Proofs.Preservation
import LL1.Proofs.Productions
import LL1.Proofs.Range
import LL1.Proofs.Recognition
import LL1.Proofs.Recovery
import LL1.Proofs.References
import LL1.Proofs.Resolution
import LL1.Proofs.Respacing
import LL1.Proofs.Rewriting
import LL1.Proofs.Saturation
import LL1.Proofs.Separation
import LL1.Proofs.Table
import LL1.Proofs.Transformation
import LL1.Proofs.Unfolding
import LL1.Proofs.WellFormed
import LL1.Rules.Basic
import LL1.Rules.Resolution
import LL1.Sql.Grammar
import LL1.Sql.Lexicon
import LL1.Terminal
import LL1.TerminalSet
import LL1.Text.Blank
import LL1.Text.CharRange
import LL1.Text.Layout
import LL1.Text.NameChar
import LL1.Text.Printable
import LL1.Text.Quoted
import LL1.Token
import LL1.Proofs.Displacement
import LL1.Proofs.Juxtaposition
import LL1.Proofs.Responses
import LL1.Proofs.Scripts
import LL1.Lexing.Scanner
import LL1.Parsing.Machine
import LL1.Proofs.Messages
import LL1.Proofs.Reopening
import LL1.Proofs.Checking
import LL1.Proofs.Occurrences
import LL1.Prediction.Cells
import LL1.Proofs.Cells
import LL1.Proofs.Priority
import LL1.Proofs.Places
import LL1.Proofs.Decision
import LL1.Grammar.Drafting
import LL1.Proofs.Atomicity
import LL1.Proofs.Reordering
import LL1.Rules.Numbering
import LL1.Proofs.Numbering
